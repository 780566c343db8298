import OpenApi.Proofs.Compilation.Reachable
import OpenApi.Proofs.Schema.Closed
/-! # Compilations that cannot fail

A settled catalogue knows every reference that the targets of its references ask for. So a
compilation that is started with less, but meets no other references, succeeds: no name clashes and
no target is malformed. Nor is it cut short. The references under way are different ones, so there
are never more of them than stand in the document and in the node. -/
namespace OpenApi

open Relation (TransGen ReflTransGen)
open Catalogue (Coherent)

namespace Catalogue

/-- Every reference that the catalogue knows is known to the other one as well. -/
def Within (c k : Catalogue) : Prop :=
  ∀ r a, c.lookup r = some a → ∃ b, k.lookup r = some b

variable {document : Value} {abandoned pending : List String} {c d k : Catalogue}
  {ref name : String} {a b : Alias}

theorem Within.trans (h : c.Within d) (hd : d.Within k) : c.Within k := by
  intro r a ha
  obtain ⟨b, hb⟩ := h r a ha
  exact hd r b hb

theorem Extends.within (h : c.Extends d) : c.Within d := by
  intro r a ha
  obtain ⟨b, hb, -⟩ := h r a ha
  exact ⟨b, hb⟩

theorem Coherent.name_eq (h : Coherent document abandoned pending c)
    (hk : Coherent document [] [] k) (ha : c.lookup ref = some a) (hb : k.lookup ref = some b) :
    a.name = b.name := by
  obtain ⟨target, ht, hname, -⟩ := h.origin ha
  obtain ⟨target', ht', hname', -⟩ := hk.origin hb
  rw [ht] at ht'
  cases ht'
  exact Except.ok.inj (hname.symm.trans hname')

theorem Coherent.exists_claim (h : Coherent document abandoned pending c)
    (hk : Coherent document [] [] k) (hck : c.Within k) (hn : c.lookup ref = none)
    (hb : k.lookup ref = some b) : ∃ d, c.claim b.name ref = .ok d := by
  cases ho : c.owners.get? b.name with
  | none => exact ⟨_, by simp only [Catalogue.claim, ho]; rfl⟩
  | some owner =>
    obtain ⟨a, ha, han⟩ := h.owned ho
    obtain ⟨b', hb'⟩ := hck owner a ha
    have hname : b'.name = b.name := (h.name_eq hk ha hb').symm.trans han
    have howner := hk.owner_eq hb'
    rw [hname, hk.owner_eq hb] at howner
    obtain rfl : ref = owner := Option.some.inj howner
    rw [hn] at ha
    cases ha

theorem Coherent.within_claim (h : Coherent document abandoned pending c) (hck : c.Within k)
    (hn : c.lookup ref = none) (hc : c.claim name ref = .ok d) (hb : k.lookup ref = some b) :
    d.Within k := by
  obtain ⟨-, rfl⟩ := h.claim_eq hn hc
  intro r a ha
  rcases lookup_claimed_cases ha with ⟨rfl, -⟩ | ⟨-, ha⟩
  · exact ⟨b, hb⟩
  · exact hck r a ha

theorem within_define {t : Codec} (hck : c.Within k) (hb : k.lookup a.ref = some b) :
    (c.define a t).Within k := by
  intro r a' ha
  rcases lookup_define_cases ha with ⟨rfl, -⟩ | ⟨-, ha⟩
  · exact ⟨b, hb⟩
  · exact hck r a' ha

end Catalogue

open Catalogue (known_of_answer)

/-- Whenever `y` has a result, `x` has a related one when it is run in a state of `I`, and it ends
in such a state. -/
def Succeeds (I : Compilation → Prop) {α β : Type} (S : α → β → Prop) (x : Compile α)
    (y : Except Fault β) : Prop :=
  ∀ b, y = .ok b → ∀ c, I c → x.EndsIn (fun a d => S a b ∧ I d) (fun _ => False) c

theorem lifts_succeeds (I : Compilation → Prop) :
    Schema.Lifts Compile (Except Fault) (Succeeds I) where
  pure h b hb c hc := ⟨Except.ok.inj hb ▸ h, hc⟩
  throw _ _ hb := nomatch hb
  bind hx hf b hb c hc := by
    obtain ⟨a, ha, hg⟩ := bind_eq_ok.mp hb
    refine Compile.endsIn_bind.mpr ((hx a ha c hc).mono (fun a' d had => ?_) fun _ => id)
    exact hf a' a had.1 b hg d had.2

theorem congruence_true : Codec.Congruence fun _ _ => True := by
  constructor <;> intros <;> trivial

/-- The references under way when a reference is compiled: they lead to it, they are different ones
among those that may be met at all, and the depth that is left is enough for all others. -/
structure Descent (document : Value) (all pending : List String) (depth : Nat) (ref : String) :
    Prop where
  path : ∀ p ∈ pending, TransGen (Refers document) p ref
  listed : ref ∈ all
  distinct : pending.Nodup
  below : pending ⊆ all
  deep : all.length < depth + pending.length

section Descent

variable {document node : Value} {all pending : List String} {depth : Nat} {ref s : String}
  {k : Catalogue}

theorem not_descent_zero : ¬ Descent document all pending 0 ref := by
  intro h
  have hle : pending.length ≤ all.length :=
    (List.subperm_of_subset h.distinct h.below).length_le
  have hlt := h.deep
  omega

theorem Descent.next (h : Descent document all pending (depth + 1) ref) (hnew : ref ∉ pending)
    (hedge : Refers document ref s) (hs : s ∈ all) :
    Descent document all (ref :: pending) depth s where
  path p hp := by
    rcases List.mem_cons.mp hp with rfl | hp
    · exact .single hedge
    · exact (h.path p hp).tail hedge
  listed := hs
  distinct := List.nodup_cons.mpr ⟨hnew, h.distinct⟩
  below := List.cons_subset.mpr ⟨h.listed, h.below⟩
  deep := by
    have hlt := h.deep
    rw [List.length_cons]
    omega

theorem Descent.waits (h : Descent document all pending depth ref) {c : Compilation}
    (hc : Waits document [] pending c)
    (hrun : (modelCodec document depth ref).EndsIn (fun _ d => d.catalogue.Within k)
      (fun _ => False) c) :
    (modelCodec document depth ref).EndsIn
      (fun _ d => True ∧ Waits document [] pending d ∧ d.catalogue.Within k) (fun _ => False) c := by
  have hfollows := modelCodec_follows depth (fun p hp => Or.inr (h.path p hp)) c hc
  refine (hfollows.and hrun).mono (fun _ d hd => ?_) fun _ hd => hd.2
  exact ⟨trivial, hd.1.1, hd.2⟩

theorem modelCodec_succeeds (hk : Coherent document [] [] k) (hall : document.references ⊆ all)
    (h : Descent document all pending depth ref) {b : Alias} (hb : k.lookup ref = some b)
    {c : Compilation} (hc : Waits document [] pending c) (hck : c.catalogue.Within k) :
    (modelCodec document depth ref).EndsIn (fun _ d => d.catalogue.Within k) (fun _ => False) c := by
  induction depth generalizing pending ref b c with
  | zero => exact absurd h not_descent_zero
  | succ depth ih =>
    obtain ⟨target, t, ht, -, waiting, -, hcomp⟩ := hk.model_of_lookup hb
    have hname : Naming.modelName ref target = .ok b.name := by
      obtain ⟨target', ht', hname, -⟩ := hk.origin hb
      rw [ht] at ht'
      cases ht'
      exact hname
    unfold modelCodec
    rw [ht]
    refine Compile.endsIn_bind.mpr (Compile.endsIn_ok.mpr ?_)
    rw [hname]
    refine Compile.endsIn_bind.mpr (Compile.endsIn_ok.mpr ?_)
    refine Compile.endsIn_bind.mpr (Compile.endsIn_catalogue.mpr ?_)
    cases hl : c.catalogue.lookup ref with
    | some a =>
      refine Compile.endsIn_bind.mpr (Compile.endsIn_catalogue.mpr ?_)
      exact (Compile.endsIn_pure _).mpr hck
    | none =>
      obtain ⟨e, he⟩ := Coherent.exists_claim hc hk hck hl hb
      refine Compile.endsIn_bind.mpr (Compile.endsIn_catalogue.mpr ?_)
      rw [he]
      refine Compile.endsIn_bind.mpr (Compile.endsIn_ok.mpr ?_)
      refine Compile.endsIn_bind.mpr (Compile.endsIn_setCatalogue.mpr ?_)
      refine Compile.endsIn_bind.mpr (Compile.endsIn_note.mpr ?_)
      -- below the reference, the states are those in which it waits, with known references only
      have hrefs : ∀ s ∈ (Schema.ofValue target).refs,
          Succeeds (fun d => Waits document [] (ref :: pending) d ∧ d.catalogue.Within k)
            (fun _ _ => True) (modelCodec document depth s) (k.answer waiting s) := by
        intro s hs x hx d hd
        obtain ⟨a, ha⟩ := known_of_answer hx
        have hlisted : s ∈ all :=
          hall (Pointer.references_of_resolve ht (Schema.refs_ofValue target hs))
        have hnext := h.next (Coherent.not_pending hc hl) ⟨target, ht, hs⟩ hlisted
        exact hnext.waits hd.1 (ih hnext ha hd.1 hd.2)
      have hstart : Waits document [] (ref :: pending)
          ⟨e, c.frozen, c.journal ++ [.compilingModel b.name ref]⟩ := hc.claim hl ht hname he
      have hwithin : e.Within k := Coherent.within_claim hc hck hl he hb
      have hrun := Schema.compile_lifted (lifts_succeeds _) congruence_true _ hrefs t hcomp _
        ⟨hstart, hwithin⟩
      refine Compile.endsIn_bind.mpr (hrun.mono (fun x d hd => ?_) fun _ => id)
      refine Compile.endsIn_bind.mpr (Compile.endsIn_catalogue.mpr ?_)
      refine Compile.endsIn_bind.mpr (Compile.endsIn_setCatalogue.mpr ?_)
      exact (Compile.endsIn_pure _).mpr (Catalogue.within_define hd.2.2 hb)

/-- A node whose references a settled catalogue knows compiles where fewer references are known. -/
theorem compileSchema_succeeds (hk : Coherent document [] [] k) {codec : Codec}
    (hcodec : (Schema.ofValue node).compile (k.answer []) = .ok codec) {c : Compilation}
    (hc : Coherent document [] [] c.catalogue) (hck : c.catalogue.Within k) :
    (compileSchema document node).EndsIn (fun _ d => d.catalogue.Within k) (fun _ => False) c := by
  have hrefs : ∀ r ∈ (Schema.ofValue node).refs,
      Succeeds (fun d => Waits document [] [] d ∧ d.catalogue.Within k) (fun _ _ => True)
        (modelCodec document (document.countRefs + node.countRefs + 1) r) (k.answer [] r) := by
    intro r hr x hx d hd
    obtain ⟨a, ha⟩ := known_of_answer hx
    have hdocument := Value.length_references document
    have hnode := Value.length_references node
    have hstart : Descent document (document.references ++ node.references) []
        (document.countRefs + node.countRefs + 1) r := by
      refine ⟨nofun, List.mem_append_right _ (Schema.refs_ofValue node hr), .nil, nofun, ?_⟩
      rw [List.length_append, List.length_nil]
      omega
    have hall := List.subset_append_left document.references node.references
    exact hstart.waits hd.1 (modelCodec_succeeds hk hall hstart ha hd.1 hd.2)
  have hrun := Schema.compile_lifted (lifts_succeeds _) congruence_true _ hrefs codec hcodec c
    ⟨hc, hck⟩
  exact hrun.mono (fun _ d hd => hd.2.2) fun _ => id

end Descent

end OpenApi
