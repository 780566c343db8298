import OpenApi.Proofs.Codec.Aliases
import OpenApi.Proofs.Compilation.Recompiled
/-! # Models in the order of their definitions

A model is defined after its target was compiled, and a reference is only answered by a model that is
defined already. So the models that stand in the codec of a model were defined before it, also if
some compilations failed, and references that lead back to themselves make no cycle of models. -/
namespace OpenApi

open Relation (TransGen)
open Catalogue (Coherent)

/-- Compiles schemas of a document one after the other, whether they fail or not. -/
def compileEach (document : Value) :
    List Value → Compilation → List (Except Fault Codec) × Compilation
  | [], c => ([], c)
  | node :: rest, c =>
    let (outcome, d) := (compileSchema document node).run c
    let (outcomes, e) := compileEach document rest d
    (outcome :: outcomes, e)

def Catalogue.Knows (k : Catalogue) (c : Codec) : Prop :=
  ∀ a ∈ c.aliases, k.lookup a.ref = some a ∧ a.target.isSome = true

variable {document : Value} {abandoned pending waiting : List String} {k l base : Catalogue}
  {codec : Codec} {ref name : String}

namespace Catalogue

theorem Knows.mono (h : k.Knows codec) (hkl : k.Extends l) : l.Knows codec := by
  intro a ha
  obtain ⟨hlookup, hsome⟩ := h a ha
  obtain ⟨t, ht⟩ := Option.isSome_iff_exists.mp hsome
  obtain ⟨b, hb, -, hba⟩ := hkl a.ref a hlookup
  rw [hba t ht] at hb
  exact ⟨hb, hsome⟩

theorem knows_answer (h : Coherent document abandoned pending k)
    (hr : k.answer waiting ref = .ok codec) : codec.isRequired = true ∧ k.Knows codec := by
  obtain ⟨a, ha, ⟨-, rfl⟩ | ⟨-, ht, rfl⟩⟩ := answer_eq_ok hr
  · exact ⟨rfl, nofun⟩
  · refine ⟨rfl, fun b hb => ?_⟩
    obtain rfl := List.mem_singleton.mp hb
    obtain rfl := h.ref_eq ha
    exact ⟨ha, ht⟩

theorem knows_of_compile (h : Coherent document abandoned pending k) {node : Value}
    (hc : (Schema.ofValue node).compile (k.answer waiting) = .ok codec) : k.Knows codec :=
  (Schema.compile_closed (Codec.closed_aliases _) (Schema.regular_ofValue node)
    (fun _ _ _ => knows_answer h) hc).2

theorem Coherent.mem_models (h : Coherent document abandoned pending k) {a : Alias}
    (ha : k.lookup ref = some a) {t : Codec} (ht : a.target = some t) : (a.name, t) ∈ k.models := by
  have hdefined := h.defined_eq ha
  rw [ht] at hdefined
  obtain ⟨⟨n, u⟩, hmem, hn, rfl⟩ := Entries.mem_of_get? hdefined
  rw [eq_of_beq hn]
  exact hmem

theorem Knows.grounded (h : k.Knows codec) (hk : Coherent document abandoned pending k) :
    codec.Grounded k.models := by
  intro a ha
  obtain ⟨hlookup, hsome⟩ := h a ha
  obtain ⟨t, ht⟩ := Option.isSome_iff_exists.mp hsome
  exact ⟨t, ht, hk.mem_models hlookup ht⟩

/-- Nothing that was known at first is lost, and models are defined in order. -/
structure Kept (base k : Catalogue) : Prop where
  extended : base.Extends k
  ordered : Ordered k.models

theorem Kept.claim (h : Kept base k) (hk : Coherent document abandoned pending k)
    (hn : k.lookup ref = none) (hc : k.claim name ref = .ok l) : Kept base l := by
  refine ⟨h.extended.trans (hk.extends_claim hn hc), ?_⟩
  obtain ⟨-, rfl⟩ := hk.claim_eq hn hc
  exact h.ordered

theorem Kept.define (h : Kept base k) (hk : Coherent document abandoned (ref :: pending) k)
    (hl : k.lookup ref = some ⟨name, ref, none⟩) (hcodec : k.Knows codec) :
    Kept base (k.define ⟨name, ref, none⟩ codec) := by
  refine ⟨h.extended.trans (extends_define hl), ?_⟩
  have hnew : name ∉ k.models.keys := Entries.get?_eq_none_iff.mp (hk.defined_eq hl)
  have hput : (k.define ⟨name, ref, none⟩ codec).models = k.models ++ [(name, codec)] :=
    Entries.put_of_new codec hnew
  rw [hput]
  exact h.ordered.concat hnew (hcodec.grounded hk)

end Catalogue

open Catalogue (Kept)

section Models

def WaitsKept (document : Value) (abandoned : List String) (base : Catalogue)
    (pending : List String) (c : Compilation) : Prop :=
  Waits document abandoned pending c ∧ Kept base c.catalogue

def StoppedKept (document : Value) (abandoned : List String) (base : Catalogue)
    (c : Compilation) : Prop :=
  Stopped document abandoned c ∧ Kept base c.catalogue

theorem stoppedKept_of_waitsKept (c : Compilation) (h : WaitsKept document abandoned base pending c) :
    StoppedKept document abandoned base c := ⟨stopped_of_waits c h.1, h.2⟩

def Keeps (document : Value) (abandoned pending : List String) (base : Catalogue)
    (x : Compile Codec) : Prop :=
  ∀ c, WaitsKept document abandoned base pending c →
    x.EndsIn (fun _ d => Kept base d.catalogue) (fun d => Kept base d.catalogue) c

theorem Keeps.follows {x : Compile Codec} {y : Asking Codec}
    (h : Keeps document abandoned pending base x)
    (hx : Follows (Waits document abandoned pending) (Stopped document abandoned) pending Codec
      x y) :
    Follows (WaitsKept document abandoned base pending) (StoppedKept document abandoned base)
      pending Codec x y := by
  intro c hc
  refine ((hx c hc.1).and (h c hc)).mono (fun a d hd => ?_) fun _ => id
  exact ⟨⟨hd.1.1, hd.2⟩, hd.1.2⟩

theorem modelCodec_keeps (depth : Nat)
    (hpath : ∀ p ∈ pending, p ∈ abandoned ∨ TransGen (Refers document) p ref) :
    Keeps document abandoned pending base (modelCodec document depth ref) := by
  induction depth generalizing pending ref with
  | zero => exact fun c hc => hc.2
  | succ depth ih =>
    intro c ⟨hc, hkept⟩
    unfold modelCodec
    refine Compile.endsIn_bind.mpr (Compile.endsIn_of_except (fun target ht => ?_) hkept)
    refine Compile.endsIn_bind.mpr (Compile.endsIn_of_except (fun name hname => ?_) hkept)
    refine Compile.endsIn_bind.mpr (Compile.endsIn_catalogue.mpr ?_)
    cases hl : c.catalogue.lookup ref with
    | some a =>
      refine Compile.endsIn_bind.mpr (Compile.endsIn_catalogue.mpr ?_)
      exact (Compile.endsIn_pure _).mpr hkept
    | none =>
      refine Compile.endsIn_bind.mpr (Compile.endsIn_catalogue.mpr ?_)
      refine Compile.endsIn_bind.mpr (Compile.endsIn_of_except (fun k hk => ?_) hkept)
      refine Compile.endsIn_bind.mpr (Compile.endsIn_setCatalogue.mpr ?_)
      refine Compile.endsIn_bind.mpr (Compile.endsIn_note.mpr ?_)
      have hlk : k.lookup ref = some ⟨name, ref, none⟩ := by
        obtain ⟨-, rfl⟩ := hc.claim_eq hl hk
        rw [Catalogue.lookup_claimed, if_pos rfl]
      -- what waits leads to `ref`, and `ref` to the references of its target
      have hbelow : ∀ r ∈ (Schema.ofValue target).refs, ∀ p ∈ ref :: pending,
          p ∈ abandoned ∨ TransGen (Refers document) p r := by
        intro r hr p hp
        have hedge : Refers document ref r := ⟨target, ht, hr⟩
        rcases List.mem_cons.mp hp with rfl | hp
        · exact .inr (.single hedge)
        · exact (hpath p hp).imp_right fun hpr => hpr.tail hedge
      have hstart : WaitsKept document abandoned base (ref :: pending)
          ⟨k, c.frozen, c.journal ++ [.compilingModel name ref]⟩ :=
        ⟨hc.claim hl ht hname hk, hkept.claim hc hl hk⟩
      have hrun := compile_follows stoppedKept_of_waitsKept
        (fun r hr => (ih (hbelow r hr)).follows (modelCodec_follows depth (hbelow r hr))) _ hstart
      refine Compile.endsIn_bind.mpr (hrun.mono (fun t d hd => ?_) fun _ hd => hd.2)
      obtain ⟨⟨hd, hkeptd⟩, hkd, hcomp⟩ := hd
      -- answers last, so the target is compiled from those of `d`, in which all models are defined
      have hcodec : (Schema.ofValue target).compile (d.catalogue.answer (ref :: pending)) = .ok t := by
        rw [← compile_asked]
        exact hcomp _ (Catalogue.extends_refl _)
      refine Compile.endsIn_bind.mpr (Compile.endsIn_catalogue.mpr ?_)
      refine Compile.endsIn_bind.mpr (Compile.endsIn_setCatalogue.mpr ?_)
      refine (Compile.endsIn_pure _).mpr ?_
      exact hkeptd.define hd (lookup_of_extends hd hkd hlk) (Catalogue.knows_of_compile hd hcodec)

end Models

section Schemas

structure Consistent (document : Value) (c : Compilation) : Prop where
  coherent : ∃ abandoned, Coherent document abandoned abandoned c.catalogue
  ordered : Ordered c.catalogue.models

theorem consistent_start (document : Value) : Consistent document .start :=
  ⟨⟨[], Catalogue.coherent_empty document⟩, .nil⟩

/-- A step of a sequence that adds to what is known, and the codec of which is known if it has one. -/
structure Advances (document : Value) (c d : Compilation) (outcomes : List (Except Fault Codec)) :
    Prop where
  consistent : Consistent document d
  extended : c.catalogue.Extends d.catalogue
  known : ∀ codec, .ok codec ∈ outcomes → d.catalogue.Knows codec

theorem compileSchema_advances {node : Value} {c d : Compilation} {outcome : Except Fault Codec}
    (h : Consistent document c) (run : (compileSchema document node).run c = (outcome, d)) :
    Advances document c d [outcome] := by
  obtain ⟨⟨abandoned, hc⟩, hordered⟩ := h
  have hpath : ∀ r, ∀ p ∈ abandoned, p ∈ abandoned ∨ TransGen (Refers document) p r :=
    fun _ _ hp => .inl hp
  have hfollows : Follows (WaitsKept document abandoned c.catalogue abandoned)
      (StoppedKept document abandoned c.catalogue) abandoned Codec (compileSchema document node)
      ((Schema.ofValue node).compile asked) :=
    compile_follows stoppedKept_of_waitsKept fun r _ =>
      (modelCodec_keeps _ (hpath r)).follows (modelCodec_follows _ (hpath r))
  have hends := hfollows c ⟨hc, Catalogue.extends_refl _, hordered⟩
  cases outcome with
  | ok codec =>
    obtain ⟨⟨hd, hkept⟩, -, hcomp⟩ := hends.of_run run
    have hcodec : (Schema.ofValue node).compile (d.catalogue.answer abandoned) = .ok codec := by
      rw [← compile_asked]
      exact hcomp _ (Catalogue.extends_refl _)
    refine ⟨⟨⟨abandoned, hd⟩, hkept.ordered⟩, hkept.extended, fun b hb => ?_⟩
    cases List.mem_singleton.mp hb
    exact Catalogue.knows_of_compile hd hcodec
  | error e =>
    obtain ⟨⟨pending, hd⟩, hkept⟩ := hends.of_failed_run run
    refine ⟨⟨⟨pending, hd.abandon⟩, hkept.ordered⟩, hkept.extended, fun b hb => ?_⟩
    cases List.mem_singleton.mp hb

theorem compileEach_advances (nodes : List Value) {c : Compilation} (h : Consistent document c) :
    Advances document c (compileEach document nodes c).2 (compileEach document nodes c).1 := by
  induction nodes generalizing c with
  | nil => exact ⟨h, Catalogue.extends_refl _, nofun⟩
  | cons node rest ih =>
    have hfirst := @compileSchema_advances document node c _ _ h rfl
    have hrest := ih hfirst.consistent
    refine ⟨hrest.consistent, hfirst.extended.trans hrest.extended, fun codec hcodec => ?_⟩
    rcases List.mem_cons.mp hcodec with hcodec | hcodec
    · exact (hfirst.known codec (hcodec ▸ List.mem_cons_self)).mono hrest.extended
    · exact hrest.known codec hcodec

/-- Whatever schemas of a document are compiled, every model that stands in a codec is defined, and
in the codec of a model it was defined earlier. Following models ends and leads to no cycle, and
decoding never meets a model that is not defined. -/
theorem compileEach_grounded (document : Value) (nodes : List Value) :
    let models := (compileEach document nodes .start).2.catalogue.models
    Ordered models ∧ WellFounded (Mentions models) ∧ (∀ n, ¬ TransGen (Mentions models) n n) ∧
      ∀ codec, (.ok codec ∈ (compileEach document nodes .start).1 ∨
          ∃ name, (name, codec) ∈ models) →
        codec.Grounded models ∧ ∀ raw f, codec.decode raw = failed f → ¬ f.Undefined := by
  intro models
  have hall := compileEach_advances nodes (consistent_start document)
  have hordered : Ordered models := hall.consistent.ordered
  obtain ⟨abandoned, hcoherent⟩ := hall.consistent.coherent
  refine ⟨hordered, hordered.wellFounded, hordered.not_cyclic, fun codec hcodec => ?_⟩
  have hgrounded : codec.Grounded models := by
    rcases hcodec with hcodec | ⟨name, hmem⟩
    · exact (hall.known codec hcodec).grounded hcoherent
    · exact hordered.grounded_of_mem hmem
  exact ⟨hgrounded, fun raw f hf => Codec.not_undefined_of_decode hordered hgrounded hf⟩

end Schemas

end OpenApi
