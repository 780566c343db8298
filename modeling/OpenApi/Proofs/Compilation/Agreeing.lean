import OpenApi.Proofs.Compilation.Coherent
import OpenApi.Proofs.Schema.Closed
import Mathlib.Data.Finset.Card
/-! # Documents that agree

A schema compiles in one document as it does in another one, if its references and those that they lead to
have the same targets in both. How many references either document holds beside them does not count:
every level of a compilation makes a reference known, and no more levels are needed than are unknown. -/
namespace OpenApi

open Compile

namespace Catalogue

variable {k l : Catalogue} {rs : Finset String} {name ref : String}

def unknown (k : Catalogue) (rs : Finset String) : Nat :=
  (rs.filter fun r => k.lookup r = none).card

theorem unknown_le_card (k : Catalogue) (rs : Finset String) : k.unknown rs ≤ rs.card :=
  Finset.card_filter_le _ _

theorem unknown_le (h : ∀ r, l.lookup r = none → k.lookup r = none) : l.unknown rs ≤ k.unknown rs := by
  refine Finset.card_le_card fun r hr => ?_
  rw [Finset.mem_filter] at hr ⊢
  exact ⟨hr.1, h r hr.2⟩

theorem lookup_of_claim (h : k.claim name ref = .ok l) (r : String) :
    l.lookup r = if r = ref then some ⟨name, ref, none⟩ else k.lookup r := by
  simp only [lookup, aliases_of_claim h, Entries.get?_put, beq_iff_eq]

theorem unknown_claim (h : k.claim name ref = .ok l) (href : ref ∈ rs) (hnew : k.lookup ref = none) :
    l.unknown rs < k.unknown rs := by
  have hsub : (rs.filter fun r => l.lookup r = none) ⊆
      (rs.filter fun r => k.lookup r = none).erase ref := by
    intro r hr
    rw [Finset.mem_filter, lookup_of_claim h] at hr
    obtain ⟨hr, hnone⟩ := hr
    by_cases hrr : r = ref
    · rw [if_pos hrr] at hnone
      cases hnone
    · rw [if_neg hrr] at hnone
      exact Finset.mem_erase.mpr ⟨hrr, Finset.mem_filter.mpr ⟨hr, hnone⟩⟩
  have hmem : ref ∈ rs.filter fun r => k.lookup r = none := Finset.mem_filter.mpr ⟨href, hnew⟩
  exact lt_of_le_of_lt (Finset.card_le_card hsub) (Finset.card_erase_lt_of_mem hmem)

theorem unknown_define (k : Catalogue) (a : Alias) (t : Codec) :
    (k.define a t).unknown rs ≤ k.unknown rs := by
  refine unknown_le fun r hr => ?_
  rw [lookup_define] at hr
  split at hr
  · cases hr
  · exact hr

end Catalogue

def RunAlike {α : Type} (rs : Finset String) (x y : Compile α) (c : Compilation) : Prop :=
  x.run c = y.run c ∧ (x.run c).2.catalogue.unknown rs ≤ c.catalogue.unknown rs

section Rules

variable {α β : Type} {rs : Finset String} {x y : Compile α} {f g : α → Compile β} {c : Compilation}

theorem runAlike_refl_pure (a : α) : RunAlike rs (pure a) (pure a) c := ⟨rfl, Nat.le_refl _⟩

theorem RunAlike.bind (h : RunAlike rs x y c) (hf : ∀ a d,
      d.catalogue.unknown rs ≤ c.catalogue.unknown rs → RunAlike rs (f a) (g a) d) :
    RunAlike rs (x >>= f) (y >>= g) c := by
  obtain ⟨he, hle⟩ := h
  rw [RunAlike, run_bind, run_bind, ← he]
  rcases hrun : x.run c with ⟨_ | a, d⟩
  · rw [hrun] at hle
    exact ⟨rfl, hle⟩
  · rw [hrun] at hle
    obtain ⟨hfe, hfle⟩ := hf a d hle
    exact ⟨hfe, Nat.le_trans hfle hle⟩

theorem runAlike_bind_ofExcept {r : Except Fault α} (hf : ∀ a, r = .ok a → RunAlike rs (f a) (g a) c) :
    RunAlike rs (ofExcept r >>= f) (ofExcept r >>= g) c := by
  cases r with
  | error e => exact ⟨rfl, Nat.le_refl _⟩
  | ok a => exact hf a rfl

theorem runAlike_bind_catalogue {f g : Catalogue → Compile β}
    (hf : RunAlike rs (f c.catalogue) (g c.catalogue) c) :
    RunAlike rs (catalogue >>= f) (catalogue >>= g) c := hf

theorem runAlike_bind_setCatalogue {k : Catalogue} {f g : Unit → Compile β}
    (hk : k.unknown rs ≤ c.catalogue.unknown rs)
    (hf : RunAlike rs (f ()) (g ()) { c with catalogue := k }) :
    RunAlike rs (setCatalogue k >>= f) (setCatalogue k >>= g) c :=
  ⟨hf.1, Nat.le_trans hf.2 hk⟩

theorem runAlike_bind_note {e : Event} {f g : Unit → Compile β}
    (hf : RunAlike rs (f ()) (g ()) { c with journal := c.journal ++ [e] }) :
    RunAlike rs (note e >>= f) (note e >>= g) c := hf

end Rules

/-- Both run alike from every state in which fewer references are unknown than either bound. -/
def RunsAlike (rs : Finset String) (m n : Nat) (α : Type) (x y : Compile α) : Prop :=
  ∀ c : Compilation, c.catalogue.unknown rs < m → c.catalogue.unknown rs < n → RunAlike rs x y c

theorem relates_runsAlike (rs : Finset String) (m n : Nat) :
    Schema.Relates Compile Compile (RunsAlike rs m n) where
  pure a _ _ _ := runAlike_refl_pure a
  throw _ _ _ _ := ⟨rfl, Nat.le_refl _⟩
  bind hx hf c hm hn := (hx c hm hn).bind fun a d hle =>
    hf a d (Nat.lt_of_le_of_lt hle hm) (Nat.lt_of_le_of_lt hle hn)

section Models

variable {document other : Value} {rs : Finset String}

/-- The references have the same targets, and these ask for no further references. -/
structure Agrees (document other : Value) (rs : Finset String) : Prop where
  resolve_eq : ∀ r ∈ rs, Pointer.resolve document r = Pointer.resolve other r
  closed : ∀ r ∈ rs, ∀ target, Pointer.resolve document r = .ok target →
    ∀ s ∈ (Schema.ofValue target).refs, s ∈ rs

theorem modelCodec_runsAlike (h : Agrees document other rs) (m n : Nat) {ref : String}
    (href : ref ∈ rs) :
    RunsAlike rs m n Codec (modelCodec document m ref) (modelCodec other n ref) := by
  induction m generalizing n ref with
  | zero => exact fun c hm => absurd hm (Nat.not_lt_zero _)
  | succ m ih =>
    cases n with
    | zero => exact fun c _ hn => absurd hn (Nat.not_lt_zero _)
    | succ n =>
      intro c hm hn
      unfold modelCodec
      rw [← h.resolve_eq ref href]
      refine runAlike_bind_ofExcept fun target ht => runAlike_bind_ofExcept fun name _ => ?_
      refine runAlike_bind_catalogue ?_
      cases hl : c.catalogue.lookup ref with
      | some a => exact runAlike_bind_catalogue (runAlike_refl_pure _)
      | none =>
        refine runAlike_bind_catalogue (runAlike_bind_ofExcept fun k hk => ?_)
        have hless := Catalogue.unknown_claim hk href hl
        refine runAlike_bind_setCatalogue (Nat.le_of_lt hless) (runAlike_bind_note ?_)
        -- one reference less is unknown now, and there is one level less
        have htarget := Schema.compile_related (relates_runsAlike rs m n) (Schema.ofValue target)
          fun s hs => ih n (h.closed ref href target ht s hs)
        have hm' : k.unknown rs < m := Nat.lt_of_lt_of_le hless (Nat.le_of_lt_succ hm)
        have hn' : k.unknown rs < n := Nat.lt_of_lt_of_le hless (Nat.le_of_lt_succ hn)
        refine (htarget _ hm' hn').bind fun codec d _ => ?_
        refine runAlike_bind_catalogue (runAlike_bind_setCatalogue ?_ (runAlike_refl_pure _))
        exact Catalogue.unknown_define _ _ _

def commonReferences (document other node : Value) : Finset String :=
  ((Schema.ofValue node).refs ++ document.references.filter (· ∈ other.references)).toFinset

theorem mem_commonReferences {node : Value} {r : String} : r ∈ commonReferences document other node ↔
    r ∈ (Schema.ofValue node).refs ∨ (r ∈ document.references ∧ r ∈ other.references) := by
  simp [commonReferences]

theorem card_commonReferences (document other node : Value) :
    (commonReferences document other node).card < document.countRefs + node.countRefs + 1 ∧
      (commonReferences document other node).card < other.countRefs + node.countRefs + 1 := by
  have hbound : ∀ v : Value, (∀ r ∈ document.references, r ∈ other.references → r ∈ v.references) →
      (commonReferences document other node).card < v.countRefs + node.countRefs + 1 := by
    intro v hv
    have hsub : commonReferences document other node ⊆ (v.references ++ node.references).toFinset := by
      intro r hr
      rw [List.mem_toFinset, List.mem_append]
      rcases mem_commonReferences.mp hr with hr | ⟨hd, ho⟩
      · exact .inr (Schema.refs_ofValue node hr)
      · exact .inl (hv r hd ho)
    have hcard := (Finset.card_le_card hsub).trans (List.toFinset_card_le _)
    have hv := Value.length_references v
    have hnode := Value.length_references node
    rw [List.length_append] at hcard
    omega
  exact ⟨hbound document fun _ hr _ => hr, hbound other fun _ _ hr => hr⟩

/-- A node is compiled alike in two documents if all references of the second one lead to the same nodes
in both, and those of the node are among them. -/
theorem compileSchema_eq_of_agree {node : Value}
    (h : ∀ r ∈ other.references, Pointer.resolve document r = Pointer.resolve other r)
    (hnode : (Schema.ofValue node).refs ⊆ other.references) :
    compileSchema document node = compileSchema other node := by
  have hagrees : Agrees document other (commonReferences document other node) := by
    have heq : ∀ r ∈ commonReferences document other node,
        Pointer.resolve document r = Pointer.resolve other r := by
      intro r hr
      exact h r ((mem_commonReferences.mp hr).elim (@hnode r) And.right)
    refine ⟨heq, fun r hr target ht s hs => mem_commonReferences.mpr (.inr ?_)⟩
    have hs := Schema.refs_ofValue target hs
    refine ⟨Pointer.references_of_resolve ht hs, ?_⟩
    rw [heq r hr] at ht
    exact Pointer.references_of_resolve ht hs
  obtain ⟨hm, hn⟩ := card_commonReferences document other node
  have hrefs : ∀ r ∈ (Schema.ofValue node).refs, r ∈ commonReferences document other node :=
    fun r hr => mem_commonReferences.mpr (.inl hr)
  have hruns : RunsAlike (commonReferences document other node) (document.countRefs + node.countRefs + 1)
      (other.countRefs + node.countRefs + 1) Codec (compileSchema document node)
      (compileSchema other node) :=
    Schema.compile_related (relates_runsAlike _ _ _) _ fun r hr =>
      modelCodec_runsAlike hagrees _ _ (hrefs r hr)
  refine funext fun c => (hruns c ?_ ?_).1
  · exact Nat.lt_of_le_of_lt (Catalogue.unknown_le_card _ _) hm
  · exact Nat.lt_of_le_of_lt (Catalogue.unknown_le_card _ _) hn

end Models

end OpenApi
