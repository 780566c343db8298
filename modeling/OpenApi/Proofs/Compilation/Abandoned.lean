import OpenApi.Proofs.Compilation.Models
/-! # Abandoned references

Schemas of a document are compiled one after the other, whether they fail or not. A reference that is
compiled by itself then stands for its alias, unless one of them failed while the target of the reference
was being compiled. Such a reference looks like one that closes a cycle, and nothing is asked of its
values from then on. -/
namespace OpenApi

open Catalogue (Coherent)

def reference (ref : String) : Value := .object [("$ref", .str ref)]

/-- The reference has a name, but no codec. -/
def Catalogue.Unfinished (k : Catalogue) (ref : String) : Prop :=
  ∃ a, k.lookup ref = some a ∧ a.target = none

/-- The codec of the reference is its alias, which has a codec of its own. -/
def GivesAlias (document : Value) (ref : String) (c : Compilation) : Prop :=
  ∀ codec d, (compileSchema document (reference ref)).run c = (.ok codec, d) →
    ∃ a, d.catalogue.lookup ref = some a ∧ a.ref = ref ∧ a.target.isSome = true ∧ codec = a.codec

/-- Compiling the node fails, and leaves a reference that it met first without a codec. -/
def Abandons (document node : Value) (c : Compilation) (ref : String) : Prop :=
  ∃ f d, (compileSchema document node).run c = (.error f, d) ∧ c.catalogue.lookup ref = none ∧
    d.catalogue.Unfinished ref

variable {document node : Value} {abandoned pending : List String} {k : Catalogue}
  {c d : Compilation} {ref : String}

theorem Catalogue.Coherent.unfinished_iff (h : Coherent document abandoned pending k) :
    k.Unfinished ref ↔ ref ∈ pending := by
  constructor
  · rintro ⟨a, ha, ht⟩
    exact (h.pending_iff ha).mp ht
  · intro hp
    obtain ⟨a, ha⟩ := h.pending_known ref hp
    exact ⟨a, ha, (h.pending_iff ha).mpr hp⟩

theorem compileSchema_unfinished {outcome : Except Fault Codec} (h : Consistent document c)
    (run : (compileSchema document node).run c = (outcome, d)) :
    d.catalogue.Unfinished ref ↔ c.catalogue.Unfinished ref ∨ Abandons document node c ref := by
  have hextends := (compileSchema_advances h run).extended
  obtain ⟨abandoned, hc⟩ := h.coherent
  cases outcome with
  | ok codec =>
    have hd := (compileSchema_ok hc run).1
    rw [hd.unfinished_iff, hc.unfinished_iff]
    refine ⟨.inl, fun hor => hor.resolve_right ?_⟩
    rintro ⟨f, e, hfailed, -⟩
    rw [run] at hfailed
    cases hfailed
  | error f =>
    obtain ⟨pending, hd⟩ := (compileSchema_follows (fun _ hp => hp) c hc).of_failed_run run
    constructor
    · intro hu
      cases hl : c.catalogue.lookup ref with
      | none => exact .inr ⟨f, d, run, hl, hu⟩
      | some a =>
        -- an alias that has a codec keeps it
        refine .inl ⟨a, hl, Option.eq_none_iff_forall_ne_some.mpr fun t ht => ?_⟩
        obtain ⟨b, hb, hnone⟩ := hu
        obtain ⟨b', hb', -, hkept⟩ := hextends ref a hl
        rw [hb] at hb'
        cases hb'
        rw [hkept t ht, ht] at hnone
        cases hnone
    · rintro (hu | ⟨g, e, hfailed, -, hu⟩)
      · rw [hd.unfinished_iff]
        exact hd.abandoned_pending (hc.unfinished_iff.mp hu)
      · rw [run] at hfailed
        cases hfailed
        exact hu

theorem ofValue_reference (ref : String) : Schema.ofValue (reference ref) = .ref ref := rfl

theorem compileSchema_of_unfinished (h : Consistent document c) (hu : c.catalogue.Unfinished ref) :
    (compileSchema document (reference ref)).run c = (.ok .unknown, c) := by
  obtain ⟨abandoned, hc⟩ := h.coherent
  have hp := hc.unfinished_iff.mp hu
  obtain ⟨a, ha⟩ := hc.pending_known ref hp
  have hanswer : c.catalogue.answer abandoned ref = .ok .unknown := by
    rw [Catalogue.answer, ha]
    exact if_pos hp
  rw [compileSchema, ofValue_reference]
  exact modelCodec_settles hc _ ref _ hanswer

theorem givesAlias_iff (h : Consistent document c) :
    GivesAlias document ref c ↔ ¬ c.catalogue.Unfinished ref := by
  constructor
  · intro hgives hu
    obtain ⟨a, -, -, -, ha⟩ := hgives _ _ (compileSchema_of_unfinished h hu)
    cases ha
  · intro hn codec d run
    obtain ⟨abandoned, hc⟩ := h.coherent
    obtain ⟨hd, -, hcodec⟩ := compileSchema_ok hc run
    rw [ofValue_reference] at hcodec
    obtain ⟨a, ha, ⟨hp, -⟩ | ⟨-, ht, rfl⟩⟩ := Catalogue.answer_eq_ok hcodec
    · exact absurd (hc.unfinished_iff.mpr hp) hn
    · exact ⟨a, ha, hd.ref_eq ha, ht, rfl⟩

theorem compileEach_unfinished (h : Consistent document c) (nodes : List Value) :
    (compileEach document nodes c).2.catalogue.Unfinished ref ↔ c.catalogue.Unfinished ref ∨
      ∃ before node after, nodes = before ++ node :: after ∧
        Abandons document node (compileEach document before c).2 ref := by
  induction nodes generalizing c with
  | nil => simp [compileEach]
  | cons node rest ih =>
    rcases run : (compileSchema document node).run c with ⟨outcome, d⟩
    have hstep : ∀ nodes : List Value, (compileEach document (node :: nodes) c).2 =
        (compileEach document nodes d).2 := by
      intro nodes
      rw [compileEach, run]
    rw [hstep, ih (compileSchema_advances h run).consistent, compileSchema_unfinished h run, or_assoc]
    refine or_congr_right ⟨?_, ?_⟩
    · rintro (ha | ⟨before, later, after, rfl, ha⟩)
      · exact ⟨[], node, rest, rfl, ha⟩
      · exact ⟨node :: before, later, after, rfl, (hstep before).symm ▸ ha⟩
    · rintro ⟨before, later, after, he, ha⟩
      cases before with
      | nil =>
        cases he
        exact .inl ha
      | cons first before =>
        cases he
        exact .inr ⟨before, later, after, rfl, hstep before ▸ ha⟩

/-- Whatever schemas of a document were compiled before, a reference that compiles stands for its alias,
unless one of them abandoned it. -/
theorem compileEach_givesAlias_iff (document : Value) (nodes : List Value) (ref : String) :
    GivesAlias document ref (compileEach document nodes .start).2 ↔
      ¬ ∃ before node after, nodes = before ++ node :: after ∧
        Abandons document node (compileEach document before .start).2 ref := by
  have hstart := consistent_start document
  have hnew : ¬ Compilation.start.catalogue.Unfinished ref := by
    rintro ⟨a, ha, -⟩
    cases ha
  rw [givesAlias_iff (compileEach_advances nodes hstart).consistent,
    compileEach_unfinished hstart nodes, or_iff_right hnew]

def emptyIntersection : Value := .object [("A", .object [("allOf", .list [])])]

/-- The reference fails at first, and asks for nothing when it is compiled again. -/
theorem not_givesAlias_emptyIntersection : ∃ d,
    compileEach emptyIntersection [reference "#/A"] .start = ([.error .emptyIntersection], d) ∧
      (compileSchema emptyIntersection (reference "#/A")).run d = (.ok .unknown, d) ∧
      ¬ GivesAlias emptyIntersection "#/A" d := by
  refine ⟨_, rfl, rfl, fun hgives => ?_⟩
  obtain ⟨a, -, -, -, ha⟩ := hgives .unknown _ rfl
  cases ha

end OpenApi
