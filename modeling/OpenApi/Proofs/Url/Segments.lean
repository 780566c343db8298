import OpenApi.Proofs.Url.Template
import Mathlib.Data.List.Chain
/-! # Segments of a path

Reading a path loses nothing: the segments, each as it stands in the path, make up the path. What is read as
literal text is as long as it can be, since two such texts are never neighbours, and it holds no placeholder,
so reading it again finds nothing in it. -/
namespace OpenApi.Url

def Segment.source : Segment → String
  | literal text => text
  | parameter name => String.ofList (openingBrace :: name.toList ++ [closingBrace])

def Template.source (t : Template) : String := String.join (t.map Segment.source)

def Segment.text : Segment → String
  | literal text => text
  | parameter name => name

inductive Segment.IsLiteral : Segment → Prop
  | intro (text : String) : IsLiteral (literal text)

def Segment.MayMeet (s s' : Segment) : Prop := ¬ (s.IsLiteral ∧ s'.IsLiteral)

/-- The template is what the path says, and its literal texts are as long as they can be. -/
structure Template.Splits (t : Template) (path : String) : Prop where
  source_eq : t.source = path
  text_ne : ∀ s ∈ t, s.text ≠ ""
  apart : t.IsChain Segment.MayMeet
  again : ∀ text, .literal text ∈ t → ofPath text = [.literal text]

variable {c : Char} {cs rest name after : List Char} {p : Placeholder}

theorem untilClosing_append (h : untilClosing cs = some (name, after)) (more : List Char) :
    untilClosing (cs ++ more) = some (name, after ++ more) := by
  induction cs generalizing name with
  | nil => cases h
  | cons c rest ih =>
    rw [untilClosing] at h
    rw [List.cons_append, untilClosing]
    split at h
    · next hclosing =>
      cases h
      rw [if_pos hclosing]
    · next hclosing =>
      rw [if_neg hclosing]
      split at h
      · cases h
      · next hline =>
        obtain ⟨⟨n, a⟩, hrest, he⟩ := Option.map_eq_some_iff.mp h
        cases he
        rw [if_neg hline, ih hrest]
        rfl

theorem placeholderName_append (h : placeholderName cs = some (name, after)) (more : List Char) :
    placeholderName (cs ++ more) = some (name, after ++ more) := by
  cases cs with
  | nil => cases h
  | cons c rest =>
    rw [placeholderName] at h
    rw [List.cons_append, placeholderName]
    split at h
    · cases h
    · next hline =>
      obtain ⟨⟨n, a⟩, hrest, he⟩ := Option.map_eq_some_iff.mp h
      cases he
      rw [if_neg hline, untilClosing_append hrest]
      rfl

/-- A text without a name at its front has none after it was cut. -/
theorem placeholderName_of_append {more : List Char} (h : placeholderName (cs ++ more) = none) :
    placeholderName cs = none := by
  cases hcs : placeholderName cs with
  | none => rfl
  | some found =>
    rw [placeholderName_append hcs more] at h
    cases h

theorem placeholderName_ne_nil (h : placeholderName cs = some (name, after)) : name ≠ [] := by
  cases cs with
  | nil => cases h
  | cons c rest =>
    rw [placeholderName] at h
    split at h
    · cases h
    · obtain ⟨⟨n, a⟩, -, he⟩ := Option.map_eq_some_iff.mp h
      cases he
      exact List.cons_ne_nil c n

/-- No placeholder begins at the character in front of the text. -/
def NoneAt (c : Char) (rest : List Char) : Prop := c = openingBrace → placeholderName rest = none

theorem firstPlaceholder_cons (h : firstPlaceholder (c :: rest) = some p) :
    (∃ name after, placeholderName rest = some (name, after) ∧ p = ⟨[], name, after⟩) ∨
      NoneAt c rest ∧ ∃ q, firstPlaceholder rest = some q ∧ p = { q with before := c :: q.before } := by
  have hlater : (firstPlaceholder rest).map (fun p => { p with before := c :: p.before }) = some p →
      ∃ q, firstPlaceholder rest = some q ∧ p = { q with before := c :: q.before } := by
    intro hp
    obtain ⟨q, hq, he⟩ := Option.map_eq_some_iff.mp hp
    exact ⟨q, hq, he.symm⟩
  rw [firstPlaceholder] at h
  split at h
  · split at h
    · next name after hname => exact .inl ⟨name, after, hname, (Option.some.inj h).symm⟩
    · next hname => exact .inr ⟨fun _ => hname, hlater h⟩
  · next hc => exact .inr ⟨fun he => absurd (beq_iff_eq.mpr he) hc, hlater h⟩

theorem firstPlaceholder_cons_eq_none (hc : NoneAt c rest) (h : firstPlaceholder rest = none) :
    firstPlaceholder (c :: rest) = none := by
  rw [firstPlaceholder, h]
  split
  · next he =>
    rw [hc (beq_iff_eq.mp he)]
    rfl
  · rfl

theorem firstPlaceholder_before (h : firstPlaceholder cs = some p) : firstPlaceholder p.before = none := by
  induction cs generalizing p with
  | nil => cases h
  | cons c rest ih =>
    obtain ⟨name, after, -, rfl⟩ | ⟨hnone, q, hq, rfl⟩ := firstPlaceholder_cons h
    · rfl
    · refine firstPlaceholder_cons_eq_none (fun hc => ?_) (ih hq)
      have hrest := hnone hc
      rw [firstPlaceholder_eq hq, List.append_assoc] at hrest
      exact placeholderName_of_append hrest

theorem firstPlaceholder_name_ne_nil (h : firstPlaceholder cs = some p) : p.name ≠ [] := by
  induction cs generalizing p with
  | nil => cases h
  | cons c rest ih =>
    obtain ⟨name, after, hname, rfl⟩ | ⟨-, q, hq, rfl⟩ := firstPlaceholder_cons h
    · exact placeholderName_ne_nil hname
    · exact ih (p := q) hq

variable {s : Segment} {text : String} {t : Template}

theorem ofList_ne_empty (h : cs ≠ []) : String.ofList cs ≠ "" := by
  intro he
  exact h (String.ofList_eq_empty_iff.mp he)

theorem mem_literalSegment : s ∈ literalSegment cs ↔ cs ≠ [] ∧ s = .literal (String.ofList cs) := by
  cases cs with
  | nil => simp [literalSegment]
  | cons c rest => simp [literalSegment]

theorem flatMap_literalSegment (cs : List Char) :
    (literalSegment cs).flatMap (fun s => s.source.toList) = cs := by
  cases cs with
  | nil => rfl
  | cons c rest => simp [literalSegment, Segment.source]

theorem segmentsOf_of_none (h : firstPlaceholder cs = none) : segmentsOf cs = literalSegment cs := by
  rw [segmentsOf]
  split
  · rfl
  · next p hp =>
    rw [h] at hp
    cases hp

theorem segmentsOf_of_some (h : firstPlaceholder cs = some p) : segmentsOf cs =
    literalSegment p.before ++ .parameter (String.ofList p.name) :: segmentsOf p.after := by
  rw [segmentsOf]
  split
  · next hp =>
    rw [h] at hp
    cases hp
  · next q hq =>
    rw [h] at hq
    cases hq
    rfl

/-- What holds of a text without placeholders, and of one whose rest it holds of, holds of every text. -/
theorem segmentsOf_induction {P : List Char → Prop} (cs : List Char)
    (last : ∀ cs, firstPlaceholder cs = none → P cs)
    (first : ∀ cs p, firstPlaceholder cs = some p → P p.after → P cs) : P cs := by
  induction cs using segmentsOf.induct with
  | case1 cs hnone => exact last cs hnone
  | case2 cs p hp ih => exact first cs p hp ih

theorem flatMap_segmentsOf (cs : List Char) :
    (segmentsOf cs).flatMap (fun s => s.source.toList) = cs := by
  induction cs using segmentsOf_induction with
  | last cs hnone => rw [segmentsOf_of_none hnone, flatMap_literalSegment]
  | first cs p hp ih =>
    rw [segmentsOf_of_some hp, List.flatMap_append, List.flatMap_cons, flatMap_literalSegment, ih]
    conv_rhs => rw [firstPlaceholder_eq hp]
    simp [Segment.source]

theorem source_segmentsOf (cs : List Char) : Template.source (segmentsOf cs) = String.ofList cs := by
  rw [← String.toList_inj, Template.source, String.toList_join, List.flatMap_map, String.toList_ofList]
  exact flatMap_segmentsOf cs

/-- A segment is a text without placeholders or a name, and neither is empty. -/
theorem mem_segmentsOf (h : s ∈ segmentsOf cs) :
    s.text ≠ "" ∧ (s.IsLiteral → firstPlaceholder s.text.toList = none) := by
  have hliteral : ∀ {ds : List Char}, firstPlaceholder ds = none → s ∈ literalSegment ds →
      s.text ≠ "" ∧ (s.IsLiteral → firstPlaceholder s.text.toList = none) := by
    intro ds hnone hs
    obtain ⟨hne, rfl⟩ := mem_literalSegment.mp hs
    refine ⟨ofList_ne_empty hne, fun _ => ?_⟩
    rwa [Segment.text, String.toList_ofList]
  induction cs using segmentsOf_induction with
  | last cs hnone => exact hliteral hnone (segmentsOf_of_none hnone ▸ h)
  | first cs p hp ih =>
    rw [segmentsOf_of_some hp] at h
    rcases List.mem_append.mp h with h | h
    · exact hliteral (firstPlaceholder_before hp) h
    · rcases List.mem_cons.mp h with rfl | h
      · exact ⟨ofList_ne_empty (firstPlaceholder_name_ne_nil hp), nofun⟩
      · exact ih h

theorem apart_parameter (cs : List Char) (name : String) (h : t.IsChain Segment.MayMeet) :
    (literalSegment cs ++ .parameter name :: t).IsChain Segment.MayMeet := by
  have hparameter : (Segment.parameter name :: t).IsChain Segment.MayMeet := by
    refine List.isChain_cons.mpr ⟨fun _ _ both => ?_, h⟩
    cases both.1
  cases cs with
  | nil => exact hparameter
  | cons c rest =>
    refine List.isChain_cons_cons.mpr ⟨fun both => ?_, hparameter⟩
    cases both.2

theorem apart_segmentsOf (cs : List Char) : (segmentsOf cs).IsChain Segment.MayMeet := by
  induction cs using segmentsOf_induction with
  | last cs hnone =>
    rw [segmentsOf_of_none hnone]
    cases cs with
    | nil => exact .nil
    | cons c rest => exact .singleton _
  | first cs p hp ih =>
    rw [segmentsOf_of_some hp]
    exact apart_parameter p.before _ ih

/-- Reading a path splits it: nothing is lost, no segment is empty, and every literal text is as long as it can
be and is read as itself. -/
theorem Template.ofPath_splits (path : String) : (Template.ofPath path).Splits path where
  source_eq := by rw [ofPath, source_segmentsOf, String.ofList_toList]
  text_ne := fun _ hs => (mem_segmentsOf hs).1
  apart := apart_segmentsOf path.toList
  again := by
    intro text htext
    obtain ⟨hne, hplain⟩ := mem_segmentsOf htext
    have hnone : firstPlaceholder text.toList = none := hplain (.intro text)
    rw [ofPath, segmentsOf_of_none hnone, literalSegment, if_neg, String.ofList_toList]
    rw [List.isEmpty_iff]
    exact fun hnil => hne (String.toList_eq_nil_iff.mp hnil)

/-- A name has a first character, so it goes on behind a closing brace that follows the opening one. -/
example : Template.ofPath "/\x7b\x7d/\x7bid\x7d/\x7b" =
    [.literal "/", .parameter "\x7d/\x7bid", .literal "/\x7b"] := by
  decide +kernel

end OpenApi.Url
