import OpenApi.Proofs.Codec.Spelling
import OpenApi.Proofs.Schema.Regular
/-! # Plain codecs and flat codecs

A codec that a node compiles to is plain: only a field may be missing, no literal is null, and a
model is the answer to its reference. It is flat if no `maybe` stands directly in another one. The
spelling of a codec gets shorter when it is made flat. -/
namespace OpenApi

namespace Codec

inductive Plain (answer : String → Except Fault Codec) : Codec → Prop where
  | unknown : Plain answer .unknown
  | string : Plain answer .string
  | number : Plain answer .number
  | boolean : Plain answer .boolean
  | null : Plain answer .null
  | date : Plain answer .date
  | exactly {v : Value} (h : v.kind ≠ .null) : Plain answer (.exactly v)
  | array {c : Codec} (h : Plain answer c) : Plain answer (.array c)
  | maybe {c : Codec} (h : Plain answer c) : Plain answer (.maybe c)
  | interface {fields : List (Key × Codec)} (hf : ∀ f ∈ fields, Plain answer f.2.present)
      (hu : Uniform isRequired fields) : Plain answer (.interface fields)
  | record {c : Codec} (h : Plain answer c) : Plain answer (.record c)
  | oneOf {members : List Codec} (h : ∀ c ∈ members, Plain answer c) :
      Plain answer (.oneOf members)
  | intersect {c d : Codec} (h : Plain answer c) (k : Plain answer d) :
      Plain answer (.intersect c d)
  | model {name ref : String} {target : Option Codec}
      (h : answer ref = .ok (.model name ref target)) : Plain answer (.model name ref target)

variable {answer : String → Except Fault Codec} {c d : Codec}

theorem closed_plain (answer : String → Except Fault Codec) : Closed (Plain answer) where
  required h := by cases h <;> rfl
  unknown := .unknown
  string := .string
  number := .number
  boolean := .boolean
  null := .null
  date := .date
  exactly := .exactly
  array := .array
  maybe := .maybe
  interface := .interface
  record := .record
  oneOf := .oneOf
  intersect := .intersect

/-- Every `maybe` that stands directly in another one is left out. -/
def flat : Codec → Codec
  | array item => .array (flat item)
  | optional inner => .optional (flat inner)
  | maybe inner =>
    match flat inner with
    | maybe c => .maybe c
    | c => .maybe c
  | interface fields => .interface (flatFields fields)
  | record item => .record (flat item)
  | oneOf members => .oneOf (flatAll members)
  | intersect left right => .intersect (flat left) (flat right)
  | c => c
where
  flatAll : List Codec → List Codec
    | [] => []
    | c :: rest => flat c :: flatAll rest
  flatFields : List (Key × Codec) → List (Key × Codec)
    | [] => []
    | (k, c) :: rest => (k, flat c) :: flatFields rest

theorem flatAll_eq (members : List Codec) : flat.flatAll members = members.map flat := by
  induction members with
  | nil => rfl
  | cons c rest ih => rw [flat.flatAll, ih, List.map_cons]

theorem flatFields_eq (fields : List (Key × Codec)) :
    flat.flatFields fields = fields.map fun f => (f.1, f.2.flat) := by
  induction fields with
  | nil => rfl
  | cons f rest ih =>
    obtain ⟨k, c⟩ := f
    rw [flat.flatFields, ih, List.map_cons]

def isMaybe : Codec → Bool
  | maybe _ => true
  | _ => false

/-- What is accepted apart from null, if null is admitted by a `maybe`. -/
def given : Codec → Codec
  | maybe c => c
  | c => c

theorem flat_maybe (c : Codec) : (maybe c).flat = .maybe c.flat.given := by
  rw [flat]
  cases c.flat <;> rfl

theorem isMaybe_flat (c : Codec) : c.flat.isMaybe = c.isMaybe := by
  cases c with
  | maybe c =>
    rw [flat_maybe]
    rfl
  | _ => rfl

theorem given_of_not_isMaybe (h : c.isMaybe = false) : c.given = c := by
  cases c with
  | maybe c => cases h
  | _ => rfl

theorem isMaybe_given_flat (c : Codec) : c.flat.given.isMaybe = false := by
  induction c with
  | maybe c ih =>
    rw [flat_maybe]
    exact ih
  | _ => rfl

theorem given_flat_eq_iff : c.flat.given = c ↔ c.isMaybe = false ∧ c.flat = c := by
  constructor
  · intro h
    have hm : c.isMaybe = false := by
      rw [← h]
      exact isMaybe_given_flat c
    rw [given_of_not_isMaybe ((isMaybe_flat c).trans hm)] at h
    exact ⟨hm, h⟩
  · rintro ⟨hm, h⟩
    rw [h]
    exact given_of_not_isMaybe hm

section Spelling

theorem joined_length (separator : String) (parts : List String) :
    (joined separator parts).length =
      (parts.map String.length).sum + (parts.length - 1) * separator.length := by
  unfold joined
  induction parts with
  | nil => simp [String.intercalate_nil]
  | cons p rest ih =>
    cases rest with
    | nil => simp [String.intercalate_singleton]
    | cons q rest =>
      rw [String.intercalate_cons_cons, String.length_append, String.length_append, ih]
      simp only [List.map_cons, List.sum_cons, List.length_cons, Nat.add_sub_cancel, Nat.add_mul,
        Nat.one_mul]
      omega

theorem map_eq_or_joined_lt {α : Type} {f : α → α} {text : α → String} {l : List α}
    (h : ∀ a ∈ l, f a = a ∨ (text (f a)).length < (text a).length) (separator : String) :
    l.map f = l ∨
      (joined separator ((l.map f).map text)).length < (joined separator (l.map text)).length := by
  have hsum : l.map f = l ∨ (((l.map f).map text).map String.length).sum <
      ((l.map text).map String.length).sum := by
    induction l with
    | nil => exact Or.inl rfl
    | cons a rest ih =>
      obtain ⟨ha, hrest⟩ := List.forall_mem_cons.mp h
      simp only [List.map_cons, List.sum_cons]
      rcases ha with ha | ha <;> rcases ih hrest with hr | hr
      · exact Or.inl (by rw [ha, hr])
      · rw [ha]
        exact Or.inr (by omega)
      · rw [hr]
        exact Or.inr (by omega)
      · exact Or.inr (by omega)
  refine hsum.imp_right fun hlt => ?_
  rw [joined_length, joined_length]
  simp only [List.length_map]
  omega

theorem isRequired_flat (c : Codec) : c.flat.isRequired = c.isRequired := by
  cases c with
  | maybe c =>
    rw [flat_maybe]
    rfl
  | _ => rfl

theorem fieldSpelling_of_required {k : Key} (h : c.isRequired = true) :
    fieldSpelling (k, c) = k.text ++ ": " ++ c.spelling := by
  cases c with
  | optional c => cases h
  | _ => rfl

theorem fieldSpelling_lt {k : Key} (h : c.flat.spelling.length < c.spelling.length) :
    (fieldSpelling (k, c.flat)).length < (fieldSpelling (k, c)).length := by
  cases hreq : c.isRequired with
  | true =>
    rw [fieldSpelling_of_required ((isRequired_flat c).trans hreq), fieldSpelling_of_required hreq]
    simp only [String.length_append]
    omega
  | false =>
    cases c with
    | optional inner =>
      rw [flat, spelling_optional, spelling_optional] at h
      rw [flat, fieldSpelling, fieldSpelling]
      simp only [String.length_append] at h ⊢
      omega
    | _ => cases hreq

/-- A codec is flat, or its spelling gets shorter. -/
theorem flat_eq_or_shorter (c : Codec) :
    c.flat = c ∨ c.flat.spelling.length < c.spelling.length := by
  induction c with
  | unknown | string | number | boolean | null | date | exactly | model => exact Or.inl rfl
  | array item ih | record item ih | optional item ih =>
    rw [flat]
    rcases ih with ih | ih
    · exact Or.inl (by rw [ih])
    · refine Or.inr ?_
      simp only [spelling_array, spelling_record, spelling_optional, String.length_append]
      omega
  | maybe inner ih =>
    rw [flat_maybe]
    cases hm : inner.isMaybe with
    | true =>
      have hflat : Codec.maybe inner.flat.given = inner.flat := by
        cases inner with
        | maybe b =>
          rw [flat_maybe]
          rfl
        | _ => cases hm
      rw [hflat, spelling_maybe, String.length_append, String.length_append]
      have hpos : 0 < "maybe(".length := by decide
      refine Or.inr ?_
      rcases ih with ih | ih
      · rw [ih]
        omega
      · omega
    | false =>
      rw [given_of_not_isMaybe ((isMaybe_flat inner).trans hm)]
      rcases ih with ih | ih
      · exact Or.inl (by rw [ih])
      · refine Or.inr ?_
        simp only [spelling_maybe, String.length_append]
        omega
  | interface fields ih =>
    have hall : ∀ f ∈ fields, (f.1, f.2.flat) = f ∨
        (fieldSpelling (f.1, f.2.flat)).length < (fieldSpelling f).length :=
      fun f hf => (ih f hf).imp (fun h => Prod.ext rfl h) fieldSpelling_lt
    rw [flat, flatFields_eq]
    simp only [spelling_interface, String.length_append]
    rcases map_eq_or_joined_lt hall ", " with h | h
    · exact Or.inl (by rw [h])
    · exact Or.inr (by omega)
  | oneOf members ih =>
    rw [flat, flatAll_eq]
    simp only [spelling_oneOf, String.length_append]
    rcases map_eq_or_joined_lt ih ", " with h | h
    · exact Or.inl (by rw [h])
    · exact Or.inr (by omega)
  | intersect left right ihl ihr =>
    rw [flat]
    simp only [spelling_intersect, String.length_append]
    rcases ihl with hl | hl <;> rcases ihr with hr | hr
    · exact Or.inl (by rw [hl, hr])
    · rw [hl]
      exact Or.inr (by omega)
    · rw [hr]
      exact Or.inr (by omega)
    · exact Or.inr (by omega)

theorem spelling_flat_iff (c : Codec) : c.flat.spelling = c.spelling ↔ c.flat = c := by
  constructor
  · intro h
    rcases flat_eq_or_shorter c with hc | hc
    · exact hc
    · rw [h] at hc
      exact absurd hc (Nat.lt_irrefl _)
  · intro h
    rw [h]

theorem describe_flat_iff {text : String} (h : c.describe = .ok text) :
    c.flat.describe = .ok text ↔ c.flat = c := by
  constructor
  · intro hflat
    rw [← spelling_flat_iff, spelling_of_describe h, spelling_of_describe hflat]
  · intro hflat
    rw [hflat, h]

end Spelling

end Codec

end OpenApi
