import OpenApi.Codec
import OpenApi.Proofs.Schema.Related
/-! # The spelling of codecs

Every codec has a spelling, which is its notation if it has one. Codecs without a notation are those with a
literal or a name that cannot be written. -/
namespace OpenApi

/-- The text of a literal. An integer is spelled whatever its length, and what JSON does not have is blank. -/
def literalSpelling : Value → String
  | .int n => toString n
  | v => (Json.write v).toOption.getD ""

theorem literalSpelling_of_write {v : Value} {text : String} (h : Json.write v = .ok text) :
    literalSpelling v = text := by
  cases v with
  | int n =>
    rw [Json.write, Json.render, Json.Policy.strict] at h
    dsimp only at h
    split at h
    · exact Except.ok.inj h
    · cases h
  | _ => simp only [literalSpelling, h, Except.toOption, Option.getD_some]

namespace Codec

def spelling : Codec → String
  | unknown => "unknown"
  | string => "string"
  | number => "number"
  | boolean => "boolean"
  | null => "nullType"
  | date => "date"
  | exactly v => "exactly(" ++ literalSpelling v ++ ")"
  | array item => "array(" ++ spelling item ++ ")"
  | optional inner => "optional(" ++ spelling inner ++ ")"
  | maybe inner => "maybe(" ++ spelling inner ++ ")"
  | interface fields => "interface(\x7b" ++ joined ", " (spellFields fields) ++ "\x7d)"
  | record item => "record(string, " ++ spelling item ++ ")"
  | oneOf members => "oneOf([" ++ joined ", " (spellAll members) ++ "])"
  | intersect left right => "intersect(" ++ spelling left ++ ", " ++ spelling right ++ ")"
  | model name _ _ => "Models." ++ name
where
  spellAll : List Codec → List String
    | [] => []
    | c :: rest => spelling c :: spellAll rest
  spellFields : List (Key × Codec) → List String
    | [] => []
    | (k, optional inner) :: rest => (k.text ++ "?: " ++ spelling inner) :: spellFields rest
    | (k, c) :: rest => (k.text ++ ": " ++ spelling c) :: spellFields rest

theorem spelling_exactly (v : Value) : (exactly v).spelling = "exactly(" ++ literalSpelling v ++ ")" := rfl

theorem spelling_array (c : Codec) : (array c).spelling = "array(" ++ c.spelling ++ ")" := rfl

theorem spelling_optional (c : Codec) : (optional c).spelling = "optional(" ++ c.spelling ++ ")" :=
  rfl

theorem spelling_maybe (c : Codec) : (maybe c).spelling = "maybe(" ++ c.spelling ++ ")" := rfl

theorem spelling_record (c : Codec) :
    (record c).spelling = "record(string, " ++ c.spelling ++ ")" := rfl

theorem spelling_intersect (c d : Codec) :
    (intersect c d).spelling = "intersect(" ++ c.spelling ++ ", " ++ d.spelling ++ ")" := rfl

theorem spelling_model (name ref : String) (target : Option Codec) :
    (model name ref target).spelling = "Models." ++ name := rfl

theorem spellAll_eq (members : List Codec) :
    spelling.spellAll members = members.map spelling := by
  induction members with
  | nil => rfl
  | cons c rest ih =>
    rw [List.map_cons, ← ih]
    rfl

def fieldSpelling (f : Key × Codec) : String :=
  match f.2 with
  | optional inner => f.1.text ++ "?: " ++ inner.spelling
  | c => f.1.text ++ ": " ++ c.spelling

theorem spellFields_eq (fields : List (Key × Codec)) :
    spelling.spellFields fields = fields.map fieldSpelling := by
  induction fields with
  | nil => rfl
  | cons f rest ih =>
    obtain ⟨k, c⟩ := f
    rw [List.map_cons, ← ih]
    cases c <;> rfl

theorem spelling_interface (fields : List (Key × Codec)) :
    (interface fields).spelling =
      "interface(\x7b" ++ joined ", " (fields.map fieldSpelling) ++ "\x7d)" := by
  rw [← spellFields_eq]
  rfl

theorem spelling_oneOf (members : List Codec) :
    (oneOf members).spelling = "oneOf([" ++ joined ", " (members.map spelling) ++ "])" := by
  rw [← spellAll_eq]
  rfl

/-- The codec has a notation. -/
def Noted (c : Codec) : Prop := ∃ text, c.describe = .ok text

theorem key_of_writeText {k : Key} {text : String} (h : k.writeText = .ok text) : k.text = text := by
  unfold Key.writeText at h
  split at h
  · exact Except.ok.inj h
  · cases h

theorem spelling_inner {c : Codec} {text : String}
    (hc : ∀ text, (optional c).describe = .ok text → (optional c).spelling = text)
    (h : c.describe = .ok text) : c.spelling = text := by
  have hnoted : (optional c).describe = .ok ("optional(" ++ text ++ ")") := by
    rw [describe, h]
    rfl
  have hsame := hc _ hnoted
  rw [spelling_optional, String.append_left_inj, String.append_right_inj] at hsame
  exact hsame

theorem spellAll_of_describe {members : List Codec} {texts : List String}
    (hc : ∀ c ∈ members, ∀ text, c.describe = .ok text → c.spelling = text)
    (h : describe.describeAll members = .ok texts) : members.map spelling = texts := by
  induction members generalizing texts with
  | nil => exact Except.ok.inj h
  | cons c rest ih =>
    obtain ⟨hfirst, hrest⟩ := List.forall_mem_cons.mp hc
    rw [describe.describeAll] at h
    obtain ⟨text, htext, h⟩ := bind_eq_ok.mp h
    obtain ⟨more, hmore, h⟩ := bind_eq_ok.mp h
    rw [List.map_cons, hfirst text htext, ih hrest hmore]
    exact Except.ok.inj h

theorem spellFields_of_describe {fields : List (Key × Codec)} {texts : List String}
    (hc : ∀ f ∈ fields, ∀ text, f.2.describe = .ok text → f.2.spelling = text)
    (h : describe.describeFields fields = .ok texts) : fields.map fieldSpelling = texts := by
  induction fields generalizing texts with
  | nil => exact Except.ok.inj h
  | cons f rest ih =>
    obtain ⟨k, c⟩ := f
    obtain ⟨hfirst, hrest⟩ := List.forall_mem_cons.mp hc
    rw [describe.describeFields] at h
    obtain ⟨name, hname, h⟩ := bind_eq_ok.mp h
    obtain ⟨field, hfield, h⟩ := bind_eq_ok.mp h
    obtain ⟨more, hmore, h⟩ := bind_eq_ok.mp h
    rw [List.map_cons, ih hrest hmore]
    have hfield : fieldSpelling (k, c) = field := by
      cases c with
      | optional inner =>
        obtain ⟨text, htext, hfield⟩ := map_eq_ok.mp hfield
        simp only [fieldSpelling, key_of_writeText hname, spelling_inner hfirst htext]
        exact hfield
      | _ =>
        obtain ⟨text, htext, hfield⟩ := map_eq_ok.mp hfield
        simp only [fieldSpelling, key_of_writeText hname, hfirst text htext]
        exact hfield
    rw [hfield]
    exact Except.ok.inj h

theorem spelling_of_describe {c : Codec} {text : String} (h : c.describe = .ok text) :
    c.spelling = text := by
  induction c generalizing text with
  | unknown | string | number | boolean | null | date | model => exact Except.ok.inj h
  | exactly v =>
    obtain ⟨t, ht, h⟩ := bind_eq_ok.mp h
    rw [spelling, literalSpelling_of_write ht]
    exact Except.ok.inj h
  | array inner ih | optional inner ih | maybe inner ih | record inner ih =>
    obtain ⟨t, ht, h⟩ := bind_eq_ok.mp h
    rw [spelling, ih ht]
    exact Except.ok.inj h
  | interface fields ih =>
    obtain ⟨texts, htexts, h⟩ := bind_eq_ok.mp h
    rw [spelling_interface, spellFields_of_describe (fun f hf _ => ih f hf) htexts]
    exact Except.ok.inj h
  | oneOf members ih =>
    obtain ⟨texts, htexts, h⟩ := bind_eq_ok.mp h
    rw [spelling_oneOf, spellAll_of_describe (fun c hc _ => ih c hc) htexts]
    exact Except.ok.inj h
  | intersect left right ihl ihr =>
    obtain ⟨s, hs, h⟩ := bind_eq_ok.mp h
    obtain ⟨t, ht, h⟩ := bind_eq_ok.mp h
    rw [spelling, ihl hs, ihr ht]
    exact Except.ok.inj h

theorem Noted.describe_eq {c : Codec} (h : c.Noted) : c.describe = .ok c.spelling := by
  obtain ⟨text, htext⟩ := h
  rw [htext, spelling_of_describe htext]

/-- Codecs that have notations have the same one if they are spelled alike. -/
theorem describe_eq_iff {c d : Codec} (hc : c.Noted) (hd : d.Noted) :
    c.describe = d.describe ↔ c.spelling = d.spelling := by
  rw [hc.describe_eq, hd.describe_eq]
  exact ⟨Except.ok.inj, congrArg Except.ok⟩

end Codec

end OpenApi
