import OpenApi.Operation
import OpenApi.Proofs.Naming.CamelCase
import OpenApi.Proofs.Naming.Usable
import OpenApi.Proofs.Schema.Related
import OpenApi.Proofs.Text.LetterCase
/-! # Names of operations

Every operation has a name that can be used in a call. Where the name is made of an identifier this is
checked. A name that is made of a verb and a path begins with the letters of the verb, and no keyword
does. -/
namespace OpenApi

namespace Verb

/-- Every letter of a verb is one that no character beyond ASCII has as its lower case. -/
theorem name_letters (v : Verb) : ∀ c ∈ v.name.toList, c.isLower = true ∧ c ≠ 'k' := by
  have hall : v.name.toList.all (fun c => c.isLower && c != 'k') = true := by cases v <;> rfl
  simpa [List.all_eq_true] using hall

variable {key : String} {v : Verb} (h : ofKey? key = some v)

include h

theorem lower_of_ofKey? : Text.lowerBehind [] key.toList = v.name.toList := by
  have hname := List.find?_some (show all.find? (fun v => v.name == Text.lower key) = some v from h)
  rw [eq_of_beq hname, Text.lower, String.toList_ofList]

theorem toNat_lt_of_ofKey? : ∀ c ∈ key.toList, c.toNat < 0x80 := by
  apply Text.toNat_lt_of_lowerBehind
  rw [lower_of_ofKey? h]
  exact name_letters v

theorem small_of_ofKey? : Naming.small key.toList = v.name.toList := by
  rw [← lower_of_ofKey? h, Text.lowerBehind_of_ascii (toNat_lt_of_ofKey? h), Naming.small]

theorem alphanumeric_of_ofKey? : Naming.Alphanumeric key.toList := by
  intro c hc
  have hname : c.toLower ∈ v.name.toList := small_of_ofKey? h ▸ List.mem_map_of_mem hc
  have hletter : c.isAlpha = true := by
    rw [← Char.isLower_toLower_eq_isAlpha]
    exact (name_letters v _ hname).1
  rw [Char.isAlphanum, hletter, Bool.true_or]

end Verb

namespace Naming

structure IsWord (name : String) : Prop where
  letters : Alphanumeric name.toList
  first : ∃ c ∈ name.toList.head?, c.isAlpha = true
  usable : isUsable name = true

theorem isIdentifier_iff_first {name : String} (h : Alphanumeric name.toList) :
    Text.isIdentifier name = true ↔ ∃ c ∈ name.toList.head?, c.isAlpha = true := by
  unfold Text.isIdentifier
  cases hcs : name.toList with
  | nil => simp
  | cons c rest =>
    rw [hcs] at h
    obtain ⟨hc, hrest⟩ := List.forall_mem_cons.mp h
    have hascii : c.toNat < 0x80 := Nat.lt_trans (Text.toNat_lt_of_isAlphanum hc) (by decide)
    have hmark : c ≠ '_' := by
      rintro rfl
      exact absurd hc (by decide)
    have hstart : Text.isIdentifierStart c = c.isAlpha := by
      rw [Text.isIdentifierStart, if_pos hascii]
      simp [hmark]
    have hall : rest.all Text.isIdentifierContinue = true :=
      List.all_eq_true.mpr fun d hd => Text.isIdentifierContinue_of_isAlphanum (hrest d hd)
    simp [hstart, hall]

theorem isWord_of_identifier {id name : String} (h : identifierName? id = some name) :
    IsWord name := by
  simp only [identifierName?, Option.ite_none_left_eq_some, Option.ite_none_right_eq_some,
    Option.some.injEq] at h
  obtain ⟨-, -, husable, rfl⟩ := h
  have hletters := alphanumeric_camelCase (String.ofList (dropScope id.toList))
  have hidentifier := (Bool.and_eq_true_iff.mp husable).1
  exact ⟨hletters, (isIdentifier_iff_first hletters).mp hidentifier, husable⟩

/-- No keyword begins with a verb, in whatever letter case. -/
theorem not_isKeyword_of_verb {name : String} {v : Verb} {rest : List Char}
    (h : small name.toList = v.name.toList ++ rest) : isKeyword name = false := by
  have hnone : ∀ word ∈ keywords, v.name.toList.isPrefixOf (small word.toList) = false := by
    cases v <;> decide
  rw [isKeyword, ← Bool.not_eq_true, List.contains_iff_mem]
  intro hm
  have hprefix : v.name.toList.isPrefixOf (small name.toList) = true := by
    rw [h, List.isPrefixOf_iff_prefix]
    exact List.prefix_append _ _
  rw [hnone name hm] at hprefix
  cases hprefix

theorem isWord_of_verb {name : String} (hletters : Alphanumeric name.toList) {v : Verb} {rest : List Char}
    (h : small name.toList = v.name.toList ++ rest) : IsWord name := by
  have hne : v.name.toList ≠ [] := by cases v <;> decide
  have hfirst : ∃ c ∈ name.toList.head?, c.isAlpha = true := by
    cases hcs : name.toList with
    | nil =>
      rw [hcs] at h
      exact absurd (List.append_eq_nil_iff.mp h.symm).1 hne
    | cons c cs =>
      refine ⟨c, rfl, ?_⟩
      rw [← Char.isLower_toLower_eq_isAlpha]
      refine (v.name_letters c.toLower ?_).1
      obtain ⟨d, ds, hd⟩ := List.exists_cons_of_ne_nil hne
      rw [hcs, hd] at h
      rw [hd, (List.cons.inj h).1]
      exact List.mem_cons_self
  refine ⟨hletters, hfirst, ?_⟩
  rw [isUsable, (isIdentifier_iff_first hletters).mpr hfirst, not_isKeyword_of_verb h]
  rfl

theorem isWord_pathName {verb : String} {v : Verb} (h : Verb.ofKey? verb = some v) (path : String) :
    IsWord (pathName verb path) := by
  have hverb : verb.toList.filter Char.isAlphanum = verb.toList :=
    List.filter_eq_self.mpr (Verb.alphanumeric_of_ofKey? h)
  have hname : verb.toList.map Char.toLower = v.name.toList := Verb.small_of_ofKey? h
  have hsmall : ∃ rest, small (pathName verb path).toList = v.name.toList ++ rest := by
    rw [pathName, small_camelCase, String.toList_append, String.toList_append, List.filter_append,
      List.filter_append, hverb, small, List.map_append, List.map_append, List.append_assoc, hname]
    exact ⟨_, rfl⟩
  obtain ⟨rest, hrest⟩ := hsmall
  exact isWord_of_verb (alphanumeric_camelCase _) hrest

/-- Whatever the path and the identifier are, an operation of a verb has a name that can be used. -/
theorem isWord_operationName {verb : String} {v : Verb} (h : Verb.ofKey? verb = some v) (path : String)
    (id : Option String) : IsWord (operationName verb path id) := by
  cases hid : id.bind identifierName? with
  | some name =>
    rw [operationName, hid]
    obtain ⟨given, -, hname⟩ := Option.bind_eq_some_iff.mp hid
    exact isWord_of_identifier hname
  | none =>
    rw [operationName, hid]
    exact isWord_pathName h path

theorem isWord_operationName_import : Verb.ofKey? "dELETE" = some .delete ∧
    operationName "dELETE" "/pets/\x7bclass\x7d" (some "pets_import") = "dEletePetsByClass" ∧
    IsWord (operationName "dELETE" "/pets/\x7bclass\x7d" (some "pets_import")) := by
  have hverb : Verb.ofKey? "dELETE" = some .delete := by decide +kernel
  have hname : operationName "dELETE" "/pets/\x7bclass\x7d" (some "pets_import") =
      "dEletePetsByClass" := by decide +kernel
  exact ⟨hverb, hname, isWord_operationName hverb _ _⟩

end Naming

namespace Operation.Declared

theorem name_cases {d : Declared} {name : String} (h : d.name = .ok name) :
    (∃ id, Naming.identifierName? id = some name) ∨ ∃ path, Naming.pathName d.key path = name := by
  have hpath : (d.pathText >>= fun path => Except.ok (Naming.pathName d.key path)) = .ok name →
      ∃ path, Naming.pathName d.key path = name := by
    intro hmade
    obtain ⟨path, -, hmade⟩ := bind_eq_ok.mp hmade
    exact ⟨path, Except.ok.inj hmade⟩
  unfold Declared.name at h
  dsimp only at h
  split at h
  · split at h
    · next id _ =>
      cases hid : Naming.identifierName? id with
      | none =>
        rw [hid] at h
        exact .inr (hpath h)
      | some given =>
        rw [hid] at h
        exact .inl ⟨id, Except.ok.inj h ▸ hid⟩
    · cases h
  · exact .inr (hpath h)

theorem isWord_name {d : Declared} (hverb : Verb.ofKey? d.key = some d.verb) {name : String}
    (h : d.name = .ok name) : Naming.IsWord name := by
  rcases name_cases h with ⟨id, hid⟩ | ⟨path, rfl⟩
  · exact Naming.isWord_of_identifier hid
  · exact Naming.isWord_pathName hverb path

end Operation.Declared

end OpenApi
