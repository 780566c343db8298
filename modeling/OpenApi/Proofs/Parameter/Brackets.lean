import OpenApi.Parameter.Brackets
import OpenApi.Proofs.Query.Deep
/-! # Names with a property in brackets

A name is split at its first opening bracket that is not its first character, and at the first closing one
behind that, if no line ends before. What stands behind the closing bracket is no part of the property, and
nested in the object the property has the name without it. -/
namespace OpenApi

namespace Query

def keyOf (field : String) : String :=
  Text.decodePercent (String.ofList (field.toList.takeWhile (· != '=')))

theorem keyOf_deep (object property s : String) :
    keyOf (deep [(.str object, .dict [(.str property, .str s)])]) = object ++ "[" ++ property ++ "]" := by
  have hfield : deep [(.str object, .dict [(.str property, .str s)])] =
      leafField ([object, property], s) := by
    simp [deep, deepBelow, leaves, leaves.leavesOf, leafField, Key.text, Value.wireText, Value.text, joined]
  have hmark : '=' ∉ (pathKey [object, property]).toList := by
    intro hc
    rcases mem_pathKey hc with h | h | h
    all_goals exact absurd h (by decide)
  have hkey : (leafField ([object, property], s)).toList.takeWhile (· != '=') =
      (pathKey [object, property]).toList := by
    rw [toList_leafField]
    exact (cut_at_mark hmark _).1
  have hwrites : Text.Writes (object ++ "[" ++ property ++ "]").toList (pathKey [object, property]).toList := by
    rw [toList_pathKey, toList_bracketed_cons]
    simp only [String.toList_append, List.append_assoc]
    exact (Text.writes_encodeComponent object).append (.plain (by decide)
      ((Text.writes_encodeComponent property).append (.plain (by decide) .nil)))
  rw [hfield, keyOf, hkey]
  exact Text.decodePercent_of_writes hwrites

end Query

namespace Parameter

/-- The name is that of a property of an object, with more text behind it. -/
structure Splits (name object property rest : String) : Prop where
  text : name = object ++ "[" ++ property ++ "]" ++ rest
  object_ne : object ≠ ""
  opens : '[' ∉ object.toList.tail
  closes : ']' ∉ property.toList
  line : '\n' ∉ object.toList ∧ '\n' ∉ property.toList

theorem Splits.rest_eq_empty {name object property rest : String} (h : Splits name object property rest)
    (hname : name = object ++ "[" ++ property ++ "]") : rest = "" := by
  rw [h.text] at hname
  exact String.append_eq_left_iff.mp hname

theorem bracketed_append {property : List Char} (hclose : ']' ∉ property) (hline : '\n' ∉ property)
    (rest : List Char) : bracketed (property ++ ']' :: rest) = some property := by
  induction property with
  | nil => rfl
  | cons c property ih =>
    obtain ⟨hc, hclose⟩ := not_or.mp (List.mem_cons.not.mp hclose)
    obtain ⟨hn, hline⟩ := not_or.mp (List.mem_cons.not.mp hline)
    have hc : ¬ (c == ']') = true := by simpa using Ne.symm hc
    have hn : ¬ (c == '\n') = true := by simpa using Ne.symm hn
    rw [List.cons_append, bracketed, if_neg hc, if_neg hn, ih hclose hline]
    rfl

theorem eq_of_bracketed {cs property : List Char} (h : bracketed cs = some property) :
    ']' ∉ property ∧ '\n' ∉ property ∧ ∃ rest, cs = property ++ ']' :: rest := by
  induction cs generalizing property with
  | nil => cases h
  | cons c cs ih =>
    rw [bracketed] at h
    split at h
    · next hclose =>
      cases h
      exact ⟨List.not_mem_nil, List.not_mem_nil, cs, by rw [eq_of_beq hclose, List.nil_append]⟩
    · next hclose =>
      split at h
      · cases h
      · next hline =>
        obtain ⟨part, hpart, rfl⟩ := Option.map_eq_some_iff.mp h
        obtain ⟨hno, hnone, rest, rfl⟩ := ih hpart
        simp only [beq_iff_eq] at hclose hline
        refine ⟨?_, ?_, rest, rfl⟩
        · exact List.mem_cons.not.mpr (not_or.mpr ⟨Ne.symm hclose, hno⟩)
        · exact List.mem_cons.not.mpr (not_or.mpr ⟨Ne.symm hline, hnone⟩)

theorem propertyBehind_append {object property : List Char} (hopen : '[' ∉ object) (hline : '\n' ∉ object)
    {cs : List Char} (h : bracketed cs = some property) :
    propertyBehind (object ++ '[' :: cs) = some (object, property) := by
  induction object with
  | nil =>
    rw [List.nil_append, propertyBehind, if_pos (by decide), h]
    rfl
  | cons c object ih =>
    obtain ⟨hc, hopen⟩ := not_or.mp (List.mem_cons.not.mp hopen)
    obtain ⟨hn, hline⟩ := not_or.mp (List.mem_cons.not.mp hline)
    have hc : ¬ (c == '[') = true := by simpa using Ne.symm hc
    have hn : ¬ (c == '\n') = true := by simpa using Ne.symm hn
    rw [List.cons_append, propertyBehind, if_neg hc, if_neg hn, ih hopen hline]
    rfl

theorem eq_of_propertyBehind {cs object property : List Char}
    (h : propertyBehind cs = some (object, property)) :
    '[' ∉ object ∧ '\n' ∉ object ∧ ∃ rest, cs = object ++ '[' :: rest ∧ bracketed rest = some property := by
  induction cs generalizing object with
  | nil => cases h
  | cons c cs ih =>
    rw [propertyBehind] at h
    split at h
    · next hopen =>
      obtain ⟨part, hpart, he⟩ := Option.map_eq_some_iff.mp h
      cases he
      exact ⟨List.not_mem_nil, List.not_mem_nil, cs, by rw [eq_of_beq hopen, List.nil_append], hpart⟩
    · next hopen =>
      split at h
      · cases h
      · next hline =>
        obtain ⟨⟨part, inside⟩, hpart, he⟩ := Option.map_eq_some_iff.mp h
        cases he
        obtain ⟨hno, hnone, rest, rfl, hrest⟩ := ih hpart
        simp only [beq_iff_eq] at hopen hline
        refine ⟨?_, ?_, rest, rfl, hrest⟩
        · exact List.mem_cons.not.mpr (not_or.mpr ⟨Ne.symm hopen, hno⟩)
        · exact List.mem_cons.not.mpr (not_or.mpr ⟨Ne.symm hline, hnone⟩)

theorem property?_eq_some_iff {name object property : String} :
    property? name = some (object, property) ↔ ∃ rest, Splits name object property rest := by
  unfold property?
  constructor
  · intro h
    split at h
    · cases h
    · next c cs htext =>
      split at h
      · cases h
      · next hline =>
        obtain ⟨⟨part, inside⟩, hpart, he⟩ := Option.map_eq_some_iff.mp h
        cases he
        obtain ⟨hopen, hobject, behind, rfl, hbehind⟩ := eq_of_propertyBehind hpart
        obtain ⟨hclose, hproperty, rest, rfl⟩ := eq_of_bracketed hbehind
        simp only [beq_iff_eq] at hline
        refine ⟨String.ofList rest, ?_, ?_, ?_, ?_, ?_, ?_⟩
        · rw [← String.toList_inj, htext]
          simp
        · simp [String.ext_iff]
        · simpa using hopen
        · simpa using hclose
        · simpa using ⟨Ne.symm hline, hobject⟩
        · simpa using hproperty
  · rintro ⟨rest, rfl, hne, hopen, hclose, hobject, hproperty⟩
    obtain ⟨c, part, hpart⟩ := List.exists_cons_of_ne_nil (mt String.toList_eq_nil_iff.mp hne)
    rw [hpart] at hobject
    rw [hpart, List.tail_cons] at hopen
    obtain ⟨hc, hobject⟩ := not_or.mp (List.mem_cons.not.mp hobject)
    have hc : ¬ (c == '\n') = true := by simpa using Ne.symm hc
    have htext : (object ++ "[" ++ property ++ "]" ++ rest).toList =
        c :: (part ++ '[' :: (property.toList ++ ']' :: rest.toList)) := by
      simp [String.toList_append, hpart]
    have hbehind := propertyBehind_append hopen hobject (bracketed_append hclose hproperty rest.toList)
    have hsame : String.ofList (c :: part) = object := by rw [← hpart, String.ofList_toList]
    rw [htext]
    simp only [if_neg hc, hbehind, Option.map_some, hsame, String.ofList_toList]

end Parameter

end OpenApi
