import OpenApi.Proofs.Entries
import OpenApi.Proofs.Schema.Regular
/-! # Open objects

A node that declares properties and admits more of them is understood as an object, whose properties
are marked if they are not required, with a schema for the additional ones. It compiles to an interface
for what is declared and a record for all that is there. -/
namespace OpenApi

/-- No keyword before the properties counts, some properties are declared, and more are admitted. -/
structure OpenObject (es properties : Entries Key Value) (additional : Value) : Prop where
  bare : ∀ keyword ∈ ["$ref", "oneOf", "anyOf", "allOf", "items"], es.get? (.str keyword) = none
  declared : es.get? (.str "properties") = some (.dict properties)
  nonempty : properties ≠ []
  admitted : es.get? (.str "additionalProperties") = some additional
  open_ended : additional = .bool true ∨ ∃ fields, additional = .dict fields

namespace Schema

theorem facets_eq (es : Entries Key Value) : facet.facets es = es.mapValues facet := by
  induction es with
  | nil => rfl
  | cons e rest ih => exact congrArg ((e.1, facet e.2) :: ·) ih

theorem fields_facet (properties : Entries Key Value) :
    (facet (.dict properties)).fields = properties.mapValues ofValue := by
  show (facet.facets properties).map _ = _
  rw [facets_eq, Entries.mapValues, List.map_map]
  rfl

section Nodes

variable {es : Entries Key Value} {keyword : String}

theorem given_eq_none (h : es.get? (.str keyword) = none) :
    Node.given? (facet.facets es) keyword = none := by
  rw [Node.given?, facets_eq, Entries.get?_mapValues, h]
  rfl

theorem given_eq_some {v : Value} (h : es.get? (.str keyword) = some v) (hv : v.kind ≠ .null) :
    Node.given? (facet.facets es) keyword = some (facet v) := by
  rw [Node.given?, facets_eq, Entries.get?_mapValues, h]
  simpa [Option.filter, facet_value] using hv

theorem value_facets (es : Entries Key Value) (keyword : String) :
    Node.value (facet.facets es) keyword = Value.getD es keyword := by
  rw [Node.value, facets_eq, Entries.get?_mapValues, Value.getD]
  cases es.get? (.str keyword) with
  | none => rfl
  | some v => exact facet_value v

end Nodes

end Schema

namespace OpenObject

open Schema

variable {es properties : Entries Key Value} {additional : Value}

theorem additionalOf_eq (h : OpenObject es properties additional) :
    additionalOf (facet.facets es) = some (ofValue additional) := by
  unfold additionalOf
  rcases h.open_ended with rfl | ⟨fields, rfl⟩
  · rw [given_eq_some h.admitted nofun]
    rfl
  · rw [given_eq_some h.admitted nofun]
    rfl

theorem rule_eq (h : OpenObject es properties additional) :
    rule (facet.facets es) = objectOf (facet.facets es) (some (ofValue additional)) := by
  have hbare := h.bare
  simp only [List.forall_mem_cons] at hbare
  obtain ⟨href, hone, hany, hall, hitems, -⟩ := hbare
  have hmissing : ∀ {keyword : String}, es.get? (.str keyword) = none →
      Entries.get? (facet.facets es) (.str keyword) = none := by
    intro keyword hk
    rw [facets_eq, Entries.get?_mapValues, hk]
    rfl
  rw [rule, hmissing href, given_eq_none hone, given_eq_none hany, given_eq_none hall, hmissing hitems,
    h.additionalOf_eq]
  simp

theorem objectOf_eq (h : OpenObject es properties additional) (a : Option Schema) :
    objectOf (facet.facets es) a = match requiredKeys? (Value.getD es "required") with
      | none => .malformed
      | some required => .object (marked required (properties.mapValues ofValue)) a := by
  have hprops : Entries.get? (facet.facets es) (.str "properties") = some (facet (.dict properties)) := by
    rw [facets_eq, Entries.get?_mapValues, h.declared]
    rfl
  have htruthy : (Value.dict properties).isTruthy = true := by
    cases hp : properties with
    | nil => exact absurd hp h.nonempty
    | cons => rfl
  rw [objectOf, value_facets, hprops]
  cases requiredKeys? (Value.getD es "required") with
  | none => rfl
  | some required =>
    simp only [facet_value, htruthy, if_true, fields_facet]
    rfl

end OpenObject

end OpenApi
