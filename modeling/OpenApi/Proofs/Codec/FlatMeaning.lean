import OpenApi.Proofs.Codec.Accepts
import OpenApi.Proofs.Codec.Flat
/-! # What a flat codec means

To admit null a second time changes nothing: a codec decodes every value like its flat form, and
the two are written as one schema. -/
namespace OpenApi.Codec

variable {c d e : Codec}

theorem Alike.trans (h : Alike c d) (k : Alike d e) : Alike c e :=
  ⟨h.1.trans k.1, h.2.trans k.2⟩

theorem alike_maybe_given (c : Codec) : Alike (.maybe c) (.maybe c.given) := by
  cases c with
  | maybe c =>
    refine ⟨rfl, funext fun raw => ?_⟩
    by_cases h : raw.kind = .null
    · simp [decode, h]
    · simp [given, decode, h]
  | _ => exact congruence_alike.refl _

theorem alike_flat (c : Codec) : Alike c c.flat := by
  induction c with
  | unknown | string | number | boolean | null | date | exactly | model =>
    exact congruence_alike.refl _
  | array item ih => exact congruence_alike.array ih
  | optional inner ih => exact congruence_alike.optional ih
  | record item ih => exact congruence_alike.record ih
  | intersect left right ihl ihr => exact congruence_alike.intersect ihl ihr
  | maybe inner ih =>
    rw [flat_maybe]
    exact (congruence_alike.maybe ih).trans (alike_maybe_given inner.flat)
  | interface fields ih =>
    rw [flat, flatFields_eq]
    apply congruence_alike.interface
    rw [List.forall₂_map_right_iff, List.forall₂_same]
    exact fun f hf => ⟨rfl, ih f hf⟩
  | oneOf members ih =>
    rw [flat, flatAll_eq]
    apply congruence_alike.oneOf
    rw [List.forall₂_map_right_iff, List.forall₂_same]
    exact ih

section Schema

theorem schemas_eq (members : List Codec) :
    schema.schemas members = members.map schemaValue := by
  induction members with
  | nil => rfl
  | cons c rest ih => rw [schema.schemas, ih, List.map_cons, schemaValue]

theorem fieldSchemas_eq (fields : List (Key × Codec)) :
    schema.fieldSchemas fields = fields.map fun f => (f.1, f.2.schemaValue) := by
  induction fields with
  | nil => rfl
  | cons f rest ih => rw [schema.fieldSchemas, ih, List.map_cons, schemaValue]

theorem schema_maybe_given (c : Codec) : (maybe c.given).schema = (maybe c).schema := by
  cases c with
  | maybe c =>
    rw [given, schema, schema, schema]
    exact (Entries.put_put_same c.schema (.str "nullable") (.bool true)).symm
  | _ => rfl

theorem flat_eq_unknown : c.flat = .unknown ↔ c = .unknown := by
  cases c with
  | maybe c =>
    rw [flat_maybe]
    exact ⟨nofun, nofun⟩
  | _ => simp [flat]

/-- Whether the items are unknown decides how a record is written. -/
theorem schema_record_congr (h : c.schema = d.schema) (hu : c = .unknown ↔ d = .unknown) :
    (record c).schema = (record d).schema := by
  by_cases hc : c = .unknown
  · rw [hc, hu.mp hc]
  · have hd : d ≠ .unknown := fun hd => hc (hu.mpr hd)
    have known : ∀ b : Codec, b ≠ .unknown → (record b).schema =
        [(.str "type", .str "object"), (.str "additionalProperties", .dict b.schema)] := by
      intro b hb
      cases b with
      | unknown => exact absurd rfl hb
      | _ => rfl
    rw [known c hc, known d hd, h]

theorem requiredNames_flat (fields : List (Key × Codec)) :
    requiredNames (fields.map fun f => (f.1, f.2.flat)) = requiredNames fields := by
  unfold requiredNames
  rw [List.filter_map, List.map_map]
  simp only [Function.comp_def, isRequired_flat]

theorem schema_flat (c : Codec) : c.flat.schema = c.schema := by
  induction c with
  | unknown | string | number | boolean | null | date | exactly | model => rfl
  | array item ih => simp only [flat, schema, ih]
  | optional inner ih => simp only [flat, schema, ih]
  | intersect left right ihl ihr => simp only [flat, schema, ihl, ihr]
  | record item ih => exact schema_record_congr ih flat_eq_unknown
  | maybe inner ih =>
    rw [flat_maybe, schema_maybe_given, schema, ih, schema]
  | interface fields ih =>
    rw [flat, flatFields_eq, schema, schema, requiredNames_flat, fieldSchemas_eq, fieldSchemas_eq,
      List.map_map]
    have hfields : ∀ f ∈ fields, (f.1, f.2.flat.schemaValue) = (f.1, f.2.schemaValue) :=
      fun f hf => by rw [schemaValue, schemaValue, ih f hf]
    rw [← List.map_congr_left hfields]
    rfl
  | oneOf members ih =>
    rw [flat, flatAll_eq, schema, schema, schemas_eq, schemas_eq, List.map_map]
    have hmembers : ∀ c ∈ members, c.flat.schemaValue = c.schemaValue :=
      fun c hc => by rw [schemaValue, schemaValue, ih c hc]
    rw [← List.map_congr_left hmembers]
    rfl

end Schema

end OpenApi.Codec
