import OpenApi.Proofs.Codec.Flat
/-! # Compiling a codec again

The schema that a plain codec is written as compiles to the codec again, made flat: every sort of
codec is written with keywords of which the first one that counts gives back its sort. Only what
admits null twice is written like what admits it once. -/
namespace OpenApi

open Codec (Plain)

namespace Schema

def nodeOf (c : Codec) : Node := facet.facets c.schema

theorem ofValue_schemaValue (c : Codec) : ofValue c.schemaValue = ofNode (nodeOf c) := rfl

section Nullable

theorem facets_put (es : Entries Key Value) (k : Key) (v : Value) :
    facet.facets (es.put k v) = Entries.put (facet.facets es) k (facet v) := by
  induction es with
  | nil => rfl
  | cons e rest ih =>
    obtain ⟨l, w⟩ := e
    rw [Entries.put, facet.facets, Entries.put]
    by_cases h : k == l
    · rw [if_pos h, if_pos h]
      rfl
    · rw [if_neg h, if_neg h, ← ih]
      rfl

theorem get?_put_nullable (node : Node) (f : Facet) {keyword : String} (h : keyword ≠ "nullable") :
    (Entries.put node (.str "nullable") f).get? (.str keyword) = node.get? (.str keyword) := by
  rw [Entries.get?_put, Key.str_beq_str, beq_eq_false_iff_ne.mpr h]
  rfl

/-- Whether null is admitted has no part in which keyword counts. -/
theorem rule_put_nullable (node : Node) (f : Facet) :
    rule (Entries.put node (.str "nullable") f) = rule node := by
  unfold rule objectOf additionalOf Node.given? Node.value
  simp (disch := decide) only [get?_put_nullable]

theorem nodeOf_maybe (c : Codec) :
    nodeOf (.maybe c) = Entries.put (nodeOf c) (.str "nullable") (facet (.bool true)) :=
  facets_put c.schema (.str "nullable") (.bool true)

theorem value_nullable_put (node : Node) :
    Node.value (Entries.put node (.str "nullable") (facet (.bool true))) "nullable" =
      Value.bool true := by
  rw [Node.value, Entries.get?_put, Key.str_beq_str]
  rfl

end Nullable

section Properties

variable {fields : List (Key × Codec)}

theorem key?_toValue (k : Key) : k.toValue.key? = some k := by
  induction k with
  | tuple items ih =>
    have hall : Value.key?.keys? (Key.toValue.toValues items) = some items := by
      induction items with
      | nil => rfl
      | cons k rest ihr =>
        obtain ⟨hk, hrest⟩ := List.forall_mem_cons.mp ih
        rw [Key.toValue.toValues, Value.key?.keys?, hk, ihr hrest]
        rfl
    rw [Key.toValue, Value.key?, hall]
    rfl
  | _ => rfl

theorem mapM_key?_toValue (keys : List Key) :
    (keys.map Key.toValue).mapM Value.key? = some keys := by
  induction keys with
  | nil => rfl
  | cons k rest ih =>
    rw [List.map_cons, List.mapM_cons, key?_toValue, ih]
    rfl

def requiredKeys (fields : List (Key × Codec)) : List Key :=
  (fields.filter fun f => f.2.isRequired).map Prod.fst

theorem requiredNames_eq (fields : List (Key × Codec)) :
    Codec.requiredNames fields = (requiredKeys fields).map Key.toValue := by
  rw [Codec.requiredNames, requiredKeys, List.map_map]
  rfl

theorem contains_requiredKeys (hu : Uniform Codec.isRequired fields) {f : Key × Codec}
    (hf : f ∈ fields) : (requiredKeys fields).contains f.1 = f.2.isRequired := by
  rw [Bool.eq_iff_iff, List.contains_iff_exists_mem_beq]
  constructor
  · rintro ⟨k, hk, hkeys⟩
    obtain ⟨g, hg, rfl⟩ := List.mem_map.mp hk
    obtain ⟨hg, hreq⟩ := List.mem_filter.mp hg
    rw [hu f hf g hg hkeys]
    exact hreq
  · intro hreq
    exact ⟨f.1, List.mem_map.mpr ⟨f, List.mem_filter.mpr ⟨hf, hreq⟩, rfl⟩, BEq.rfl⟩

def property (f : Key × Codec) : Key × Schema :=
  if f.2.isRequired then (f.1, ofValue f.2.schemaValue)
  else (f.1, .optional (ofValue f.2.schemaValue))

theorem facets_fieldSchemas (fields : List (Key × Codec)) :
    (facet.facets (Codec.schema.fieldSchemas fields)).map (fun e => (e.1, e.2.schema)) =
      fields.map fun f => (f.1, ofValue f.2.schemaValue) := by
  induction fields with
  | nil => rfl
  | cons f rest ih =>
    rw [Codec.schema.fieldSchemas, facet.facets, List.map_cons, ih, List.map_cons]
    rfl

theorem nodeOf_interface (fields : List (Key × Codec)) :
    nodeOf (.interface fields) = facet.facets (("type", .str "object") ::
      ("properties", .dict (Codec.schema.fieldSchemas fields)) ::
        Codec.requiredEntry ((requiredKeys fields).map Key.toValue)) := by
  rw [← requiredNames_eq]
  rfl

theorem required_value (fields : List (Key × Codec)) :
    requiredKeys? (Node.value (nodeOf (.interface fields)) "required") =
      some (requiredKeys fields) := by
  rw [nodeOf_interface]
  cases requiredKeys fields with
  | nil => rfl
  | cons k rest => exact mapM_key?_toValue (k :: rest)

theorem value_nullable_interface (fields : List (Key × Codec)) :
    (Node.value (nodeOf (.interface fields)) "nullable").isTruthy = false := by
  rw [nodeOf_interface]
  cases requiredKeys fields <;> rfl

theorem rule_interface_eq (fields : List (Key × Codec)) :
    rule (nodeOf (.interface fields)) = objectOf (nodeOf (.interface fields)) none := by
  rw [nodeOf_interface]
  cases requiredKeys fields <;> rfl

theorem get?_properties (fields : List (Key × Codec)) :
    (nodeOf (.interface fields)).get? (.str "properties") =
      some (facet (.dict (Codec.schema.fieldSchemas fields))) := rfl

theorem rule_interface (hu : Uniform Codec.isRequired fields) :
    rule (nodeOf (.interface fields)) = .object (fields.map property) none := by
  have hmark : fields.map property = (fields.map fun f => (f.1, ofValue f.2.schemaValue)).map
      fun f => if (requiredKeys fields).contains f.1 then f else (f.1, .optional f.2) := by
    rw [List.map_map]
    refine List.map_congr_left fun f hf => ?_
    simp only [property, Function.comp_apply, contains_requiredKeys hu hf]
  rw [rule_interface_eq, hmark, ← facets_fieldSchemas]
  simp only [objectOf, required_value, get?_properties]
  cases fields <;> rfl

end Properties

section Rules

theorem rule_record (c : Codec) :
    rule (nodeOf (.record c)) = .object [] (some (ofValue c.schemaValue)) := by
  cases c <;> rfl

theorem facet_schemas_schemas (members : List Codec) :
    facet.schemas (Codec.schema.schemas members) = members.map fun c => ofValue c.schemaValue := by
  induction members with
  | nil => rfl
  | cons c rest ih =>
    rw [Codec.schema.schemas, facet.schemas, ih, List.map_cons]
    rfl

theorem rule_oneOf (members : List Codec) :
    rule (nodeOf (.oneOf members)) = .union (members.map fun c => ofValue c.schemaValue) := by
  rw [← facet_schemas_schemas]
  rfl

theorem rule_intersect (c d : Codec) :
    rule (nodeOf (.intersect c d)) =
      .intersection [ofValue c.schemaValue, ofValue d.schemaValue] := rfl

end Rules

variable {answer : String → Except Fault Codec} {c : Codec}

/-- The keywords give back the codec, and null is admitted apart from them. -/
structure Recompiles (answer : String → Except Fault Codec) (c : Codec) : Prop where
  rule : (rule (nodeOf c)).compile answer = .ok c.flat.given
  nullable : (Node.value (nodeOf c) "nullable").isTruthy = c.isMaybe

theorem Recompiles.compile (h : Recompiles answer c) :
    (ofValue c.schemaValue).compile answer = .ok c.flat := by
  rw [ofValue_schemaValue, ofNode, h.nullable]
  cases c with
  | maybe c =>
    rw [Codec.flat_maybe]
    exact bind_eq_ok.mpr ⟨_, h.rule, by rw [Codec.flat_maybe]; rfl⟩
  | _ =>
    refine h.rule.trans (congrArg Except.ok (Codec.given_of_not_isMaybe ?_))
    rw [Codec.isMaybe_flat]
    rfl

theorem compile_property {f : Key × Codec} (h : Recompiles answer f.2.present) :
    (property f).1 = f.1 ∧ (property f).2.compile answer = .ok f.2.flat := by
  obtain ⟨k, c⟩ := f
  cases hreq : c.isRequired with
  | true =>
    have hproperty : property (k, c) = (k, ofValue c.schemaValue) := if_pos hreq
    rw [Codec.present_of_required hreq] at h
    rw [hproperty]
    exact ⟨rfl, h.compile⟩
  | false =>
    cases c with
    | optional inner => exact ⟨rfl, bind_eq_ok.mpr ⟨_, h.compile, rfl⟩⟩
    | _ => cases hreq

theorem compile_properties {fields : List (Key × Codec)}
    (h : ∀ f ∈ fields, Recompiles answer f.2.present) :
    compile.compileFields answer (fields.map property) =
      .ok (fields.map fun f => (f.1, f.2.flat)) := by
  rw [compileFields_eq_ok, List.forall₂_map_left_iff, List.forall₂_map_right_iff,
    List.forall₂_same]
  exact fun f hf => compile_property (h f hf)

theorem compile_members {members : List Codec} (h : ∀ c ∈ members, Recompiles answer c) :
    compile.compileAll answer (members.map fun c => ofValue c.schemaValue) =
      .ok (members.map Codec.flat) := by
  rw [compileAll_eq_ok, List.forall₂_map_left_iff, List.forall₂_map_right_iff, List.forall₂_same]
  exact fun c hc => (h c hc).compile

theorem enumerationCodec_single {v : Value} (h : v.kind ≠ .null) :
    enumerationCodec [v] = .ok (.exactly v) := by
  have hgiven : ([v].filter fun v => v.kind ≠ .null) = [v] := by simp [h]
  rw [enumerationCodec, hgiven]
  rfl

theorem recompiles (h : Plain answer c) : Recompiles answer c := by
  induction h with
  | unknown | string | number | boolean | null | date => exact ⟨rfl, rfl⟩
  | exactly hv => exact ⟨congrArg ofExcept (enumerationCodec_single hv), rfl⟩
  | array _ ih => exact ⟨bind_eq_ok.mpr ⟨_, ih.compile, rfl⟩, rfl⟩
  | @maybe c _ ih =>
    refine ⟨?_, ?_⟩
    · rw [nodeOf_maybe, rule_put_nullable, Codec.flat_maybe]
      exact ih.rule
    · rw [nodeOf_maybe, value_nullable_put]
      rfl
  | @interface fields _ hu ih =>
    refine ⟨?_, value_nullable_interface fields⟩
    rw [rule_interface hu, Codec.flat, Codec.flatFields_eq]
    exact bind_eq_ok.mpr ⟨_, compile_properties ih, rfl⟩
  | @record c _ ih =>
    refine ⟨?_, by cases c <;> rfl⟩
    rw [rule_record]
    exact bind_eq_ok.mpr ⟨[], rfl, bind_eq_ok.mpr ⟨_, ih.compile, rfl⟩⟩
  | oneOf _ ih =>
    refine ⟨?_, rfl⟩
    rw [rule_oneOf, Codec.flat, Codec.flatAll_eq]
    exact bind_eq_ok.mpr ⟨_, compile_members ih, rfl⟩
  | @intersect c d _ _ ihc ihd =>
    refine ⟨?_, rfl⟩
    rw [rule_intersect]
    have hall : compile.compileAll answer [ofValue c.schemaValue, ofValue d.schemaValue] =
        .ok [c.flat, d.flat] :=
      compileAll_eq_ok.mpr (.cons ihc.compile (.cons ihd.compile .nil))
    exact bind_eq_ok.mpr ⟨_, hall, rfl⟩
  | model h => exact ⟨h, rfl⟩

end Schema

end OpenApi
