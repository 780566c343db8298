import OpenApi.Proofs.References
/-! # What nodes pass on to their schemas

A property of schemas that is kept by the ways in which a node puts the schemas of its parts
together holds of the schema of every value, if it holds of the references in the value. -/
namespace OpenApi.Schema

def marked (required : List Key) (fields : List (Key × Schema)) : List (Key × Schema) :=
  fields.map fun f => if required.contains f.1 then f else (f.1, optional f.2)

/-- A property of schemas that is kept by the ways in which nodes put schemas together. -/
structure Closed (P : Schema → Prop) : Prop where
  any : P .any
  malformed : P .malformed
  nullable : ∀ {s}, P s → P (.nullable s)
  union : ∀ {members : List Schema}, (∀ s ∈ members, P s) → P (.union members)
  intersection : ∀ {members : List Schema}, (∀ s ∈ members, P s) → P (.intersection members)
  array : ∀ {s}, P s → P (.array s)
  object : ∀ {fields : List (Key × Schema)} {additional : Option Schema} (required : List Key),
    (∀ e ∈ fields, P e.2) → (∀ s, additional = some s → P s) →
      P (.object (marked required fields) additional)
  enumeration : ∀ literals : List Value, P (.enumeration literals)
  typed : ∀ type format : Value, P (typed type format)

structure Facet.Holds (P : Schema → Prop) (f : Facet) : Prop where
  schema : P f.schema
  members : ∀ s ∈ f.members, P s
  fields : ∀ e ∈ f.fields, P e.2

section Nodes

variable {P : Schema → Prop} {node : Node} {f : Facet} {keyword : String}

theorem holds_of_get? (h : ∀ e ∈ node, e.2.Holds P) (hf : node.get? (.str keyword) = some f) :
    f.Holds P := by
  obtain ⟨e, he, -, rfl⟩ := Entries.mem_of_get? hf
  exact h e he

theorem holds_of_given (h : ∀ e ∈ node, e.2.Holds P) (hf : node.given? keyword = some f) :
    f.Holds P :=
  holds_of_get? h (Option.eq_some_of_filter_eq_some hf)

variable (hP : Closed P)

include hP

theorem Closed.alternatives (h : f.Holds P) : P (alternatives f) := by
  unfold Schema.alternatives
  split
  · exact hP.union h.members
  · exact hP.malformed

theorem Closed.conjuncts (h : f.Holds P) : P (conjuncts f) := by
  unfold Schema.conjuncts
  split
  · split
    any_goals exact hP.intersection h.members
    exact hP.malformed
  · exact hP.intersection nofun

omit hP in
theorem holds_additionalOf (h : ∀ e ∈ node, e.2.Holds P) :
    ∀ s, additionalOf node = some s → P s := by
  intro s hs
  unfold additionalOf at hs
  split at hs
  · cases hs
  · split at hs
    · cases hs
    · cases hs
      exact (holds_of_given h ‹_›).schema

theorem Closed.objectOf (h : ∀ e ∈ node, e.2.Holds P) {additional : Option Schema}
    (ha : ∀ s, additional = some s → P s) : P (objectOf node additional) := by
  have hnone : P (.object [] additional) := @Closed.object P hP [] additional [] nofun ha
  unfold Schema.objectOf
  split
  · exact hP.malformed
  · split
    · exact hnone
    · split
      · split
        · exact hP.object _ (holds_of_get? h ‹_›).fields ha
        · exact hP.malformed
      · exact hnone

theorem Closed.rule (h : ∀ e ∈ node, e.2.Holds P)
    (href : ∀ f pointer, node.get? (.str "$ref") = some f → f.value = .str pointer →
      P (.ref pointer)) : P (rule node) := by
  unfold Schema.rule
  split
  · split
    · exact href _ _ ‹_› ‹_›
    · exact hP.malformed
  · split
    · exact hP.alternatives (holds_of_given h ‹_›)
    · split
      · exact hP.alternatives (holds_of_given h ‹_›)
      · split
        · exact hP.conjuncts (holds_of_given h ‹_›)
        · split
          · exact hP.array (holds_of_get? h ‹_›).schema
          · split
            · exact hP.objectOf h (holds_additionalOf h)
            · split
              · split
                · exact hP.enumeration _
                · exact hP.malformed
              · exact hP.typed _ _

theorem Closed.ofNode (h : ∀ e ∈ node, e.2.Holds P)
    (href : ∀ f pointer, node.get? (.str "$ref") = some f → f.value = .str pointer →
      P (.ref pointer)) : P (ofNode node) := by
  unfold Schema.ofNode
  split
  · exact hP.nullable (hP.rule h href)
  · exact hP.rule h href

end Nodes

theorem facet_value (v : Value) : (facet v).value = v := by
  cases v <;> rfl

theorem mem_facets {es : List (Key × Value)} {e : Key × Facet} (h : e ∈ facet.facets es) :
    ∃ d ∈ es, e = (d.1, facet d.2) := by
  induction es with
  | nil => cases h
  | cons d rest ih =>
    rcases List.mem_cons.mp h with rfl | h
    · exact ⟨d, List.mem_cons_self, rfl⟩
    · obtain ⟨d', hd, he⟩ := ih h
      exact ⟨d', List.mem_cons_of_mem d hd, he⟩

theorem mem_schemas {items : List Value} {s : Schema} (h : s ∈ facet.schemas items) :
    ∃ v ∈ items, s = ofValue v := by
  induction items with
  | nil => cases h
  | cons v rest ih =>
    rcases List.mem_cons.mp h with rfl | h
    · exact ⟨v, List.mem_cons_self, rfl⟩
    · obtain ⟨v', hv, he⟩ := ih h
      exact ⟨v', List.mem_cons_of_mem v hv, he⟩

theorem reference_of_node {es : List (Key × Value)} {f : Facet} {pointer : String}
    (hf : Entries.get? (facet.facets es) (.str "$ref") = some f) (hv : f.value = .str pointer) :
    pointer ∈ (Value.dict es).references := by
  obtain ⟨e, he, hk, rfl⟩ := Entries.mem_of_get? hf
  obtain ⟨⟨k, v⟩, hd, rfl⟩ := mem_facets he
  obtain rfl : v = .str pointer := (facet_value v).symm.trans hv
  exact Value.mem_references (BEq.symm hk) hd

section Values

variable {P : Schema → Prop} (hP : Closed P)

include hP

theorem Closed.anys {α : Type} (l : List α) : ∀ s ∈ l.map (fun _ => Schema.any), P s := by
  intro s hs
  obtain ⟨-, -, rfl⟩ := List.mem_map.mp hs
  exact hP.any

theorem Closed.facet (v : Value) (href : ∀ r ∈ v.references, P (.ref r)) : (facet v).Holds P := by
  induction v with
  | list items ih | tuple items ih =>
    refine ⟨hP.any, fun s hs => ?_, nofun⟩
    obtain ⟨v, hv, rfl⟩ := mem_schemas hs
    exact (ih v hv fun r hr => href r (Value.references_of_item hv hr)).schema
  | dict es ih =>
    have hnode : ∀ e ∈ facet.facets es, e.2.Holds P := by
      intro e he
      obtain ⟨d, hd, rfl⟩ := mem_facets he
      exact ih d hd fun r hr => href r (Value.references_of_entry hd hr)
    have hown := fun f pointer hf hv => href pointer (@reference_of_node es f pointer hf hv)
    refine ⟨hP.ofNode hnode hown, hP.anys es, fun e he => ?_⟩
    obtain ⟨d, hd, rfl⟩ := List.mem_map.mp he
    exact (hnode d hd).schema
  | str s => exact ⟨hP.any, hP.anys _, nofun⟩
  | null | bool | int | float | bytes | buffer | date | datetime | blob =>
    exact ⟨hP.any, hP.anys _, nofun⟩

/-- What is passed on by nodes holds of the schema of a value if it holds of its references. -/
theorem Closed.ofValue (v : Value) (href : ∀ r ∈ v.references, P (.ref r)) : P (ofValue v) :=
  (hP.facet v href).schema

end Values

section References

variable {rs : List String}

theorem all_refs_subset {members : List Schema} (h : ∀ s ∈ members, s.refs ⊆ rs) :
    refs.all members ⊆ rs := by
  induction members with
  | nil => exact nofun
  | cons s rest ih =>
    obtain ⟨hs, hrest⟩ := List.forall_mem_cons.mp h
    exact List.append_subset.mpr ⟨hs, ih hrest⟩

theorem field_refs_subset {fields : List (Key × Schema)} (h : ∀ e ∈ fields, e.2.refs ⊆ rs) :
    refs.fieldRefs fields ⊆ rs := by
  induction fields with
  | nil => exact nofun
  | cons e rest ih =>
    obtain ⟨he, hrest⟩ := List.forall_mem_cons.mp h
    exact List.append_subset.mpr ⟨he, ih hrest⟩

theorem refs_marked (required : List Key) {fields : List (Key × Schema)}
    (h : ∀ e ∈ fields, e.2.refs ⊆ rs) : ∀ e ∈ marked required fields, e.2.refs ⊆ rs := by
  intro e he
  obtain ⟨f, hf, rfl⟩ := List.mem_map.mp he
  by_cases hk : required.contains f.1 = true
  · rw [if_pos hk]
    exact h f hf
  · rw [if_neg hk]
    exact h f hf

theorem closed_refs (rs : List String) : Closed fun s => s.refs ⊆ rs where
  any := nofun
  malformed := nofun
  nullable h := h
  union h := all_refs_subset h
  intersection h := all_refs_subset h
  array h := h
  object {fields additional} required hf ha := by
    have hfields := field_refs_subset (refs_marked required hf)
    cases additional with
    | none => exact hfields
    | some s => exact List.append_subset.mpr ⟨hfields, ha s rfl⟩
  enumeration _ := nofun
  typed type format := by
    unfold typed
    repeat' split
    all_goals exact nofun

theorem refs_ofValue (v : Value) : (ofValue v).refs ⊆ v.references :=
  (closed_refs v.references).ofValue v fun _ hr => List.cons_subset.mpr ⟨hr, List.nil_subset _⟩

end References

end OpenApi.Schema
