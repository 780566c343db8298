import OpenApi.Proofs.Key
import OpenApi.Proofs.Parameter.Brackets
import OpenApi.Proofs.Parameter.Merged
/-! # What is kept of bracketed parameters

Of objects with different names each one goes into a property, and the property is named as the object was, as
long as nothing stands behind the closing brackets. What does is dropped: then the property has another name,
and two objects that differ in nothing else become one. -/
namespace OpenApi

namespace Parameter

def propertyOf? (name : String) (es : Entries Key Value) : Option (Key × Value) :=
  match property? (nameText es) with
  | some (object, property) =>
    if object = name then some (.str property, Value.getD es "schema") else none
  | none => none

/-- What is gathered under a name: the last object with a property counts, at the place of the first. -/
def propertiesOf (objects : List (Entries Key Value)) (name : String) : Entries Key Value :=
  Entries.ofList (objects.filterMap (propertyOf? name))

def gathered? (objects : List (Entries Key Value)) (name : String) : Option Declared :=
  (firstOf? objects name).map fun es =>
    .gathered name (entry es "in" (.str "query")) (propertiesOf objects name)

def Declared.isPlain : Declared → Bool
  | plain _ => true
  | gathered .. => false

/-- What the objects are merged to: those without brackets in their order, and one for each name before the
bracket. -/
structure Gathers (objects : List (Entries Key Value)) (ds : List Declared) : Prop where
  plain : ds.filter Declared.isPlain =
    (objects.filter fun es => (property? (nameText es)).isNone).map fun es => .plain (.dict es)
  gathered : ∀ name, ds.filter (Declared.gathers name) = (gathered? objects name).toList

/-- Every object without brackets is left as it is, and every other one has a property of its own, with its
schema, which a query string has under the name of the object. -/
structure KeepsAll (objects : List (Entries Key Value)) (ds : List Declared) : Prop where
  plain : ∀ es ∈ objects, (¬ ∃ object property rest, Splits (nameText es) object property rest) →
    .plain (.dict es) ∈ ds
  held : ∀ es ∈ objects, ∀ object property rest, Splits (nameText es) object property rest →
    ∃ location properties, .gathered object location properties ∈ ds ∧
      properties.get? (.str property) = some (Value.getD es "schema")
  own : ∀ es ∈ objects, ∀ fs ∈ objects, ∀ object property rest more,
    Splits (nameText es) object property rest → Splits (nameText fs) object property more → es = fs
  named : ∀ es ∈ objects, ∀ object property rest, Splits (nameText es) object property rest →
    ∀ s ≠ "", Query.keyOf (Query.deep [(.str object, .dict [(.str property, .str s)])]) = nameText es

namespace Declared

variable (object property : String) (schema : Value)

theorem filter_isPlain_map (ds : List Declared) :
    (ds.map fun d => if d.gathers object then d.gather property schema else d).filter isPlain =
      ds.filter isPlain := by
  induction ds with
  | nil => rfl
  | cons d ds ih =>
    rw [List.map_cons, List.filter_cons, List.filter_cons, ih]
    cases d with
    | plain _ => rfl
    | gathered n _ _ => cases h : n == object <;> simp [gathers, gather, isPlain, h]

theorem filter_gathers_map (ds : List Declared) (name : String) :
    (ds.map fun d => if d.gathers object then d.gather property schema else d).filter (gathers name) =
      (ds.filter (gathers name)).map fun d =>
        if d.gathers object then d.gather property schema else d := by
  rw [List.filter_map]
  congr 2
  funext d
  rw [Function.comp_apply]
  split
  · exact gathers_gather d property schema name
  · rfl

end Declared

section Concat

variable {objects : List (Entries Key Value)} {es : Entries Key Value} {name property : String}

theorem propertiesOf_concat (objects : List (Entries Key Value)) (name : String) :
    propertiesOf (objects ++ [es]) name = match propertyOf? name es with
      | some e => (propertiesOf objects name).put e.1 e.2
      | none => propertiesOf objects name := by
  rw [propertiesOf, List.filterMap_append, Entries.ofList, Entries.overlay, List.foldl_append]
  cases h : propertyOf? name es with
  | none => simp [h, propertiesOf, Entries.ofList, Entries.overlay]
  | some e => simp [h, propertiesOf, Entries.ofList, Entries.overlay]

theorem bracketName?_of_property (h : property? (nameText es) = some (name, property)) :
    bracketName? es = some name := by
  rw [bracketName?, h]
  rfl

theorem propertyOf?_of_property (h : property? (nameText es) = some (name, property)) :
    propertyOf? name es = some (.str property, Value.getD es "schema") := by
  simp only [propertyOf?, h, if_true]

theorem propertyOf?_of_ne (h : bracketName? es ≠ some name) : propertyOf? name es = none := by
  cases hp : property? (nameText es) with
  | none => simp only [propertyOf?, hp]
  | some p =>
    have hne : p.1 ≠ name := by
      rintro rfl
      exact h (bracketName?_of_property hp)
    simp only [propertyOf?, hp, if_neg hne]

theorem property_of_propertyOf? {e : Key × Value} (h : propertyOf? name es = some e) :
    ∃ property, property? (nameText es) = some (name, property) ∧
      e = (.str property, Value.getD es "schema") := by
  unfold propertyOf? at h
  split at h
  · next object property hp =>
    split at h
    · next heq =>
      cases h
      exact ⟨property, heq ▸ hp, rfl⟩
    · cases h
  · cases h

theorem propertiesOf_of_new (h : firstOf? objects name = none) : propertiesOf objects name = [] := by
  have hnone : objects.filterMap (propertyOf? name) = [] := by
    refine List.filterMap_eq_nil_iff.mpr fun es hes => propertyOf?_of_ne fun he => ?_
    exact List.find?_eq_none.mp h es hes (by simpa using he)
  rw [propertiesOf, hnone]
  rfl

theorem gathered?_concat_of_ne (h : bracketName? es ≠ some name) :
    gathered? (objects ++ [es]) name = gathered? objects name := by
  have hfirst : firstOf? (objects ++ [es]) name = firstOf? objects name := by
    rw [firstOf?, List.find?_append, firstOf?]
    simp [h]
  rw [gathered?, hfirst, propertiesOf_concat, propertyOf?_of_ne h]
  rfl

theorem gathered?_concat (h : property? (nameText es) = some (name, property)) :
    gathered? (objects ++ [es]) name = some (match gathered? objects name with
      | some d => d.gather property (Value.getD es "schema")
      | none => .gathered name (entry es "in" (.str "query")) [(.str property, Value.getD es "schema")]) := by
  rw [gathered?, propertiesOf_concat, propertyOf?_of_property h]
  cases hfirst : firstOf? objects name with
  | some first =>
    rw [firstOf?_append hfirst, gathered?, hfirst]
    rfl
  | none =>
    have hnew : ∀ e ∈ objects, bracketName? e ≠ some name := by
      intro e he hname
      exact List.find?_eq_none.mp hfirst e he (by simpa using hname)
    rw [firstOf?_of_new hnew (bracketName?_of_property h), gathered?, hfirst, propertiesOf_of_new hfirst]
    rfl

theorem gathers_of_gathered? {d : Declared} (h : gathered? objects name = some d) (other : String) :
    d.gathers other = (name == other) := by
  obtain ⟨first, -, rfl⟩ := Option.map_eq_some_iff.mp h
  rfl

end Concat

namespace Gathers

variable {objects : List (Entries Key Value)} {done : List Declared} {es : Entries Key Value}

theorem any_gathers (h : Gathers objects done) (name : String) :
    done.any (Declared.gathers name) = (gathered? objects name).isSome := by
  have hany : done.any (Declared.gathers name) = (done.filter (Declared.gathers name)).any fun _ => true := by
    rw [List.any_filter]
    simp
  rw [hany, h.gathered]
  cases gathered? objects name <;> rfl

theorem add_plain (h : Gathers objects done) (hplain : property? (nameText es) = none) :
    Gathers (objects ++ [es]) (done ++ [.plain (.dict es)]) where
  plain := by
    rw [List.filter_append, List.filter_append, List.map_append, h.plain]
    simp [hplain, Declared.isPlain]
  gathered name := by
    have hne : bracketName? es ≠ some name := by simp [bracketName?, hplain]
    rw [List.filter_append, h.gathered, gathered?_concat_of_ne hne]
    simp [Declared.gathers]

variable {object property : String} (hproperty : property? (nameText es) = some (object, property))

include hproperty

theorem plain_concat (h : Gathers objects done) : done.filter Declared.isPlain =
    ((objects ++ [es]).filter fun es => (property? (nameText es)).isNone).map fun es => .plain (.dict es) := by
  rw [List.filter_append, List.map_append, h.plain]
  simp [hproperty]

theorem ne_of_other {name : String} (hne : name ≠ object) : bracketName? es ≠ some name := by
  rw [bracketName?_of_property hproperty]
  exact fun he => hne (Option.some.inj he).symm

theorem add_gathered (h : Gathers objects done) (hany : done.any (Declared.gathers object) = true) :
    Gathers (objects ++ [es]) (done.map fun d =>
      if d.gathers object then d.gather property (Value.getD es "schema") else d) where
  plain := by
    rw [Declared.filter_isPlain_map, h.plain_concat hproperty]
  gathered name := by
    rw [Declared.filter_gathers_map, h.gathered]
    by_cases hname : name = object
    · subst hname
      rw [h.any_gathers] at hany
      obtain ⟨d, hd⟩ := Option.isSome_iff_exists.mp hany
      have hgathers : d.gathers name = true := by simp [gathers_of_gathered? hd]
      rw [gathered?_concat hproperty, hd]
      simp [hgathers]
    · rw [gathered?_concat_of_ne (ne_of_other hproperty hname)]
      cases hd : gathered? objects name with
      | none => rfl
      | some d =>
        have hgathers : d.gathers object = false := by simpa [gathers_of_gathered? hd] using hname
        simp [hgathers]

theorem add_new (h : Gathers objects done) (hnew : ¬ done.any (Declared.gathers object) = true) :
    Gathers (objects ++ [es]) (done ++ [.gathered object (entry es "in" (.str "query"))
      [(.str property, Value.getD es "schema")]]) where
  plain := by
    rw [List.filter_append, h.plain_concat hproperty]
    simp [Declared.isPlain]
  gathered name := by
    rw [List.filter_append, h.gathered]
    by_cases hname : name = object
    · subst hname
      rw [h.any_gathers, Option.not_isSome_iff_eq_none] at hnew
      rw [gathered?_concat hproperty, hnew]
      simp [Declared.gathers]
    · rw [gathered?_concat_of_ne (ne_of_other hproperty hname)]
      simp [Declared.gathers, Ne.symm hname]

omit hproperty in
theorem add {ds : List Declared} (h : Gathers objects done) (hadd : Declared.add done (.dict es) = .ok ds) :
    Gathers (objects ++ [es]) ds := by
  obtain ⟨-, hadd⟩ := Declared.add_dict hadd
  cases hp : property? (nameText es) with
  | none =>
    simp only [hp] at hadd
    subst hadd
    exact h.add_plain hp
  | some p =>
    simp only [hp] at hadd
    by_cases hany : done.any (Declared.gathers p.1) = true
    · rw [if_pos hany] at hadd
      subst hadd
      exact h.add_gathered hp hany
    · rw [if_neg hany] at hadd
      subst hadd
      exact h.add_new hp hany

end Gathers

theorem exists_add (done : List Declared) {es : Entries Key Value} {name : String}
    (h : nameOf es = .ok name) : ∃ ds, Declared.add done (.dict es) = .ok ds := by
  simp only [Declared.add, h, bind, Except.bind]
  split
  · exact ⟨_, rfl⟩
  · split
    · exact ⟨_, rfl⟩
    · exact ⟨_, rfl⟩

theorem foldlM_gathers {ess before : List (Entries Key Value)} {done : List Declared} (h : Gathers before done)
    (hnamed : ∀ es ∈ ess, ∃ name, nameOf es = .ok name) :
    ∃ ds, (ess.map Value.dict).foldlM Declared.add done = .ok ds ∧ Gathers (before ++ ess) ds := by
  induction ess generalizing before done with
  | nil => exact ⟨done, rfl, by rwa [List.append_nil]⟩
  | cons es ess ih =>
    obtain ⟨⟨name, hname⟩, hrest⟩ := List.forall_mem_cons.mp hnamed
    obtain ⟨next, hnext⟩ := exists_add done hname
    obtain ⟨ds, hds, hg⟩ := ih (h.add hnext) hrest
    refine ⟨ds, ?_, by rwa [List.append_assoc] at hg⟩
    rw [List.map_cons, List.foldlM_cons, hnext]
    exact hds

theorem gathers_mergeBracketed {ess : List (Entries Key Value)}
    (hnamed : ∀ es ∈ ess, ∃ name, nameOf es = .ok name) :
    ∃ ds, mergeBracketed (ess.map Value.dict) = .ok (ds.map Declared.toValue) ∧ Gathers ess ds := by
  have hnone : Gathers [] [] := ⟨rfl, fun _ => rfl⟩
  obtain ⟨ds, hds, hg⟩ := foldlM_gathers hnone hnamed
  refine ⟨ds, ?_, hg⟩
  rw [mergeBracketed, hds]
  rfl

section Properties

variable {objects : List (Entries Key Value)} {ds : List Declared} {es : Entries Key Value}
  {object property : String}

theorem Gathers.mem_plain (h : Gathers objects ds) (hes : es ∈ objects)
    (hplain : property? (nameText es) = none) : .plain (.dict es) ∈ ds := by
  have hmem : Declared.plain (.dict es) ∈ ds.filter Declared.isPlain := by
    rw [h.plain]
    exact List.mem_map_of_mem (List.mem_filter.mpr ⟨hes, by simp [hplain]⟩)
  exact (List.mem_filter.mp hmem).1

theorem Gathers.mem_gathered (h : Gathers objects ds) (hes : es ∈ objects)
    (hproperty : property? (nameText es) = some (object, property)) :
    ∃ location, .gathered object location (propertiesOf objects object) ∈ ds := by
  obtain ⟨first, hfirst⟩ : ∃ first, firstOf? objects object = some first := by
    rw [← Option.isSome_iff_exists, firstOf?, List.find?_isSome]
    exact ⟨es, hes, by simp [bracketName?_of_property hproperty]⟩
  refine ⟨entry first "in" (.str "query"), (List.mem_filter (p := Declared.gathers object)).mp ?_ |>.1⟩
  rw [h.gathered, gathered?, hfirst]
  exact List.mem_singleton_self _

theorem get?_propertiesOf (hes : es ∈ objects)
    (hproperty : property? (nameText es) = some (object, property))
    (hown : ∀ fs ∈ objects, property? (nameText fs) = some (object, property) → fs = es) :
    (propertiesOf objects object).get? (.str property) = some (Value.getD es "schema") := by
  have hmem : (.str property, Value.getD es "schema") ∈
      (objects.filterMap (propertyOf? object)).reverse := by
    rw [List.mem_reverse, List.mem_filterMap]
    exact ⟨es, hes, propertyOf?_of_property hproperty⟩
  rw [propertiesOf, Entries.ofList, Entries.get?_overlay, Entries.get?_nil, Option.or_none]
  refine Entries.get?_of_forall hmem BEq.rfl fun e he hk => ?_
  rw [List.mem_reverse, List.mem_filterMap] at he
  obtain ⟨fs, hfs, hother⟩ := he
  obtain ⟨other, hfsp, rfl⟩ := property_of_propertyOf? hother
  obtain rfl : property = other := by simpa using hk
  rw [hown fs hfs hfsp]

end Properties

theorem KeepsAll.rest_eq_empty {objects : List (Entries Key Value)} {ds : List Declared}
    (h : KeepsAll objects ds) {es : Entries Key Value} (hes : es ∈ objects) {object property rest : String}
    (hsplits : Splits (nameText es) object property rest) : rest = "" := by
  have hname := h.named es hes object property rest hsplits "a" (by decide)
  rw [Query.keyOf_deep] at hname
  exact hsplits.rest_eq_empty hname.symm

theorem Gathers.keepsAll {objects : List (Entries Key Value)} {ds : List Declared} (h : Gathers objects ds)
    (hdistinct : (objects.map nameText).Nodup)
    (hexact : ∀ es ∈ objects, ∀ object property rest,
      Splits (nameText es) object property rest → rest = "") : KeepsAll objects ds := by
  have hown : ∀ es ∈ objects, ∀ fs ∈ objects, ∀ object property rest more,
      Splits (nameText es) object property rest → Splits (nameText fs) object property more → es = fs := by
    intro es hes fs hfs object property rest more hsplits hother
    refine List.inj_on_of_nodup_map hdistinct hes hfs ?_
    rw [hsplits.text, hother.text, hexact es hes _ _ _ hsplits, hexact fs hfs _ _ _ hother]
  refine ⟨?_, ?_, hown, ?_⟩
  · intro es hes hno
    refine h.mem_plain hes (Option.eq_none_iff_forall_ne_some.mpr fun p hp => ?_)
    obtain ⟨rest, hsplits⟩ := property?_eq_some_iff.mp hp
    exact hno ⟨p.1, p.2, rest, hsplits⟩
  · intro es hes object property rest hsplits
    have hproperty := property?_eq_some_iff.mpr ⟨rest, hsplits⟩
    obtain ⟨location, hmem⟩ := h.mem_gathered hes hproperty
    refine ⟨location, _, hmem, get?_propertiesOf hes hproperty fun fs hfs hother => ?_⟩
    obtain ⟨more, hmore⟩ := property?_eq_some_iff.mp hother
    exact hown fs hfs es hes object property more rest hmore hsplits
  · intro es hes object property rest hsplits s _
    have htext := hsplits.text
    rw [hexact es hes _ _ _ hsplits, String.append_empty] at htext
    rw [Query.keyOf_deep, htext]

/-- Nothing is lost of objects with different names if, and only if, none has anything behind the closing
bracket. Otherwise the last object with a property counts. -/
theorem keepsAll_iff {objects : List (Entries Key Value)}
    (hnamed : ∀ es ∈ objects, ∃ name, nameOf es = .ok name) (hdistinct : (objects.map nameText).Nodup) :
    ∃ ds, mergeBracketed (objects.map Value.dict) = .ok (ds.map Declared.toValue) ∧ Gathers objects ds ∧
      (KeepsAll objects ds ↔ ∀ es ∈ objects, ∀ object property rest,
        Splits (nameText es) object property rest → rest = "") := by
  obtain ⟨ds, hds, hgathers⟩ := gathers_mergeBracketed hnamed
  refine ⟨ds, hds, hgathers, ?_, hgathers.keepsAll hdistinct⟩
  intro hkept es hes object property rest hsplits
  exact hkept.rest_eq_empty hes hsplits

def titled (name : String) : Entries Key Value :=
  [(.str "name", .str name), (.str "schema", Value.object [("title", .str name)])]

theorem nameOf_titled (name : String) : nameOf (titled name) = .ok name := by
  simp [titled, nameOf, entry, Entries.get?_cons]

@[simp] theorem nameText_titled (name : String) : nameText (titled name) = name := by
  rw [nameText, nameOf_titled]

theorem named_titled (names : List String) : ∀ es ∈ names.map titled, ∃ name, nameOf es = .ok name :=
  List.forall_mem_map.mpr fun name _ => ⟨name, nameOf_titled name⟩

theorem names_titled (names : List String) : (names.map titled).map nameText = names := by
  simp [Function.comp_def]

theorem keepsAll_filters :
    let objects := ["filter[a]", "page", "[x][b]", "filter[]", "sort[d"].map titled
    (∀ es ∈ objects, ∃ name, nameOf es = .ok name) ∧ (objects.map nameText).Nodup ∧
      ∃ ds, mergeBracketed (objects.map Value.dict) = .ok (ds.map Declared.toValue) ∧
        KeepsAll objects ds := by
  intro objects
  have hnamed : ∀ es ∈ objects, ∃ name, nameOf es = .ok name := named_titled _
  have hdistinct : (objects.map nameText).Nodup := by
    rw [names_titled]
    decide
  have hwhole : ∀ name ∈ ["filter[a]", "page", "[x][b]", "filter[]", "sort[d"],
      ∀ p ∈ property? name, name = p.1 ++ "[" ++ p.2 ++ "]" := by
    decide +kernel
  obtain ⟨ds, hds, -, hkept⟩ := keepsAll_iff hnamed hdistinct
  refine ⟨hnamed, hdistinct, ds, hds, hkept.mpr fun es hes object property rest hsplits => ?_⟩
  obtain ⟨name, hname, rfl⟩ := List.mem_map.mp hes
  rw [nameText_titled] at hsplits
  have hproperty := property?_eq_some_iff.mpr ⟨rest, hsplits⟩
  exact hsplits.rest_eq_empty (hwhole name hname (object, property) hproperty)

/-- What stands in a second pair of brackets is dropped. -/
theorem not_keepsAll_nested : ¬ ∀ objects : List (Entries Key Value),
    (∀ es ∈ objects, ∃ name, nameOf es = .ok name) → (objects.map nameText).Nodup →
      ∃ ds, mergeBracketed (objects.map Value.dict) = .ok (ds.map Declared.toValue) ∧
        KeepsAll objects ds := by
  intro h
  have hdistinct : ((["filter[a][b]", "filter[a][c]"].map titled).map nameText).Nodup := by
    rw [names_titled]
    decide
  obtain ⟨ds, -, hkept⟩ := h _ (named_titled _) hdistinct
  have hfirst : property? (nameText (titled "filter[a][b]")) = some ("filter", "a") := by
    rw [nameText_titled]
    decide +kernel
  have hsecond : property? (nameText (titled "filter[a][c]")) = some ("filter", "a") := by
    rw [nameText_titled]
    decide +kernel
  obtain ⟨rest, hfirst⟩ := property?_eq_some_iff.mp hfirst
  obtain ⟨more, hsecond⟩ := property?_eq_some_iff.mp hsecond
  have hsame := hkept.own _ List.mem_cons_self _ (List.mem_cons_of_mem _ List.mem_cons_self) _ _ _ _
    hfirst hsecond
  have hnames := congrArg nameText hsame
  rw [nameText_titled, nameText_titled] at hnames
  exact absurd hnames (by decide)

end Parameter

end OpenApi
