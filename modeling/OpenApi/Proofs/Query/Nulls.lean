import OpenApi.Proofs.Query.Delimited
import OpenApi.Proofs.Query.Repeated
/-! # Nulls in a query string

No way to write named values has anything for a null under a name of its own, but inside of values they
differ: joining writes an empty text for it, and where names are repeated it is left out, unless it is inside
a member of a list. Further values behind them are written with an empty text if they are null. -/
namespace OpenApi

namespace Query

theorem not_mem_formKey {c : Char} (hc : Text.isEncoded c = false) (k : Key) :
    c ∉ (formKey k).toList := by
  intro h
  have hencoded : Text.isEncoded c = true := by
    cases k with
    | bytes data =>
      rw [formKey, Text.encodeFormBytes, String.toList_ofList] at h
      obtain ⟨b, -, hb⟩ := List.mem_flatMap.mp h
      unfold Text.formByte at hb
      dsimp only at hb
      split at hb
      · rw [List.mem_singleton.mp hb]
        decide
      split at hb
      · next hsafe =>
        rw [List.mem_singleton.mp hb]
        simp [Text.isEncoded, Text.isComponentSafe, (Bool.and_eq_true_iff.mp hsafe).2]
      · exact Text.isEncoded_of_mem_percentByte hb
    | _ => exact Text.isEncoded_of_mem_form h
  rw [hc] at hencoded
  cases hencoded

theorem furtherField_ok (e : Key × Value) :
    furtherField e ≠ "" ∧ '&' ∉ (furtherField e).toList := by
  have htext : '&' ∉ (Text.encodeForm e.2.wireText).toList := by
    intro h
    exact absurd (Text.isEncoded_of_mem_form h) (by decide)
  constructor
  · simp [furtherField]
  · rw [furtherField, String.toList_append, String.toList_append, List.mem_append, List.mem_append,
      not_or, not_or]
    exact ⟨⟨not_mem_formKey (by decide) e.1, by decide⟩, htext⟩

theorem furtherField_eq_iff (k : Key) (v w : Value) :
    furtherField (k, v) = furtherField (k, w) ↔ v.wireText = w.wireText := by
  have hinjective : Function.Injective Text.encodeForm :=
    Function.LeftInverse.injective Text.decodeForm_encodeForm
  rw [furtherField, furtherField, String.append_right_inj]
  exact hinjective.eq_iff

theorem append_cons {base : String} {values defaults : Entries Key Value} {e : Key × Value}
    {es : Entries Key Value} (h : Entries.overlay defaults values = e :: es) :
    append base values defaults = base ++ ((if base.toList.contains '?' then "&" else "?") ++
      joined "&" ((e :: es).map furtherField)) := by
  rw [append, h, ← String.append_assoc]
  rfl

theorem append_eq_iff {base : String} {values values' defaults defaults' : Entries Key Value} :
    append base values defaults = append base values' defaults' ↔
      (Entries.overlay defaults values).map furtherField =
        (Entries.overlay defaults' values').map furtherField := by
  have hfields : ∀ es : Entries Key Value,
      ∀ f ∈ es.map furtherField, f ≠ "" ∧ '&' ∉ f.toList :=
    fun es => List.forall_mem_map.mpr fun e _ => furtherField_ok e
  have hmark : ∀ s : String, (if base.toList.contains '?' then "&" else "?") ++ s ≠ "" := by
    intro s h
    have hfirst := (String.append_eq_empty_iff.mp h).1
    split at hfirst
    all_goals exact absurd hfirst (by decide)
  have hbase : ∀ {values defaults : Entries Key Value}, Entries.overlay defaults values = [] →
      append base values defaults = base ++ "" := by
    intro values defaults h
    rw [append, h, String.append_empty]
  cases h : Entries.overlay defaults values with
  | nil =>
    cases h' : Entries.overlay defaults' values' with
    | nil => simp [hbase h, hbase h']
    | cons e es =>
      rw [hbase h, append_cons h', String.append_right_inj]
      exact iff_of_false (hmark _).symm (by simp)
  | cons e es =>
    cases h' : Entries.overlay defaults' values' with
    | nil =>
      rw [hbase h', append_cons h, String.append_right_inj]
      exact iff_of_false (hmark _) (by simp)
    | cons e' es' =>
      rw [append_cons h, append_cons h', String.append_right_inj, String.append_right_inj]
      exact ⟨joined_unique (hfields _) (hfields _), congrArg _⟩

theorem further_pruned_iff (es : Entries Key Value) :
    es.map furtherField = es.pruned.map furtherField ↔ ∀ e ∈ es, e.2.isNullFree = true := by
  constructor
  · intro h
    have hlength := congrArg List.length h
    rw [List.length_map, List.length_map, Entries.pruned, Entries.mapValues, List.length_map] at hlength
    have hkept := List.length_filter_eq_length_iff.mp hlength.symm
    have hall : (es.filter fun e => e.2.kind ≠ .null) = es := List.filter_eq_self.mpr hkept
    rw [Entries.pruned, hall, Entries.mapValues, List.map_map, List.map_inj_left] at h
    intro e he
    have hn : e.2.kind ≠ .null := by simpa using hkept e he
    exact (Value.wireText_pruned_iff hn).mp ((furtherField_eq_iff e.1 e.2 e.2.pruned).mp (h e he))
  · intro h
    rw [Entries.pruned_of_isNullFree h]

/-- The entry has no null, or it is a null on top of a default that is written without a text as well. -/
def AppendsNoNull (defaults : Entries Key Value) (e : Key × Value) : Prop :=
  e.2.isNullFree = true ∨
    e.2.kind = .null ∧ ∃ v, defaults.get? e.1 = some v ∧ v.wireText = ""

section Overlay

variable {values defaults : Entries Key Value} (hv : values.Distinct) (hd : defaults.Distinct)

include hv hd

/-- A default keeps its text if what stands on top of it has no null, or says as little as it does. -/
theorem wireText_default_iff {e d : Key × Value} (he : e ∈ values) (hdm : d ∈ defaults)
    (hk : (e.1 == d.1) = true) :
    ((values.get? d.1).getD d.2).wireText = ((values.pruned.get? d.1).getD d.2).wireText ↔
      AppendsNoNull defaults e := by
  have hvalue : values.get? d.1 = some e.2 := by
    rw [← Entries.get?_congr values hk]
    exact Entries.get?_of_distinct hv he
  have hdefault : defaults.get? e.1 = some d.2 := by
    rw [Entries.get?_congr defaults hk]
    exact Entries.get?_of_distinct hd hdm
  rw [Entries.get?_pruned hv, hvalue, Option.bind_some, Option.getD_some, AppendsNoNull, hdefault]
  by_cases hn : e.2.kind = .null
  · obtain ⟨k, v⟩ := e
    cases v with
    | null =>
      have hempty : Value.wireText .null = "" := rfl
      rw [if_pos hn, Option.getD_none, hempty]
      constructor
      · intro h
        exact .inr ⟨rfl, d.2, rfl, h.symm⟩
      · rintro (h | ⟨-, w, hw, hw'⟩)
        · cases h
        · rw [Option.some.inj hw, hw']
    | _ => cases hn
  · rw [if_neg hn, Option.getD_some, Value.wireText_pruned_iff hn]
    simp [hn]

theorem overlay_fields_iff : (Entries.overlay defaults values).map furtherField =
      (Entries.overlay defaults values.pruned).map furtherField ↔
    (∀ d ∈ defaults, ((values.get? d.1).getD d.2).wireText =
      ((values.pruned.get? d.1).getD d.2).wireText) ∧
      ∀ e ∈ values, defaults.has e.1 = false → e.2.isNullFree = true := by
  have hplaces : ∀ upper : Entries Key Value,
      ((defaults.map fun d => (d.1, (upper.get? d.1).getD d.2)).map furtherField).length =
        defaults.length := by
    intro upper
    rw [List.length_map, List.length_map]
  have hbehind := further_pruned_iff (values.filter fun e => !defaults.has e.1)
  simp only [List.mem_filter, Bool.not_eq_true', and_imp] at hbehind
  rw [Entries.overlay_eq_of_distinct hd hv,
    Entries.overlay_eq_of_distinct hd (Entries.distinct_pruned hv),
    Entries.filter_keys_pruned (fun k => !defaults.has k), List.map_append, List.map_append, ← hbehind]
  constructor
  · intro h
    obtain ⟨hdefaults, hothers⟩ := List.append_inj h ((hplaces _).trans (hplaces _).symm)
    rw [List.map_map, List.map_map, List.map_inj_left] at hdefaults
    exact ⟨fun d hdm => (furtherField_eq_iff d.1 _ _).mp (hdefaults d hdm), hothers⟩
  · rintro ⟨hdefaults, hothers⟩
    rw [hothers, List.map_map, List.map_map, List.map_congr_left fun d hdm => ?_]
    exact (furtherField_eq_iff d.1 _ _).mpr (hdefaults d hdm)

theorem overlay_pruned_iff : (Entries.overlay defaults values).map furtherField =
      (Entries.overlay defaults values.pruned).map furtherField ↔
    ∀ e ∈ values, AppendsNoNull defaults e := by
  rw [overlay_fields_iff hv hd]
  constructor
  · rintro ⟨hdefaults, hothers⟩ e he
    cases hfound : defaults.get? e.1 with
    | none => exact .inl (hothers e he (by rw [Entries.has, hfound]; rfl))
    | some w =>
      obtain ⟨d, hdm, hk, -⟩ := Entries.mem_of_get? hfound
      exact (wireText_default_iff hv hd he hdm hk).mp (hdefaults d hdm)
  · intro h
    constructor
    · intro d hdm
      cases hfound : values.get? d.1 with
      | none =>
        rw [Entries.get?_pruned hv, hfound]
        rfl
      | some w =>
        obtain ⟨e, he, hk, -⟩ := Entries.mem_of_get? hfound
        rw [← hfound]
        exact (wireText_default_iff hv hd he hdm (BEq.symm hk)).mpr (h e he)
    · intro e he hnew
      rcases h e he with hfree | ⟨-, w, hw, -⟩
      · exact hfree
      · rw [Entries.has, hw] at hnew
        cases hnew

end Overlay

end Query

def Formatter.LeavesOutNulls : Formatter → Value → Prop
  | form, v | space, v | pipe, v => Query.JoinsNoNull v
  | explode, v | deep, v => ∀ w ∈ Query.written v, w.isNullFree = true

theorem Formatter.write_pruned_iff (f : Formatter) (params : Entries Key Value) :
    f.write params = f.write params.pruned ↔ ∀ e ∈ params, f.LeavesOutNulls e.2 := by
  cases f with
  | form | space | pipe => exact Query.delimited_pruned_iff (by decide) (by decide) params
  | explode => exact Query.explode_pruned_iff params
  | deep => exact Query.deep_pruned_iff params

namespace Query

/-- Named values are written as they are without their nulls exactly if the formatter leaves out all of
these, which joining never does for a null beside others. Further values are exactly if none of them has a
null that says more, or less, than the default below it, and the defaults are if they have no null. -/
theorem writesNoNull_iff {values defaults : Entries Key Value} (hv : values.Distinct)
    (hd : defaults.Distinct) (base : String) :
    (∀ (f : Formatter) (params : Entries Key Value),
      f.write params = f.write params.pruned ↔ ∀ e ∈ params, f.LeavesOutNulls e.2) ∧
    (append base values defaults = append base values.pruned defaults ↔
      ∀ e ∈ values, AppendsNoNull defaults e) ∧
    ((∀ upper : Entries Key Value, append base upper defaults = append base upper defaults.pruned) ↔
      ∀ e ∈ defaults, e.2.isNullFree = true) := by
  refine ⟨Formatter.write_pruned_iff, ?_, ?_⟩
  · rw [append_eq_iff]
    exact overlay_pruned_iff hv hd
  · constructor
    · intro h
      exact (further_pruned_iff defaults).mp (append_eq_iff.mp (h []))
    · intro h upper
      rw [Entries.pruned_of_isNullFree h]

/-- Nulls under names, in a list and in a mapping. -/
def petParams : Entries Key Value :=
  [(.str "kind", .null), (.str "ids", .list [.int 1, .null, .int 2]),
    (.str "page", Value.object [("size", .null), ("number", .int 3)])]

theorem writesNoNull_iff_pets :
    let values : Entries Key Value := [(.str "sort", .null), (.str "q", .str "a b")]
    let defaults : Entries Key Value := [(.str "sort", .str ""), (.str "extended", .bool true)]
    values.Distinct ∧ defaults.Distinct ∧ explode petParams = explode petParams.pruned ∧
      form petParams ≠ form petParams.pruned ∧
      append "/pets" values defaults = append "/pets" values.pruned defaults ∧
      ∀ upper : Entries Key Value, append "/pets" upper defaults = append "/pets" upper defaults.pruned := by
  intro values defaults
  have hv : values.Distinct := by decide
  have hd : defaults.Distinct := by decide
  obtain ⟨hwrite, happend, hdefaults⟩ := writesNoNull_iff hv hd "/pets"
  have hleft : ∀ e ∈ petParams, ∀ v ∈ written e.2, v.isNullFree = true := by decide
  refine ⟨hv, hd, (hwrite .explode petParams).mpr hleft, ?_, happend.mpr ?_, hdefaults.mpr (by decide)⟩
  · intro h
    have hids := (hwrite .form petParams).mp h (.str "ids", .list [.int 1, .null, .int 2]) (by simp [petParams])
    simp [Formatter.LeavesOutNulls, JoinsNoNull, Value.isNullFree] at hids
  · simp [values, defaults, AppendsNoNull, Value.isNullFree, Value.kind, Value.wireText, Value.text,
      Entries.get?_cons]

/-- Two of three identifiers are joined with a third, empty one between them. -/
theorem not_writesNoNull_ids :
    ¬ ((∀ (f : Formatter) (params : Entries Key Value), f.write params = f.write params.pruned) ∧
      ∀ base (values defaults : Entries Key Value),
        append base values defaults = append base values.pruned defaults.pruned) := by
  rintro ⟨h, -⟩
  exact absurd (h .form [(.str "ids", .list [.int 1, .null, .int 2])]) (by decide +kernel)

end Query

end OpenApi
