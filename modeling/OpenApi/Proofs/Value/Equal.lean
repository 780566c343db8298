import OpenApi.Proofs.Value.Alike
/-! # Equality of values

Values that JSON has are equal exactly if they are put together in the same way from equal scalars. A float that
is not a number is equal to none, not even to itself. -/
namespace OpenApi

open Decimal (Binary64)

theorem forall₂_congr {α β : Type} {R S : α → β → Prop} {as : List α} {bs : List β}
    (h : ∀ a ∈ as, ∀ b ∈ bs, (R a b ↔ S a b)) : List.Forall₂ R as bs ↔ List.Forall₂ S as bs := by
  induction as generalizing bs with
  | nil => rw [List.forall₂_nil_left_iff, List.forall₂_nil_left_iff]
  | cons a as ih =>
    cases bs with
    | nil => exact iff_of_false nofun nofun
    | cons b bs =>
      obtain ⟨ha, has⟩ := List.forall_mem_cons.mp h
      obtain ⟨hab, -⟩ := List.forall_mem_cons.mp ha
      have hrest := ih fun c hc d hd => has c hc d (List.mem_cons_of_mem b hd)
      rw [List.forall₂_cons, List.forall₂_cons, hab, hrest]

theorem Number.same_iff {x y : Number} (hy : y.amount ≠ .nan) : x.same y = true ↔ x.amount = y.amount := by
  cases x with
  | int m => exact same_int_left
  | float x =>
    cases y with
    | int n => exact same_int_right
    | float y =>
      refine Binary64.beq_iff.trans ⟨fun h => h.2, fun h => ⟨?_, h⟩⟩
      rw [← Bool.not_eq_true, Binary64.isNaN_iff]
      exact fun hnan => hy (h.symm.trans hnan)

namespace Value

/-- A value that JSON has, all floats of which count something. -/
structure IsLiteral (v : Value) : Prop where
  isJson : v.isJson = true
  isNumber : ∀ x, .float x ∈ v.leaves → x.isNaN = false

variable {v w : Value}

theorem IsLiteral.of_mem {items : List Value} (h : (list items).IsLiteral) (hv : v ∈ items) : v.IsLiteral where
  isJson := isJson_list.1 h.isJson v hv
  isNumber x hx := h.isNumber x (mem_leaves_list.2 ⟨v, hv, hx⟩)

theorem IsLiteral.of_get? {es : Entries Key Value} (h : (dict es).IsLiteral) {k : Key}
    (hv : es.get? k = some v) : v.IsLiteral where
  isJson := isJson_of_get? h.isJson hv
  isNumber x hx := by
    obtain ⟨e, he, -, rfl⟩ := Entries.mem_of_get? hv
    exact h.isNumber x (mem_leaves_dict.2 ⟨e, he, hx⟩)

theorem IsLiteral.amount_ne_nan (h : w.IsLiteral) {y : Number} (hw : w.number? = some y) : y.amount ≠ .nan := by
  cases w with
  | bool c =>
    cases hw
    exact nofun
  | int n =>
    cases hw
    exact nofun
  | float x =>
    cases hw
    intro hnan
    have hfalse := h.isNumber x (List.mem_singleton_self _)
    rw [Binary64.isNaN_iff.mpr hnan] at hfalse
    cases hfalse
  | _ => cases hw

theorem same_number {x y : Number} (hv : v.number? = some x) (hw : w.number? = some y) :
    v.same w = x.same y := by
  cases v with
  | bool b => cases w <;> cases hv <;> cases hw <;> rfl
  | int n => cases w <;> cases hv <;> cases hw <;> rfl
  | float x => cases w <;> cases hv <;> cases hw <;> rfl
  | _ => cases hv

theorem number_of_same {y : Number} (hw : w.number? = some y) (h : v.same w = true) :
    ∃ x, v.number? = some x := by
  cases w with
  | bool c => cases v <;> first | exact ⟨_, rfl⟩ | cases h
  | int n => cases v <;> first | exact ⟨_, rfl⟩ | cases h
  | float x => cases v <;> first | exact ⟨_, rfl⟩ | cases h
  | _ => cases hw

theorem same_number_iff (h : w.IsLiteral) {y : Number} (hw : w.number? = some y) :
    v.same w = true ↔ EqualScalar v w := by
  constructor
  · intro hvw
    obtain ⟨x, hv⟩ := number_of_same hw hvw
    rw [same_number hv hw] at hvw
    exact .number hv hw ((Number.same_iff (h.amount_ne_nan hw)).mp hvw)
  · intro hvw
    cases hvw with
    | null => cases hw
    | number hv hw h' =>
      rw [same_number hv hw]
      exact (Number.same_iff (h.amount_ne_nan hw)).mpr h'
    | str s => cases hw

theorem same_null_iff : v.same .null = true ↔ EqualScalar v .null := by
  constructor
  · intro h
    cases v <;> first | exact .null | cases h
  · intro h
    cases h with
    | null => rfl
    | number _ hw _ => cases hw

theorem same_str_iff {s : String} : v.same (.str s) = true ↔ EqualScalar v (.str s) := by
  constructor
  · intro h
    cases v with
    | str t =>
      have hts : (t == s) = true := h
      rw [beq_iff_eq.mp hts]
      exact .str s
    | _ => cases h
  · intro h
    cases h with
    | str s => exact beq_iff_eq.mpr rfl
    | number _ hw _ => cases hw

theorem sameAll_iff {as bs : List Value} :
    same.sameAll as bs = true ↔ List.Forall₂ (fun v w => v.same w = true) as bs := by
  induction as generalizing bs with
  | nil => cases bs <;> simp [same.sameAll]
  | cons a as ih =>
    cases bs with
    | nil => simp [same.sameAll]
    | cons b bs => rw [same.sameAll, Bool.and_eq_true, ih, List.forall₂_cons]

theorem sameEntries_iff {es fs : Entries Key Value} : same.sameEntries es fs = true ↔
    ∀ e ∈ es, ∃ w, fs.get? e.1 = some w ∧ e.2.same w = true := by
  induction es with
  | nil => simp [same.sameEntries]
  | cons e es ih =>
    rw [same.sameEntries, Bool.and_eq_true, ih, List.forall_mem_cons]
    cases fs.get? e.1 <;> simp

section Mapping

variable {es fs : Entries Key Value}

theorem has_iff_mem (h : (dict es).isJson = true) {k : Key} : es.has k = true ↔ k ∈ es.keys := by
  rw [Entries.has, Entries.isSome_get?_eq_any, List.any_eq_true]
  constructor
  · rintro ⟨l, hl, hkl⟩
    obtain ⟨e, he, rfl⟩ := List.mem_map.mp hl
    have htext := ((isJson_dict.1 h).2 e he).1
    cases hk : e.1 with
    | str s =>
      rw [hk] at hkl hl
      rwa [Key.eq_str_of_beq (BEq.symm hkl)]
    | _ =>
      rw [hk] at htext
      cases htext
  · exact fun hk => ⟨k, hk, BEq.rfl⟩

theorem nodup_keys (h : (dict es).isJson = true) : es.keys.Nodup := by
  refine (isJson_dict.1 h).1.imp fun {k l} hkl heq => ?_
  rw [heq, BEq.rfl] at hkl
  cases hkl

theorem same_dict_iff (hes : (dict es).isJson = true) (hfs : (dict fs).isJson = true) :
    (dict es).same (dict fs) = true ↔ (∀ k, es.has k = fs.has k) ∧
      ∀ k v w, es.get? k = some v → fs.get? k = some w → v.same w = true := by
  rw [same, Bool.and_eq_true, beq_iff_eq, sameEntries_iff]
  constructor
  · rintro ⟨hlength, hall⟩
    have hsub : es.keys ⊆ fs.keys := by
      intro k hk
      obtain ⟨e, he, rfl⟩ := List.mem_map.mp hk
      obtain ⟨w, hw, -⟩ := hall e he
      exact (has_iff_mem hfs).mp (Option.isSome_of_eq_some hw)
    have hperm : es.keys.Perm fs.keys := by
      refine ((nodup_keys hes).subperm hsub).perm_of_length_le ?_
      rw [Entries.keys, Entries.keys, List.length_map, List.length_map, hlength]
    refine ⟨fun k => ?_, fun k v w hv hw => ?_⟩
    · rw [Bool.eq_iff_iff, has_iff_mem hes, has_iff_mem hfs, hperm.mem_iff]
    · obtain ⟨e, he, hk, rfl⟩ := Entries.mem_of_get? hv
      obtain ⟨u, hu, hsame⟩ := hall e he
      rw [Entries.get?_congr fs hk, hu] at hw
      rwa [← Option.some.inj hw]
  · rintro ⟨hkeys, hvalues⟩
    have hperm : es.keys.Perm fs.keys := by
      refine (List.perm_ext_iff_of_nodup (nodup_keys hes) (nodup_keys hfs)).2 fun k => ?_
      rw [← has_iff_mem hes, ← has_iff_mem hfs, hkeys]
    refine ⟨by simpa [Entries.keys] using hperm.length_eq, fun e he => ?_⟩
    have hv : es.get? e.1 = some e.2 := Entries.get?_of_distinct (isJson_dict.1 hes).1 he
    have hhas : fs.has e.1 = true := by
      rw [← hkeys]
      exact Option.isSome_of_eq_some hv
    obtain ⟨w, hw⟩ := Option.isSome_iff_exists.mp hhas
    exact ⟨w, hw, hvalues e.1 e.2 w hv hw⟩

theorem list_of_same {items' : List Value} (h : v.same (.list items') = true) : ∃ items, v = .list items := by
  cases v <;> first | exact ⟨_, rfl⟩ | cases h

theorem dict_of_same (h : v.same (.dict fs) = true) : ∃ es, v = .dict es := by
  cases v <;> first | exact ⟨_, rfl⟩ | cases h

end Mapping

theorem equal_scalar_iff (hw : w.isContainer = false) : v.Equal w ↔ EqualScalar v w :=
  ⟨fun h => (Alike.of_scalar h hw).2, fun h => .scalar h.isContainer hw h⟩

/-- Equality with a literal goes down to the scalars of both values. -/
theorem same_iff (hv : v.isJson = true) (hw : w.IsLiteral) : v.same w = true ↔ v.Equal w := by
  induction w generalizing v with
  | null => exact same_null_iff.trans (equal_scalar_iff rfl).symm
  | str s => exact same_str_iff.trans (equal_scalar_iff rfl).symm
  | bool c => exact (same_number_iff hw rfl).trans (equal_scalar_iff rfl).symm
  | int n => exact (same_number_iff hw rfl).trans (equal_scalar_iff rfl).symm
  | float x => exact (same_number_iff hw rfl).trans (equal_scalar_iff rfl).symm
  | list items' ih =>
    have hmembers : ∀ {items}, (list items).isJson = true →
        ((list items).same (.list items') = true ↔ List.Forall₂ Equal items items') := by
      intro items hjson
      rw [same, sameAll_iff]
      exact forall₂_congr fun u hu t ht => ih t ht (isJson_list.1 hjson u hu) (hw.of_mem ht)
    constructor
    · intro h
      obtain ⟨items, rfl⟩ := list_of_same h
      exact .list ((hmembers hv).mp h)
    · intro h
      obtain ⟨items, rfl, hitems⟩ := Alike.list_right h
      exact (hmembers hv).mpr hitems
  | dict fs ih =>
    have hmember : ∀ {k : Key} {u t : Value}, u.isJson = true → Entries.get? fs k = some t →
        (u.same t = true ↔ u.Equal t) := by
      intro k u t hu ht
      obtain ⟨f, hf, -, rfl⟩ := Entries.mem_of_get? ht
      exact ih f hf hu (hw.of_get? ht)
    constructor
    · intro h
      obtain ⟨es, rfl⟩ := dict_of_same h
      obtain ⟨hkeys, hvalues⟩ := (same_dict_iff hv hw.isJson).mp h
      exact .dict hkeys fun k u t hu ht => (hmember (isJson_of_get? hv hu) ht).mp (hvalues k u t hu ht)
    · intro h
      obtain ⟨es, rfl, hkeys, hvalues⟩ := Alike.dict_right h
      refine (same_dict_iff hv hw.isJson).mpr ⟨hkeys, fun k u t hu ht => ?_⟩
      exact (hmember (isJson_of_get? hv hu) ht).mpr (hvalues k u t hu ht)
  | _ => cases hw.isJson

end Value

end OpenApi
