import OpenApi.Proofs.Query.Joined
import OpenApi.Proofs.Value.Nulls
/-! # Nulls among joined values

The values of one name are joined by separators. A null among them is an empty text between two of these, so
leaving it out leaves a separator out as well. Nulls further inside are part of a text. -/
namespace OpenApi.Query

theorem nullMarks_encodeComponent (s : String) : nullMarks (Text.encodeComponent s) = nullMarks s := by
  have hbyte : ∀ b, (Text.percentByte b).count 'N' = 0 := by
    intro b
    obtain ⟨hhigh, hlow⟩ := Text.digits_of_byte b
    have hdigit : ∀ n < 16, Text.upperHexDigit n ≠ 'N' := by decide
    simp [Text.percentByte, hdigit _ hhigh, hdigit _ hlow]
  have hchar : ∀ c, (Text.percentChar Text.isComponentSafe c).count 'N' = [c].count 'N' := by
    intro c
    unfold Text.percentChar
    split
    · rfl
    · next hsafe =>
      have hc : c ≠ 'N' := by
        rintro rfl
        exact hsafe (by decide)
      simp [List.count_flatMap, Function.comp_def, hbyte, hc]
  rw [nullMarks, nullMarks, Text.encodeComponent, String.toList_ofList, List.count_flatMap]
  induction s.toList with
  | nil => rfl
  | cons c cs ih =>
    rw [List.map_cons, List.sum_cons, ih, Function.comp_apply, hchar, ← List.count_append]
    rfl

def partText (x : String × Value) : String := x.1 ++ encode x.2

def keptParts (xs : List (String × Value)) : List (String × Value) :=
  (xs.filter fun x => x.2.kind ≠ .null).map fun x => (x.1, x.2.pruned)

theorem nullMarks_partText (x : String × Value) :
    nullMarks (partText x) = nullMarks x.1 + nullMarks x.2.wireText := by
  rw [partText, nullMarks_append, encode, nullMarks_encodeComponent]

section Joined

variable {separator : String} {xs : List (String × Value)}
  (h : joined separator (xs.map partText) = joined separator ((keptParts xs).map partText))

include h

/-- Where the kept parts measure no more than they did, they measure the same, and the others nothing. -/
theorem measures_of_joined_eq {μ : String → Nat} (hμ : ∀ s t, μ (s ++ t) = μ s + μ t)
    (hle : ∀ x ∈ xs, x.2.kind ≠ .null → μ (partText (x.1, x.2.pruned)) ≤ μ (partText x)) :
    (∀ x ∈ xs, μ (partText x) = if x.2.kind ≠ .null then μ (partText (x.1, x.2.pruned)) else 0) ∧
      (xs.length - 1) * μ separator =
        ((xs.filter fun x => x.2.kind ≠ .null).length - 1) * μ separator := by
  obtain ⟨hsum, heq⟩ := sum_filter_le (p := fun x : String × Value => x.2.kind ≠ .null)
    (f := fun x => μ (partText x)) (g := fun x => μ (partText (x.1, x.2.pruned))) (l := xs)
    fun x hx hn => hle x hx (by simpa using hn)
  have hmarks := congrArg μ h
  rw [measure_joined hμ, measure_joined hμ, keptParts] at hmarks
  simp only [List.map_map, List.length_map, Function.comp_def] at hmarks
  have hfewer := Nat.mul_le_mul_right (μ separator)
    (Nat.sub_le_sub_right (List.length_filter_le (fun x : String × Value => x.2.kind ≠ .null) xs) 1)
  refine ⟨fun x hx => ?_, by omega⟩
  have hall := heq (by omega) x hx
  simpa using hall

theorem isNullFree_of_joined_eq : ∀ x ∈ xs, x.2.kind ≠ .null → x.2.isNullFree = true := by
  obtain ⟨hmarks, -⟩ := measures_of_joined_eq h nullMarks_append fun x _ _ => by
    rw [nullMarks_partText, nullMarks_partText]
    exact Nat.add_le_add_left (Value.nullMarks_wireText_le x.2) _
  intro x hx hn
  have hall := hmarks x hx
  rw [if_pos hn, nullMarks_partText, nullMarks_partText] at hall
  exact Value.isNullFree_of_nullMarks hn (Nat.add_left_cancel hall).symm

/-- A null that is left out leaves fewer separators, unless it is the only part. -/
theorem eq_singleton_of_joined_eq (hs : separator ≠ "") {x : String × Value} (hx : x ∈ xs)
    (hnull : x.2.kind = .null) : xs = [("", .null)] := by
  have hfree := isNullFree_of_joined_eq h
  obtain ⟨hlengths, hcount⟩ := measures_of_joined_eq h (μ := String.length)
    String.length_append fun x hx hn => by
      rw [Value.pruned_of_isNullFree (hfree x hx hn)]
  have hpositive : 0 < separator.length := by
    rw [Nat.pos_iff_ne_zero]
    exact mt String.length_eq_zero_iff.mp hs
  have hplaces := Nat.eq_of_mul_eq_mul_right hpositive hcount
  have hfewer : (xs.filter fun x => x.2.kind ≠ .null).length < xs.length :=
    List.length_filter_lt_length_iff_exists.mpr ⟨x, hx, by simpa using hnull⟩
  obtain ⟨y, rfl⟩ := List.length_eq_one_iff.mp (show xs.length = 1 by omega)
  obtain rfl := List.mem_singleton.mp hx
  have hempty := hlengths x hx
  rw [if_neg (by simpa using hnull), String.length_eq_zero_iff, partText] at hempty
  obtain ⟨s, v⟩ := x
  cases v with
  | null => rw [show s = "" from (String.append_eq_empty_iff.mp hempty).1]
  | _ => cases hnull

end Joined

theorem keptParts_of_isNullFree {xs : List (String × Value)} (h : ∀ x ∈ xs, x.2.isNullFree = true) :
    keptParts xs = xs := by
  have hall : (xs.filter fun x => x.2.kind ≠ .null) = xs := by
    rw [List.filter_eq_self]
    intro x hx
    simpa using Value.kind_of_isNullFree (h x hx)
  have hsame : ∀ x ∈ xs, (x.1, x.2.pruned) = x := by
    intro x hx
    rw [Value.pruned_of_isNullFree (h x hx)]
  rw [keptParts, hall, List.map_congr_left hsame, List.map_id']

theorem joined_kept_iff {separator : String} (hs : separator ≠ "") (xs : List (String × Value)) :
    joined separator (xs.map partText) = joined separator ((keptParts xs).map partText) ↔
      (∀ x ∈ xs, x.2.isNullFree = true) ∨ xs = [("", .null)] := by
  constructor
  · intro h
    by_cases hall : ∀ x ∈ xs, x.2.kind ≠ .null
    · exact .inl fun x hx => isNullFree_of_joined_eq h x hx (hall x hx)
    · obtain ⟨x, hx, hnull⟩ : ∃ x ∈ xs, x.2.kind = .null := by simpa using hall
      exact .inr (eq_singleton_of_joined_eq h hs hx hnull)
  · rintro (hfree | rfl)
    · rw [keptParts_of_isNullFree hfree]
    · have hnone : keptParts [("", .null)] = [] := rfl
      have htext : partText ("", .null) = "" := by decide
      rw [hnone, List.map_singleton, htext]
      simp [joined]

/-- What is joined for a value: each member, or each key with a separator and the value behind it. -/
def parts (separator : String) : Value → List (String × Value)
  | .dict es => es.map fun e => (encodeKey e.1 ++ separator, e.2)
  | .list items => items.map fun v => ("", v)
  | .tuple items => items.map fun v => ("", v)
  | v => [("", v)]

theorem joined_pairs (separator : String) (es : Entries Key Value) :
    joined separator ((es.flatMap fun e => [e.1.toValue, e.2]).map encode) =
      joined separator (es.map fun e => encodeKey e.1 ++ separator ++ encode e.2) := by
  induction es with
  | nil => rfl
  | cons e rest ih =>
    cases rest with
    | nil => simp [joined, encodeKey, String.intercalate_cons_cons]
    | cons f rest =>
      rw [joined, joined] at ih ⊢
      simp only [List.flatMap_cons, List.map_cons, List.cons_append, List.nil_append,
        String.intercalate_cons_cons] at ih ⊢
      rw [ih]
      simp [encodeKey, String.append_assoc]

theorem joined_flatten (separator : String) (v : Value) :
    joined separator ((flatten v).map encode) =
      joined separator ((parts separator v).map partText) := by
  have hmember : ∀ v, partText ("", v) = encode v := fun v => String.empty_append
  cases v with
  | dict es =>
    rw [flatten, joined_pairs, parts, List.map_map]
    rfl
  | list items | tuple items => simp [flatten, parts, Function.comp_def, hmember]
  | _ => simp [flatten, parts, hmember]

theorem parts_pruned {v : Value} (hn : v.kind ≠ .null) (separator : String) :
    parts separator v.pruned = keptParts (parts separator v) := by
  cases v with
  | null => exact absurd rfl hn
  | dict es =>
    rw [Value.pruned_dict, parts, parts, keptParts, List.filter_map, List.map_map, Entries.pruned,
      Entries.mapValues, List.map_map]
    rfl
  | list items | tuple items =>
    rw [Value.pruned, Value.members_pruned, parts, parts, keptParts, List.filter_map, List.map_map,
      List.map_map]
    rfl
  | _ => rfl

/-- What of the value is joined under one name has no null in it. A list of nothing but a null is written
like an empty one. -/
def JoinsNoNull : Value → Prop
  | .list items => (∀ v ∈ items, v.isNullFree = true) ∨ items = [.null]
  | .tuple items => (∀ v ∈ items, v.isNullFree = true) ∨ items = [.null]
  | .dict es => ∀ e ∈ es, e.2.isNullFree = true
  | _ => True

theorem parts_null_free_iff {separator : String} (hs : separator ≠ "") {v : Value}
    (hn : v.kind ≠ .null) : ((∀ x ∈ parts separator v, x.2.isNullFree = true) ∨
      parts separator v = [("", .null)]) ↔ JoinsNoNull v := by
  have hmembers : ∀ items : List Value,
      items.map (fun v => ("", v)) = [("", Value.null)] ↔ items = [.null] := by
    intro items
    rw [List.map_eq_singleton_iff]
    simp
  cases v with
  | null => exact absurd rfl hn
  | dict es =>
    rw [parts, List.forall_mem_map, JoinsNoNull, or_iff_left]
    intro he
    obtain ⟨e, -, he⟩ := List.map_eq_singleton_iff.mp he
    exact hs (String.append_eq_empty_iff.mp (Prod.mk.inj he).1).2
  | list items | tuple items => rw [parts, List.forall_mem_map, hmembers, JoinsNoNull]
  | _ => simp [parts, JoinsNoNull, Value.isNullFree]

theorem joined_pruned_iff {separator : String} (hs : separator ≠ "") {v : Value} (hn : v.kind ≠ .null) :
    joined separator ((flatten v).map encode) = joined separator ((flatten v.pruned).map encode) ↔
      JoinsNoNull v := by
  rw [joined_flatten, joined_flatten, parts_pruned hn, joined_kept_iff hs, parts_null_free_iff hs hn]

theorem filter_pruned (params : Entries Key Value) :
    (params.pruned.filter fun e => e.2.kind ≠ .null) = params.pruned := by
  rw [List.filter_eq_self]
  intro e he
  obtain ⟨d, hd, rfl⟩ := List.mem_map.mp he
  simpa [Value.kind_pruned] using (List.mem_filter.mp hd).2

def delimitedField (separator : String) (e : Key × Value) : String :=
  encodeKey e.1 ++ "=" ++ joined separator ((flatten e.2).map encode)

theorem delimitedField_ok {separator : String} (hs : '&' ∉ separator.toList) (e : Key × Value) :
    delimitedField separator e ≠ "" ∧ '&' ∉ (delimitedField separator e).toList := by
  have hencode : ∀ v, '&' ∉ (encode v).toList := fun v => Text.not_mem_encodeComponent (by decide) _
  constructor
  · simp [delimitedField]
  · rw [delimitedField, String.toList_append, String.toList_append, List.mem_append, List.mem_append,
      not_or, not_or]
    exact ⟨⟨hencode _, by decide⟩, not_mem_joined_of hs (List.forall_mem_map.mpr fun v _ => hencode v)⟩

theorem delimited_pruned_iff {separator : String} (hs : separator ≠ "") (hm : '&' ∉ separator.toList)
    (params : Entries Key Value) : delimited separator params = delimited separator params.pruned ↔
      ∀ e ∈ params, JoinsNoNull e.2 := by
  have hfields : ∀ es : Entries Key Value,
      ∀ f ∈ es.map (delimitedField separator), f ≠ "" ∧ '&' ∉ f.toList :=
    fun es => List.forall_mem_map.mpr fun e _ => delimitedField_ok hm e
  have hdelimited : ∀ es : Entries Key Value, delimited separator es =
      joined "&" ((es.filter fun e => e.2.kind ≠ .null).map (delimitedField separator)) := fun _ => rfl
  rw [hdelimited, hdelimited, filter_pruned, Entries.pruned, Entries.mapValues, List.map_map]
  have hpointwise : (∀ e ∈ params, JoinsNoNull e.2) ↔
      ∀ e ∈ params.filter fun e => e.2.kind ≠ .null,
        delimitedField separator e = delimitedField separator (e.1, e.2.pruned) := by
    constructor
    · intro h e he
      obtain ⟨he, hn⟩ := List.mem_filter.mp he
      rw [delimitedField, delimitedField, (joined_pruned_iff hs (by simpa using hn)).mpr (h e he)]
    · intro h e he
      by_cases hn : e.2.kind = .null
      · cases hv : e.2 with
        | null => trivial
        | _ =>
          rw [hv] at hn
          cases hn
      · have hfield := h e (List.mem_filter.mpr ⟨he, by simpa using hn⟩)
        rw [delimitedField, delimitedField, String.append_right_inj] at hfield
        exact (joined_pruned_iff hs hn).mp hfield
  rw [hpointwise, ← List.map_inj_left]
  constructor
  · intro h
    exact joined_unique (hfields _) (List.forall_mem_map.mpr fun e _ => delimitedField_ok hm _) h
  · intro h
    rw [h]
    rfl

end OpenApi.Query
