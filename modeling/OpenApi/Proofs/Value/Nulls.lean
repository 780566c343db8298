import OpenApi.Proofs.Entries
import OpenApi.Proofs.Key
import Mathlib.Algebra.BigOperators.Group.List.Basic
/-! # Nulls inside a value

A null is taken out of a list or a mapping together with its place, and so on at every depth. The text of a
value shows each null in it, so the text stays what it was only if no null was there. -/
namespace OpenApi

namespace Value

/-- The value without the nulls in its lists, tuples and mappings, at every depth. -/
def pruned : Value → Value
  | list items => .list (members items)
  | tuple items => .tuple (members items)
  | dict es => .dict (entries es)
  | v => v
where
  members : List Value → List Value
    | [] => []
    | .null :: rest => members rest
    | v :: rest => pruned v :: members rest
  entries : List (Key × Value) → List (Key × Value)
    | [] => []
    | (_, .null) :: rest => entries rest
    | (k, v) :: rest => (k, pruned v) :: entries rest

def isNullFree : Value → Bool
  | null => false
  | list items => all items
  | tuple items => all items
  | dict es => allEntries es
  | _ => true
where
  all : List Value → Bool
    | [] => true
    | v :: rest => isNullFree v && all rest
  allEntries : List (Key × Value) → Bool
    | [] => true
    | (_, v) :: rest => isNullFree v && allEntries rest

theorem members_pruned (items : List Value) :
    pruned.members items = (items.filter fun v => v.kind ≠ .null).map pruned := by
  induction items with
  | nil => rfl
  | cons v rest ih =>
    cases v with
    | null => exact ih
    | _ => exact congrArg (_ :: ·) ih

end Value

def Entries.pruned (es : Entries Key Value) : Entries Key Value :=
  mapValues Value.pruned (es.filter fun e => e.2.kind ≠ .null)

theorem Entries.pruned_cons {v : Value} (hn : v.kind ≠ .null) (k : Key) (rest : Entries Key Value) :
    pruned ((k, v) :: rest) = (k, v.pruned) :: pruned rest := by
  rw [pruned, List.filter_cons_of_pos (by simpa using hn)]
  rfl

namespace Value

theorem entries_pruned (es : Entries Key Value) : pruned.entries es = es.pruned := by
  induction es with
  | nil => rfl
  | cons e rest ih =>
    obtain ⟨k, v⟩ := e
    cases v with
    | null => exact ih
    | _ => exact congrArg (_ :: ·) ih

theorem pruned_dict (es : Entries Key Value) : (dict es).pruned = .dict es.pruned := by
  rw [pruned, entries_pruned]

theorem isNullFree_members {items : List Value} :
    isNullFree.all items = true ↔ ∀ v ∈ items, v.isNullFree = true := by
  induction items with
  | nil => simp [isNullFree.all]
  | cons v rest ih => rw [isNullFree.all, Bool.and_eq_true, ih, List.forall_mem_cons]

theorem isNullFree_dict {es : Entries Key Value} :
    (dict es).isNullFree = true ↔ ∀ e ∈ es, e.2.isNullFree = true := by
  rw [isNullFree]
  induction es with
  | nil => simp [isNullFree.allEntries]
  | cons e rest ih => rw [isNullFree.allEntries, Bool.and_eq_true, ih, List.forall_mem_cons]

theorem kind_of_isNullFree {v : Value} (h : v.isNullFree = true) : v.kind ≠ .null := by
  cases v with
  | null => cases h
  | _ => exact Kind.noConfusion

end Value

/-- What is kept of a list measures less, unless all that is left out measures nothing. -/
theorem sum_filter_le {α : Type} {p : α → Bool} {f g : α → Nat} {l : List α}
    (h : ∀ a ∈ l, p a = true → g a ≤ f a) :
    ((l.filter p).map g).sum ≤ (l.map f).sum ∧
      (((l.filter p).map g).sum = (l.map f).sum → ∀ a ∈ l, f a = if p a then g a else 0) := by
  induction l with
  | nil => simp
  | cons a l ih =>
    obtain ⟨ha, hl⟩ := List.forall_mem_cons.mp h
    obtain ⟨hle, heq⟩ := ih hl
    rw [List.map_cons, List.sum_cons, List.forall_mem_cons]
    cases hp : p a with
    | true =>
      have hga := ha hp
      rw [List.filter_cons_of_pos hp, List.map_cons, List.sum_cons]
      refine ⟨by omega, fun hsum => ⟨?_, heq (by omega)⟩⟩
      rw [if_pos rfl]
      omega
    | false =>
      rw [List.filter_cons_of_neg (by simp [hp])]
      refine ⟨by omega, fun hsum => ⟨?_, heq (by omega)⟩⟩
      rw [if_neg Bool.false_ne_true]
      omega

theorem measure_joined {μ : String → Nat} (h : ∀ s t, μ (s ++ t) = μ s + μ t) (separator : String)
    (parts : List String) : μ (joined separator parts) =
      (parts.map μ).sum + (parts.length - 1) * μ separator := by
  induction parts with
  | nil =>
    have hempty := h "" ""
    rw [String.append_empty] at hempty
    simp [joined]
    omega
  | cons s parts ih =>
    cases parts with
    | nil => simp [joined]
    | cons t parts =>
      rw [joined, String.intercalate_cons_cons, h, h, ← joined, ih]
      simp only [List.map_cons, List.sum_cons, List.length_cons, Nat.add_sub_cancel, Nat.succ_mul]
      omega

/-- How often the letter stands in a text with which the literal of null begins. -/
def nullMarks (s : String) : Nat := s.toList.count 'N'

theorem nullMarks_append (s t : String) : nullMarks (s ++ t) = nullMarks s + nullMarks t := by
  rw [nullMarks, String.toList_append, List.count_append]
  rfl

theorem nullMarks_joined {separator : String} (h : nullMarks separator = 0) (parts : List String) :
    nullMarks (joined separator parts) = (parts.map nullMarks).sum := by
  rw [measure_joined nullMarks_append, h, Nat.mul_zero, Nat.add_zero]

namespace Value

theorem literals_eq (items : List Value) : literal.literals items = items.map literal := by
  induction items with
  | nil => rfl
  | cons v rest ih => rw [literal.literals, ih, List.map_cons]

theorem entryLiterals_eq (es : List (Key × Value)) :
    literal.entryLiterals es = es.map fun e => e.1.literal ++ ": " ++ e.2.literal := by
  induction es with
  | nil => rfl
  | cons e rest ih => rw [literal.entryLiterals, ih, List.map_cons]

theorem nullMarks_list (items : List Value) :
    nullMarks (list items).literal = (items.map fun v => nullMarks v.literal).sum := by
  have hopen : nullMarks "[" = 0 := by decide
  have hclose : nullMarks "]" = 0 := by decide
  rw [literal, nullMarks_append, nullMarks_append, hopen, hclose, nullMarks_joined (by decide),
    literals_eq, List.map_map, Nat.zero_add, Nat.add_zero]
  rfl

/-- The comma behind a single member of a tuple is no mark. -/
theorem nullMarks_tupleLiteral (parts : List String) :
    nullMarks (tupleLiteral parts) = (parts.map nullMarks).sum := by
  have hopen : nullMarks "(" = 0 := by decide
  have hclose : nullMarks ")" = 0 := by decide
  have hsingle : nullMarks ",)" = 0 := by decide
  unfold tupleLiteral
  split
  · rw [nullMarks_append, nullMarks_append, hopen, hsingle]
    simp
  · rw [nullMarks_append, nullMarks_append, hopen, hclose, nullMarks_joined (by decide), Nat.zero_add,
      Nat.add_zero]

theorem nullMarks_tuple (items : List Value) :
    nullMarks (tuple items).literal = (items.map fun v => nullMarks v.literal).sum := by
  rw [literal, nullMarks_tupleLiteral, literals_eq, List.map_map]
  rfl

theorem nullMarks_dict (es : Entries Key Value) : nullMarks (dict es).literal =
    (es.map fun e => nullMarks e.1.literal + nullMarks e.2.literal).sum := by
  have hopen : nullMarks "\x7b" = 0 := by decide
  have hclose : nullMarks "\x7d" = 0 := by decide
  have hcolon : nullMarks ": " = 0 := by decide
  rw [literal, nullMarks_append, nullMarks_append, hopen, hclose, nullMarks_joined (by decide),
    entryLiterals_eq, List.map_map, Nat.zero_add, Nat.add_zero]
  congr 2
  funext e
  simp only [Function.comp_apply, nullMarks_append, hcolon, Nat.add_zero]

/-- The literal of the pruned value has at most as many marks, and as many only if the value has no null. -/
def MarksNulls (v : Value) : Prop := nullMarks v.pruned.literal ≤ nullMarks v.literal ∧
  (nullMarks v.pruned.literal = nullMarks v.literal → v.kind ≠ .null → v.isNullFree = true)

theorem marksNulls_members {items : List Value} (h : ∀ v ∈ items, v.MarksNulls) :
    ((((items.filter fun v => v.kind ≠ .null).map pruned).map fun v => nullMarks v.literal).sum ≤
      (items.map fun v => nullMarks v.literal).sum) ∧
    ((((items.filter fun v => v.kind ≠ .null).map pruned).map fun v => nullMarks v.literal).sum =
      (items.map fun v => nullMarks v.literal).sum → ∀ v ∈ items, v.isNullFree = true) := by
  rw [List.map_map]
  obtain ⟨hle, heq⟩ := sum_filter_le (p := fun v => v.kind ≠ .null)
    (f := fun v : Value => nullMarks v.literal) (g := fun v : Value => nullMarks v.pruned.literal)
    (l := items) fun v hv _ => (h v hv).1
  refine ⟨hle, fun hsum v hv => ?_⟩
  have hmarks := heq hsum v hv
  by_cases hn : v.kind = .null
  · cases v with
    | null => exact absurd hmarks (by decide)
    | _ => cases hn
  · rw [if_pos (by simpa using hn)] at hmarks
    exact (h v hv).2 hmarks.symm hn

theorem marksNulls (v : Value) : v.MarksNulls := by
  induction v with
  | list items ih =>
    obtain ⟨hle, heq⟩ := marksNulls_members ih
    rw [MarksNulls, pruned, members_pruned, nullMarks_list, nullMarks_list, isNullFree,
      isNullFree_members]
    exact ⟨hle, fun hmarks _ => heq hmarks⟩
  | tuple items ih =>
    obtain ⟨hle, heq⟩ := marksNulls_members ih
    rw [MarksNulls, pruned, members_pruned, nullMarks_tuple, nullMarks_tuple, isNullFree,
      isNullFree_members]
    exact ⟨hle, fun hmarks _ => heq hmarks⟩
  | dict es ih =>
    obtain ⟨hle, heq⟩ := sum_filter_le (p := fun e : Key × Value => e.2.kind ≠ .null)
      (f := fun e => nullMarks e.1.literal + nullMarks e.2.literal)
      (g := fun e => nullMarks e.1.literal + nullMarks e.2.pruned.literal) (l := es)
      fun e he _ => Nat.add_le_add_left (ih e he).1 _
    rw [MarksNulls, pruned_dict, nullMarks_dict, nullMarks_dict, isNullFree_dict, Entries.pruned,
      Entries.mapValues, List.map_map]
    refine ⟨hle, fun hsum _ e he => ?_⟩
    have hmarks := heq hsum e he
    by_cases hn : e.2.kind = .null
    · have hone : nullMarks e.2.literal = 1 := by
        cases hv : e.2 with
        | null => decide
        | _ => simp [hv, kind] at hn
      rw [if_neg (by simpa using hn)] at hmarks
      omega
    · rw [if_pos (by simpa using hn)] at hmarks
      exact (ih e he).2 (by omega) hn
  | null => exact ⟨Nat.le_refl _, fun _ hn => absurd rfl hn⟩
  | _ => exact ⟨Nat.le_refl _, fun _ _ => rfl⟩

theorem pruned_of_isNullFree {v : Value} (h : v.isNullFree = true) : v.pruned = v := by
  have hmembers : ∀ items : List Value, (∀ v ∈ items, v.isNullFree = true) →
      (∀ v ∈ items, v.isNullFree = true → v.pruned = v) →
      (items.filter fun v => v.kind ≠ .null).map pruned = items := by
    intro items hfree ih
    have hall : (items.filter fun v => v.kind ≠ .null) = items := by
      rw [List.filter_eq_self]
      intro v hv
      simpa using kind_of_isNullFree (hfree v hv)
    rw [hall, List.map_congr_left fun v hv => ih v hv (hfree v hv), List.map_id']
  induction v with
  | list items ih => rw [pruned, members_pruned, hmembers items (isNullFree_members.mp h) ih]
  | tuple items ih => rw [pruned, members_pruned, hmembers items (isNullFree_members.mp h) ih]
  | dict es ih =>
    have hfree := isNullFree_dict.mp h
    have hall : (es.filter fun e => e.2.kind ≠ .null) = es := by
      rw [List.filter_eq_self]
      intro e he
      simpa using kind_of_isNullFree (hfree e he)
    have hentry : ∀ e ∈ es, (e.1, e.2.pruned) = e := fun e he => Prod.ext rfl (ih e he (hfree e he))
    rw [pruned_dict, Entries.pruned, hall, Entries.mapValues, List.map_congr_left hentry, List.map_id']
  | _ => rfl

theorem kind_pruned (v : Value) : v.pruned.kind = v.kind := by
  cases v <;> rfl

theorem nullMarks_wireText_le (v : Value) :
    nullMarks v.pruned.wireText ≤ nullMarks v.wireText := by
  cases v with
  | list items => exact (marksNulls (.list items)).1
  | tuple items => exact (marksNulls (.tuple items)).1
  | dict es => exact (marksNulls (.dict es)).1
  | _ => exact Nat.le_refl _

theorem isNullFree_of_nullMarks {v : Value} (hn : v.kind ≠ .null)
    (h : nullMarks v.pruned.wireText = nullMarks v.wireText) : v.isNullFree = true := by
  cases v with
  | null => exact absurd rfl hn
  | list items => exact (marksNulls (.list items)).2 h hn
  | tuple items => exact (marksNulls (.tuple items)).2 h hn
  | dict es => exact (marksNulls (.dict es)).2 h hn
  | _ => rfl

/-- The text of a value shows every null in it. -/
theorem wireText_pruned_iff {v : Value} (hn : v.kind ≠ .null) :
    v.wireText = v.pruned.wireText ↔ v.isNullFree = true := by
  constructor
  · intro h
    exact isNullFree_of_nullMarks hn (by rw [h])
  · intro h
    rw [pruned_of_isNullFree h]

end Value

namespace Entries

theorem pruned_of_isNullFree {es : Entries Key Value} (h : ∀ e ∈ es, e.2.isNullFree = true) :
    es.pruned = es := by
  have hsame := Value.pruned_of_isNullFree (Value.isNullFree_dict.mpr h)
  rw [Value.pruned_dict] at hsame
  exact Value.dict.inj hsame

theorem distinct_pruned {es : Entries Key Value} (h : es.Distinct) : es.pruned.Distinct := by
  have hsublist : (Entries.keys (es.filter fun e => e.2.kind ≠ .null)).Sublist es.keys :=
    List.filter_sublist.map Prod.fst
  rw [Distinct, Entries.pruned, keys_mapValues]
  exact h.sublist hsublist

theorem get?_pruned {es : Entries Key Value} (h : es.Distinct) (k : Key) :
    es.pruned.get? k = (es.get? k).bind fun v => if v.kind = .null then none else some v.pruned := by
  induction es with
  | nil => rfl
  | cons e rest ih =>
    have hrest := (List.pairwise_cons.mp h).2
    obtain ⟨l, v⟩ := e
    by_cases hn : v.kind = .null
    · have hskip : Entries.pruned ((l, v) :: rest) = Entries.pruned rest := by
        rw [Entries.pruned, List.filter_cons_of_neg (by simpa using hn)]
        rfl
      rw [hskip, ih hrest, get?_cons]
      by_cases hk : (k == l) = true
      · rw [if_pos hk, get?_tail_of_distinct h hk, Option.bind_some, if_pos hn]
        rfl
      · rw [if_neg hk]
    · rw [Entries.pruned_cons hn, get?_cons, get?_cons, ih hrest]
      by_cases hk : (k == l) = true
      · rw [if_pos hk, if_pos hk, Option.bind_some, if_neg hn]
      · rw [if_neg hk, if_neg hk]

theorem filter_keys_pruned (p : Key → Bool) (es : Entries Key Value) :
    (es.pruned.filter fun e => p e.1) = Entries.pruned (es.filter fun e => p e.1) := by
  rw [Entries.pruned, Entries.pruned, mapValues, mapValues, List.filter_map, List.filter_filter,
    List.filter_filter]
  simp only [Function.comp_def, Bool.and_comm]

end Entries

end OpenApi
