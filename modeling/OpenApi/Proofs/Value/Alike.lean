import OpenApi.Proofs.Value.Wire
/-! # Values that are alike

Two values are alike if they are put together in the same way, without regard to the order of keys, and have
related scalars at the same places. Values are equal if they are alike with scalars that count the same. They
are identical if the scalars are of one sort as well: a truth value, an integer and a float are three scalars
whatever they count. The two differ where a scalar has a twin, which is an equal scalar of another sort. -/
namespace OpenApi

open Decimal (Binary64)

namespace Value

def isContainer : Value → Bool
  | list _ | dict _ => true
  | _ => false

def leaves : Value → List Value
  | list items => all items
  | dict es => entries es
  | v => [v]
where
  all : List Value → List Value
    | [] => []
    | v :: rest => leaves v ++ all rest
  entries : List (Key × Value) → List Value
    | [] => []
    | (_, v) :: rest => leaves v ++ entries rest

theorem mem_leaves_list {items : List Value} {w : Value} :
    w ∈ (list items).leaves ↔ ∃ v ∈ items, w ∈ v.leaves := by
  rw [leaves]
  induction items with
  | nil => simp [leaves.all]
  | cons v rest ih => rw [leaves.all, List.mem_append, ih, List.exists_mem_cons_iff]

theorem mem_leaves_dict {es : Entries Key Value} {w : Value} :
    w ∈ (dict es).leaves ↔ ∃ e ∈ es, w ∈ e.2.leaves := by
  rw [leaves]
  induction es with
  | nil => simp [leaves.entries]
  | cons e rest ih => rw [leaves.entries, List.mem_append, ih, List.exists_mem_cons_iff]

/-- Values that are put together in the same way from related scalars. -/
inductive Alike (R : Value → Value → Prop) : Value → Value → Prop
  | scalar {v w : Value} (left : v.isContainer = false) (right : w.isContainer = false) (h : R v w) :
      Alike R v w
  | list {items items' : List Value} (h : List.Forall₂ (Alike R) items items') :
      Alike R (.list items) (.list items')
  | dict {es fs : Entries Key Value} (keys : ∀ k, es.has k = fs.has k)
      (values : ∀ k v w, es.get? k = some v → fs.get? k = some w → Alike R v w) :
      Alike R (.dict es) (.dict fs)

section Alike

variable {R S : Value → Value → Prop} {v w : Value}

theorem Alike.of_scalar (h : Alike R v w) (hw : w.isContainer = false) : v.isContainer = false ∧ R v w := by
  cases h with
  | scalar left _ h => exact ⟨left, h⟩
  | list _ => cases hw
  | dict _ _ => cases hw

theorem Alike.list_right {items' : List Value} (h : Alike R v (.list items')) :
    ∃ items, v = .list items ∧ List.Forall₂ (Alike R) items items' := by
  cases h with
  | scalar _ right _ => cases right
  | list h => exact ⟨_, rfl, h⟩

theorem Alike.dict_right {fs : Entries Key Value} (h : Alike R v (.dict fs)) :
    ∃ es : Entries Key Value, v = .dict es ∧ (∀ k, es.has k = fs.has k) ∧
      ∀ k v w, es.get? k = some v → fs.get? k = some w → Alike R v w := by
  cases h with
  | scalar _ right _ => cases right
  | dict keys values => exact ⟨_, rfl, keys, values⟩

theorem Alike.kind_eq (h : Alike R v w) (hw : w.isContainer = true) : v.kind = w.kind := by
  cases h with
  | scalar _ right _ =>
    rw [hw] at right
    cases right
  | list _ => rfl
  | dict _ _ => rfl

/-- Scalars may be related in another way if that is so of the ones that occur. -/
theorem Alike.imp (h : Alike R v w) (hRS : ∀ u ∈ w.leaves, ∀ t, R t u → S t u) : Alike S v w := by
  induction w generalizing v with
  | list items' ih =>
    obtain ⟨items, rfl, hitems⟩ := h.list_right
    refine .list (forall₂_of_right_members hitems fun w hw v hvw => ih w hw hvw fun u hu => ?_)
    exact hRS u (mem_leaves_list.2 ⟨w, hw, hu⟩)
  | dict fs ih =>
    obtain ⟨es, rfl, hkeys, hvalues⟩ := h.dict_right
    refine .dict hkeys fun k v w hv hw => ?_
    obtain ⟨f, hf, -, rfl⟩ := Entries.mem_of_get? hw
    exact ih f hf (hvalues k v f.2 hv hw) fun u hu => hRS u (mem_leaves_dict.2 ⟨f, hf, hu⟩)
  | _ =>
    obtain ⟨hv, hR⟩ := h.of_scalar rfl
    exact .scalar hv rfl (hRS _ (List.mem_singleton_self _) v hR)

theorem Alike.refl (h : ∀ u ∈ v.leaves, R u u) : Alike R v v := by
  induction v with
  | list items ih =>
    exact .list (List.forall₂_same.2 fun v hv => ih v hv fun u hu => h u (mem_leaves_list.2 ⟨v, hv, hu⟩))
  | dict es ih =>
    refine .dict (fun _ => rfl) fun k v w hv hw => ?_
    obtain rfl := Option.some.inj (hv.symm.trans hw)
    obtain ⟨e, he, -, rfl⟩ := Entries.mem_of_get? hv
    exact ih e he fun u hu => h u (mem_leaves_dict.2 ⟨e, he, hu⟩)
  | _ => exact .scalar rfl rfl (h _ (List.mem_singleton_self _))

end Alike

/-- One scalar of one sort. A zero is one float whatever its sign. -/
inductive SameScalar : Value → Value → Prop
  | null : SameScalar .null .null
  | bool (b : Bool) : SameScalar (.bool b) (.bool b)
  | int (n : Int) : SameScalar (.int n) (.int n)
  | float {x y : Float} (h : (Binary64.ofFloat x).amount = (Binary64.ofFloat y).amount) :
      SameScalar (.float x) (.float y)
  | str (s : String) : SameScalar (.str s) (.str s)

inductive EqualScalar : Value → Value → Prop
  | null : EqualScalar .null .null
  | number {v w : Value} {x y : Number} (left : v.number? = some x) (right : w.number? = some y)
      (h : x.amount = y.amount) : EqualScalar v w
  | str (s : String) : EqualScalar (.str s) (.str s)

/-- The values count the same at every place. -/
def Equal (v w : Value) : Prop := Alike EqualScalar v w

/-- The same value: truth values, integers and floats are told apart at every depth. -/
def Identical (v w : Value) : Prop := Alike SameScalar v w

/-- Another sort of scalar has one that counts the same. -/
def HasTwin : Value → Prop
  | bool _ => True
  | int n => ∃ x : Float, (Binary64.ofFloat x).isInt n = true
  | float x => ∃ n, (Binary64.ofFloat x).isInt n = true
  | _ => False

variable {v w : Value}

theorem SameScalar.equal (h : SameScalar v w) : EqualScalar v w := by
  cases h with
  | null => exact .null
  | bool b => exact .number rfl rfl rfl
  | int n => exact .number rfl rfl rfl
  | float h => exact .number rfl rfl h
  | str s => exact .str s

theorem boolNumber_amount_inj {b c : Bool} (h : (boolNumber b).amount = (boolNumber c).amount) : b = c := by
  have hcount := Binary64.Amount.ofInt_inj.mp h
  cases b <;> cases c <;> first | rfl | cases hcount

theorem exists_float_boolNumber (b : Bool) :
    ∃ x : Float, (Binary64.ofFloat x).isInt (if b then 1 else 0) = true := by
  cases b with
  | false => exact ⟨Float.ofBits 0, by decide +kernel⟩
  | true => exact ⟨Float.ofBits 0x3ff0000000000000, by decide +kernel⟩

theorem number_cases {motive : Value → Number → Prop} (bool : ∀ b, motive (.bool b) (boolNumber b))
    (int : ∀ n, motive (.int n) (.int n)) (float : ∀ x, motive (.float x) (.float x)) {x : Number}
    (h : v.number? = some x) : motive v x := by
  cases v with
  | bool b =>
    cases h
    exact bool b
  | int n =>
    cases h
    exact int n
  | float y =>
    cases h
    exact float y
  | _ => cases h

theorem isContainer_of_number {x : Number} (h : v.number? = some x) : v.isContainer = false :=
  number_cases (motive := fun v _ => v.isContainer = false) (fun _ => rfl) (fun _ => rfl) (fun _ => rfl) h

theorem isJson_of_number {x : Number} (h : v.number? = some x) : v.isJson = true :=
  number_cases (motive := fun v _ => v.isJson = true) (fun _ => rfl) (fun _ => rfl) (fun _ => rfl) h

theorem EqualScalar.isJson (h : EqualScalar v w) : v.isJson = true := by
  cases h with
  | null => rfl
  | number left _ _ => exact isJson_of_number left
  | str s => rfl

theorem EqualScalar.isContainer (h : EqualScalar v w) : v.isContainer = false := by
  cases h with
  | null => rfl
  | number left _ _ => exact isContainer_of_number left
  | str s => rfl

theorem SameScalar.kind_eq (h : SameScalar v w) : v.kind = w.kind := by cases h <;> rfl

theorem EqualScalar.same (h : EqualScalar v w) (hkind : v.kind = w.kind) : SameScalar v w := by
  cases h with
  | null => exact .null
  | str s => exact .str s
  | number left right h =>
    cases v with
    | bool b =>
      cases w with
      | bool c =>
        cases left
        cases right
        rw [boolNumber_amount_inj h]
        exact .bool c
      | _ => cases hkind
    | int m =>
      cases w with
      | int n =>
        cases left
        cases right
        rw [Binary64.Amount.ofInt_inj.mp h]
        exact .int n
      | _ => cases hkind
    | float x =>
      cases w with
      | float y =>
        cases left
        cases right
        exact .float h
      | _ => cases hkind
    | _ => cases left

theorem EqualScalar.same_of_no_twin (h : EqualScalar v w) (hw : ¬ w.HasTwin) : SameScalar v w := by
  refine h.same ?_
  cases h with
  | null => rfl
  | str s => rfl
  | number left right h =>
    cases w with
    | bool c => exact absurd trivial hw
    | int n =>
      cases right
      cases v with
      | bool b =>
        cases left
        obtain rfl := Binary64.Amount.ofInt_inj.mp h
        exact absurd (exists_float_boolNumber b) hw
      | int m => rfl
      | float x =>
        cases left
        exact absurd ⟨x, Binary64.isInt_iff.mpr h⟩ hw
      | _ => cases left
    | float y =>
      cases right
      cases v with
      | bool b =>
        cases left
        exact absurd ⟨_, Binary64.isInt_iff.mpr h.symm⟩ hw
      | int m =>
        cases left
        exact absurd ⟨m, Binary64.isInt_iff.mpr h.symm⟩ hw
      | float x => rfl
      | _ => cases left
    | _ => cases right

theorem HasTwin.exists_equal (h : w.HasTwin) : ∃ v, EqualScalar v w ∧ ¬ SameScalar v w := by
  cases w with
  | bool c => exact ⟨.int (if c then 1 else 0), .number rfl rfl rfl, nofun⟩
  | int n =>
    obtain ⟨x, hx⟩ := h
    exact ⟨.float x, .number rfl rfl (Binary64.isInt_iff.mp hx), nofun⟩
  | float x =>
    obtain ⟨n, hn⟩ := h
    exact ⟨.int n, .number rfl rfl (Binary64.isInt_iff.mp hn).symm, nofun⟩
  | _ => cases h

theorem Identical.equal (h : v.Identical w) : v.Equal w := h.imp fun _ _ _ hsame => hsame.equal

theorem Identical.kind_eq (h : v.Identical w) : v.kind = w.kind := by
  cases hw : w.isContainer with
  | false => exact (Alike.of_scalar h hw).2.kind_eq
  | true => exact Alike.kind_eq h hw

theorem equalScalar_refl (h : v.isJson = true) (hv : v.isContainer = false) : EqualScalar v v := by
  cases v with
  | null => exact .null
  | str s => exact .str s
  | bool b => exact .number rfl rfl rfl
  | int n => exact .number rfl rfl rfl
  | float x => exact .number rfl rfl rfl
  | list items => cases hv
  | dict es => cases hv
  | _ => cases h

theorem isJson_of_leaf (hv : v.isJson = true) (hw : w ∈ v.leaves) :
    w.isJson = true ∧ w.isContainer = false := by
  induction v with
  | list items ih =>
    obtain ⟨u, hu, hw⟩ := mem_leaves_list.mp hw
    exact ih u hu (isJson_list.1 hv u hu) hw
  | dict es ih =>
    obtain ⟨e, he, hw⟩ := mem_leaves_dict.mp hw
    exact ih e he ((isJson_dict.1 hv).2 e he).2 hw
  | _ =>
    obtain rfl := List.mem_singleton.mp hw
    exact ⟨hv, rfl⟩

theorem Equal.refl (hv : v.isJson = true) : v.Equal v :=
  Alike.refl fun _ hu => equalScalar_refl (isJson_of_leaf hv hu).1 (isJson_of_leaf hv hu).2

/-- An equal value that is not the same. -/
structure IsLookalike (v w : Value) : Prop where
  isJson : v.isJson = true
  equal : v.Equal w
  differs : ¬ v.Identical w

theorem IsLookalike.list {before after : List Value} (h : v.IsLookalike w)
    (hlist : (Value.list (before ++ w :: after)).isJson = true) :
    (Value.list (before ++ v :: after)).IsLookalike (.list (before ++ w :: after)) := by
  obtain ⟨hbefore, hrest⟩ := List.forall_mem_append.mp (isJson_list.mp hlist)
  have hafter := (List.forall_mem_cons.mp hrest).2
  constructor
  case isJson =>
    exact isJson_list.mpr (List.forall_mem_append.mpr ⟨hbefore, List.forall_mem_cons.mpr ⟨h.isJson, hafter⟩⟩)
  case equal =>
    have hfront : List.Forall₂ Equal before before := List.forall₂_same.2 fun u hu => .refl (hbefore u hu)
    have hback : List.Forall₂ Equal after after := List.forall₂_same.2 fun u hu => .refl (hafter u hu)
    exact .list (List.rel_append hfront (.cons h.equal hback))
  case differs =>
    intro hsame
    obtain ⟨items, hitems, hall⟩ := Alike.list_right hsame
    cases hitems
    have hback := List.forall₂_drop_append _ _ _ hall
    rw [List.drop_left] at hback
    exact h.differs (List.forall₂_cons.mp hback).1

theorem IsLookalike.dict {es : Entries Key Value} {e : Key × Value} (h : v.IsLookalike e.2) (he : e ∈ es)
    (hdict : (Value.dict es).isJson = true) : (Value.dict (es.put e.1 v)).IsLookalike (.dict es) := by
  obtain ⟨hdistinct, hall⟩ := isJson_dict.mp hdict
  have hold : es.get? e.1 = some e.2 := Entries.get?_of_distinct hdistinct he
  have hkeys : (es.put e.1 v).keys = es.keys := Entries.keys_put_of_present (Option.isSome_of_eq_some hold) v
  constructor
  case isJson =>
    refine isJson_dict.mpr ⟨by rwa [Entries.Distinct, hkeys], fun d hd => ⟨?_, ?_⟩⟩
    · have hkey : d.1 ∈ es.keys := hkeys ▸ List.mem_map_of_mem hd
      obtain ⟨f, hf, hfd⟩ := List.mem_map.mp hkey
      rw [← hfd]
      exact (hall f hf).1
    · rcases Entries.mem_put hd with hd | hd
      · exact (hall d hd).2
      · rw [hd]
        exact h.isJson
  case equal =>
    refine .dict (Entries.has_eq_of_keys hkeys) fun k u t hu ht => ?_
    rw [Entries.get?_put] at hu
    split at hu
    · next hk =>
      rw [Entries.get?_congr es hk, hold] at ht
      rw [← Option.some.inj hu, ← Option.some.inj ht]
      exact h.equal
    · rw [Option.some.inj (hu.symm.trans ht)]
      exact Equal.refl (isJson_of_get? hdict ht)
  case differs =>
    intro hsame
    obtain ⟨fs, hfs, -, hvalues⟩ := Alike.dict_right hsame
    cases hfs
    have hnew : (es.put e.1 v).get? e.1 = some v := by rw [Entries.get?_put, if_pos BEq.rfl]
    exact h.differs (hvalues e.1 v e.2 hnew hold)

/-- A twin of one scalar in the place of that scalar makes a lookalike. -/
theorem exists_lookalike (hv : v.isJson = true) (hw : w ∈ v.leaves) (htwin : w.HasTwin) :
    ∃ u : Value, u.IsLookalike v := by
  induction v with
  | list items ih =>
    obtain ⟨item, hitem, hw⟩ := mem_leaves_list.mp hw
    obtain ⟨u, hu⟩ := ih item hitem (isJson_list.1 hv item hitem) hw
    obtain ⟨before, after, rfl⟩ := List.append_of_mem hitem
    exact ⟨_, hu.list hv⟩
  | dict es ih =>
    obtain ⟨e, he, hw⟩ := mem_leaves_dict.mp hw
    obtain ⟨u, hu⟩ := ih e he ((isJson_dict.1 hv).2 e he).2 hw
    exact ⟨_, hu.dict he hv⟩
  | _ =>
    obtain rfl := List.mem_singleton.mp hw
    obtain ⟨u, hequal, hnot⟩ := htwin.exists_equal
    exact ⟨u, hequal.isJson, .scalar hequal.isContainer rfl hequal, fun h => hnot (Alike.of_scalar h rfl).2⟩

end Value

end OpenApi
