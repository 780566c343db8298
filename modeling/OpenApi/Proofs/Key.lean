import OpenApi.Proofs.Decimal.Binary64
import OpenApi.Proofs.Induction
/-! # Equality of keys

Two keys are equal if they have one form: numbers of all sorts take the form of what they count,
and times that of their instant. So equality of keys is an equivalence, and entries are found
again under every key that is equal to theirs. -/
namespace OpenApi

open Decimal (Binary64)
open Decimal.Binary64 (Amount)

namespace Number

def amount : Number → Amount
  | int n => .ofInt n
  | float x => (Binary64.ofFloat x).amount

theorem same_int_left {n : Int} {y : Number} :
    (int n).same y = true ↔ (int n).amount = y.amount := by
  cases y with
  | int m =>
    show (n == m) = true ↔ _
    rw [beq_iff_eq]
    exact Amount.ofInt_inj.symm
  | float y => exact Binary64.isInt_iff.trans eq_comm

theorem same_int_right {x : Number} {n : Int} :
    x.same (int n) = true ↔ x.amount = (int n).amount := by
  cases x with
  | int m => exact same_int_left
  | float x => exact Binary64.isInt_iff

end Number

namespace Key

inductive Form where
  | null
  | number (a : Amount)
  | str (s : String)
  | bytes (data : List UInt8)
  | date (d : Time.Date)
  | datetime (aware : Bool) (instant : Int)
  | tuple (items : List Form)

def form : Key → Form
  | null => .null
  | bool b => .number (boolNumber b).amount
  | int n => .number (.ofInt n)
  | float x => .number (Binary64.ofFloat x).amount
  | str s => .str s
  | bytes data => .bytes data
  | date d => .date d
  | datetime t => .datetime t.offset.isSome t.instant
  | tuple items => .tuple (forms items)
where
  forms : List Key → List Form
    | [] => []
    | k :: rest => form k :: forms rest

theorem same_float {x y : Float} :
    (float x).same (float y) = true ↔ (float x).form = (float y).form := by
  show (x == y || (x.isNaN && y.isNaN)) = true ↔ _
  rw [form, form, Form.number.injEq, Bool.or_eq_true, Bool.and_eq_true, Binary64.beq_iff,
    Binary64.isNaN_iff, Binary64.isNaN_iff]
  cases hx : x.isNaN with
  | false =>
    have hne : ¬ (Binary64.ofFloat x).amount = .nan := by
      rw [← Binary64.isNaN_iff, hx]
      exact Bool.false_ne_true
    exact ⟨fun h => h.elim (fun h => h.2) fun h => absurd h.1 hne, fun h => Or.inl ⟨rfl, h⟩⟩
  | true =>
    have hnan : (Binary64.ofFloat x).amount = .nan := Binary64.isNaN_iff.mp hx
    rw [hnan]
    exact ⟨fun h => h.elim (fun h => nomatch h.1) fun h => h.2.symm,
      fun h => Or.inr ⟨rfl, h.symm⟩⟩

theorem sameAll_iff {as bs : List Key}
    (h : ∀ a ∈ as, ∀ b, a.same b = true ↔ a.form = b.form) :
    same.sameAll as bs = true ↔ form.forms as = form.forms bs := by
  induction as generalizing bs with
  | nil => cases bs <;> simp [same.sameAll, form.forms]
  | cons a as ih =>
    cases bs with
    | nil => simp [same.sameAll, form.forms]
    | cons b bs =>
      obtain ⟨ha, has⟩ := List.forall_mem_cons.mp h
      rw [same.sameAll, form.forms, form.forms, Bool.and_eq_true, ha, ih has, List.cons.injEq]

theorem form_number_iff {x y : Number} (h : x.same y = true ↔ x.amount = y.amount) :
    x.same y = true ↔ Form.number x.amount = Form.number y.amount := by
  rw [h, Form.number.injEq]

theorem same_int_iff (n : Int) (b : Key) : (int n).same b = true ↔ (int n).form = b.form := by
  cases b with
  | bool c => exact form_number_iff (@Number.same_int_left n (boolNumber c))
  | int m => exact form_number_iff (@Number.same_int_left n (.int m))
  | float y => exact form_number_iff (@Number.same_int_left n (.float y))
  | _ => constructor <;> intro h <;> cases h

theorem same_iff (a b : Key) : a.same b = true ↔ a.form = b.form := by
  induction a generalizing b with
  | null => cases b <;> simp [same, number?, form]
  | bool n =>
    have h := same_int_iff (if n then 1 else 0) b
    cases b <;> exact h
  | int n => exact same_int_iff n b
  | float x =>
    cases b with
    | float y => exact same_float
    | bool c => exact form_number_iff (@Number.same_int_right (.float x) (if c then 1 else 0))
    | int m => exact form_number_iff (@Number.same_int_right (.float x) m)
    | _ => constructor <;> intro h <;> cases h
  | str s => cases b <;> simp [same, number?, form]
  | bytes data => cases b <;> simp [same, number?, form]
  | date d => cases b <;> simp [same, number?, form]
  | datetime t => cases b <;> simp [same, number?, form, Time.DateTime.same]
  | tuple items ih =>
    cases b with
    | tuple others =>
      rw [same, form, form, Form.tuple.injEq]
      exact sameAll_iff ih
    | _ => constructor <;> intro h <;> cases h

instance : EquivBEq Key where
  rfl {a} := (same_iff a a).mpr rfl
  symm {a b} h := (same_iff b a).mpr ((same_iff a b).mp h).symm
  trans {a b c} h k := (same_iff a c).mpr (((same_iff a b).mp h).trans ((same_iff b c).mp k))

theorem eq_str_of_beq {s : String} {k : Key} (h : (str s == k) = true) : k = str s := by
  have hform : (str s).form = k.form := (same_iff (str s) k).mp h
  cases k with
  | str t => rw [Form.str.inj hform]
  | _ => cases hform

end Key

end OpenApi
