import OpenApi.Entries
import OpenApi.Decimal.Binary64
import OpenApi.Time.Calendar
/-! # Values

The dynamic values that documents hold, that codecs decode and that requests carry. A mapping
is ordered and its keys are scalars or tuples of such; in a value that was read from JSON they
are strings. Numbers compare by what they count, whether they are written as a truth value, an
integer or a float.
-/
namespace OpenApi

open Decimal (Binary64)
open Time (Date DateTime)

inductive Key where
  | null
  | bool (b : Bool)
  | int (n : Int)
  | float (x : Float)
  | str (s : String)
  | bytes (data : List UInt8)
  | date (d : Date)
  | datetime (t : DateTime)
  | tuple (items : List Key)

structure Blob where
  data : List UInt8
  contentType : Option String
  filename : Option String
  deriving DecidableEq, Repr

inductive Value where
  | null
  | bool (b : Bool)
  | int (n : Int)
  | float (x : Float)
  | str (s : String)
  | list (items : List Value)
  | tuple (items : List Value)
  | dict (entries : List (Key × Value))
  | bytes (data : List UInt8)
  | buffer (data : List UInt8)
  | date (d : Date)
  | datetime (t : DateTime)
  | blob (b : Blob)

instance : Inhabited Value := ⟨.null⟩

inductive Kind where
  | null | bool | int | float | str | list | tuple | dict | bytes | buffer | date | datetime | blob
  deriving DecidableEq, Repr

inductive Number where
  | int (n : Int)
  | float (x : Float)

def Number.same : Number → Number → Bool
  | .int a, .int b => a == b
  | .int a, .float y => (Binary64.ofFloat y).isInt a
  | .float x, .int b => (Binary64.ofFloat x).isInt b
  | .float x, .float y => x == y

def boolNumber (b : Bool) : Number := .int (if b then 1 else 0)

namespace Key

def number? : Key → Option Number
  | bool b => some (boolNumber b)
  | int n => some (.int n)
  | float x => some (.float x)
  | _ => none

/-- A key that is not a number is equal to keys of its own sort only. A float that is not a
number is found again as a key. -/
def same : Key → Key → Bool
  | null, null => true
  | str a, str b => a == b
  | bytes a, bytes b => a == b
  | date a, date b => a == b
  | datetime a, datetime b => a.same b
  | tuple as, tuple bs => sameAll as bs
  | float x, float y => x == y || (x.isNaN && y.isNaN)
  | a, b =>
    match a.number?, b.number? with
    | some x, some y => x.same y
    | _, _ => false
where
  sameAll : List Key → List Key → Bool
    | [], [] => true
    | a :: as, b :: bs => same a b && sameAll as bs
    | _, _ => false

instance : BEq Key := ⟨same⟩

instance : Coe String Key := ⟨str⟩

def toValue : Key → Value
  | null => .null
  | bool b => .bool b
  | int n => .int n
  | float x => .float x
  | str s => .str s
  | bytes data => .bytes data
  | date d => .date d
  | datetime t => .datetime t
  | tuple items => .tuple (toValues items)
where
  toValues : List Key → List Value
    | [] => []
    | k :: rest => toValue k :: toValues rest

@[simp] theorem str_beq_str (a b : String) : (Key.str a == Key.str b) = (a == b) := by
  show Key.same (Key.str a) (Key.str b) = _
  simp [Key.same]

end Key

namespace Value

def kind : Value → Kind
  | null => .null
  | bool _ => .bool
  | int _ => .int
  | float _ => .float
  | str _ => .str
  | list _ => .list
  | tuple _ => .tuple
  | dict _ => .dict
  | bytes _ => .bytes
  | buffer _ => .buffer
  | date _ => .date
  | datetime _ => .datetime
  | blob _ => .blob

def number? : Value → Option Number
  | bool b => some (boolNumber b)
  | int n => some (.int n)
  | float x => some (.float x)
  | _ => none

def bytes? : Value → Option (List UInt8)
  | bytes data => some data
  | buffer data => some data
  | _ => none

def str? : Value → Option String
  | str s => some s
  | _ => none

def entries? : Value → Option (Entries Key Value)
  | dict es => some es
  | _ => none

/-- The value as a key. Mappings, lists and other values that can change are no keys. -/
def key? : Value → Option Key
  | null => some .null
  | bool b => some (.bool b)
  | int n => some (.int n)
  | float x => some (.float x)
  | str s => some (.str s)
  | bytes data => some (.bytes data)
  | date d => some (.date d)
  | datetime t => some (.datetime t)
  | tuple items => (keys? items).map .tuple
  | _ => none
where
  keys? : List Value → Option (List Key)
    | [] => some []
    | v :: rest => do
      let k ← key? v
      let ks ← keys? rest
      some (k :: ks)

/-- Equality of values: numbers by what they count, mappings without regard to order. -/
def same : Value → Value → Bool
  | null, null => true
  | str a, str b => a == b
  | list as, list bs => sameAll as bs
  | tuple as, tuple bs => sameAll as bs
  | dict as, dict bs => as.length == bs.length && sameEntries as bs
  | date a, date b => a == b
  | datetime a, datetime b => a.same b
  | blob a, blob b => a == b
  | a, b =>
    match a.number?, b.number? with
    | some x, some y => x.same y
    | _, _ =>
      match a.bytes?, b.bytes? with
      | some x, some y => x == y
      | _, _ => false
where
  sameAll : List Value → List Value → Bool
    | [], [] => true
    | a :: as, b :: bs => same a b && sameAll as bs
    | _, _ => false
  sameEntries : List (Key × Value) → List (Key × Value) → Bool
    | [], _ => true
    | (k, v) :: rest, bs =>
      (match Entries.get? bs k with
        | some w => same v w
        | none => false) && sameEntries rest bs

/-- Nothing, zero and what is empty do not count as given. -/
def isTruthy : Value → Bool
  | null => false
  | bool b => b
  | int n => n != 0
  | float x => !(x == 0)
  | str s => !s.isEmpty
  | list items => !items.isEmpty
  | tuple items => !items.isEmpty
  | dict es => !es.isEmpty
  | bytes data => !data.isEmpty
  | buffer data => !data.isEmpty
  | _ => true

/-- What a walk over the value meets: the members of a list or tuple, the keys of a mapping, the
characters of a string, the numbers of a sequence of bytes. -/
def elements? : Value → Option (List Value)
  | list items => some items
  | tuple items => some items
  | dict es => some (es.map fun e => e.1.toValue)
  | str s => some (s.toList.map fun c => .str (String.singleton c))
  | bytes data => some (data.map fun b => .int b.toNat)
  | buffer data => some (data.map fun b => .int b.toNat)
  | _ => none

def get? (v : Value) (name : String) : Option Value :=
  match v with
  | dict es => Entries.get? es (.str name)
  | _ => none

def getD (es : Entries Key Value) (name : String) : Value := (es.get? (.str name)).getD .null

def orElse (v alternative : Value) : Value := if v.isTruthy then v else alternative

def ofOption : Option String → Value
  | some s => .str s
  | none => .null

def object (fields : List (String × Value)) : Value := dict (fields.map fun f => (.str f.1, f.2))

end Value

end OpenApi
