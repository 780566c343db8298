import OpenApi.Value
import OpenApi.Text.Quoted
import OpenApi.Decimal.Layout
import OpenApi.Decimal.Numeral
import OpenApi.Time.IsoText
/-! # Values as text

Two texts of a value: its *literal*, in which strings are quoted, and its *plain text*, in which
a string is itself and a date is its ISO form. A third, the *wire text*, is how a scalar appears
in a URL, a header or a form. All three are without the limit on the digits of an integer, which
`Value.isShort` tells; where a text that is refused counts, `writeText` and `writeLiteral` refuse it.
-/
namespace OpenApi

open Decimal (Layout)
open Time (Date DateTime)

def joined (separator : String) (parts : List String) : String := separator.intercalate parts

def dateLiteral (d : Date) : String :=
  "datetime.date(" ++ joined ", " [toString d.year, toString d.month, toString d.day] ++ ")"

/-- Days are counted downwards, seconds and microseconds upwards, and zeros are left out. -/
def durationLiteral (micros : Int) : String :=
  let days := micros.fdiv (Time.microsPerDay : Int)
  let rest := (micros.fmod (Time.microsPerDay : Int)).toNat
  let parts :=
    (if days == 0 then [] else ["days=" ++ toString days]) ++
    (if rest / 1000000 == 0 then [] else ["seconds=" ++ toString (rest / 1000000)]) ++
    (if rest % 1000000 == 0 then [] else ["microseconds=" ++ toString (rest % 1000000)])
  "datetime.timedelta(" ++ (if parts.isEmpty then "0" else joined ", " parts) ++ ")"

def offsetLiteral (o : Int) : String :=
  if o == 0 then "datetime.timezone.utc" else "datetime.timezone(" ++ durationLiteral o ++ ")"

/-- Microseconds are left out if they are zero, and then seconds too if they are. -/
def dateTimeLiteral (t : DateTime) : String :=
  let always := [t.date.year, t.date.month, t.date.day, t.hour, t.minute]
  let tail :=
    if t.microsecond != 0 then [t.second, t.microsecond]
    else if t.second != 0 then [t.second]
    else []
  let zone := match t.offset with
    | some o => ["tzinfo=" ++ offsetLiteral o]
    | none => []
  "datetime.datetime(" ++ joined ", " ((always ++ tail).map toString ++ zone) ++ ")"

def boolLiteral (b : Bool) : String := if b then "True" else "False"

def optionLiteral : Option String → String
  | some s => Text.quoted s
  | none => "None"

def Blob.literal (b : Blob) : String :=
  "Blob(data=" ++ Text.quotedBytes b.data ++ ", content_type=" ++ optionLiteral b.contentType ++
    ", filename=" ++ optionLiteral b.filename ++ ")"

/-- A tuple of one member keeps a comma behind it. -/
def tupleLiteral (items : List String) : String :=
  match items with
  | [item] => "(" ++ item ++ ",)"
  | items => "(" ++ joined ", " items ++ ")"

def Key.literal : Key → String
  | null => "None"
  | bool b => boolLiteral b
  | int n => toString n
  | float x => Layout.plain.write x
  | str s => Text.quoted s
  | bytes data => Text.quotedBytes data
  | date d => dateLiteral d
  | datetime t => dateTimeLiteral t
  | tuple items => tupleLiteral (literals items)
where
  literals : List Key → List String
    | [] => []
    | k :: rest => literal k :: literals rest

def Value.literal : Value → String
  | null => "None"
  | bool b => boolLiteral b
  | int n => toString n
  | float x => Layout.plain.write x
  | str s => Text.quoted s
  | list items => "[" ++ joined ", " (literals items) ++ "]"
  | tuple items => tupleLiteral (literals items)
  | dict es => "\x7b" ++ joined ", " (entryLiterals es) ++ "\x7d"
  | bytes data => Text.quotedBytes data
  | buffer data => "bytearray(" ++ Text.quotedBytes data ++ ")"
  | date d => dateLiteral d
  | datetime t => dateTimeLiteral t
  | blob b => b.literal
where
  literals : List Value → List String
    | [] => []
    | v :: rest => literal v :: literals rest
  entryLiterals : List (Key × Value) → List String
    | [] => []
    | (k, v) :: rest => (k.literal ++ ": " ++ literal v) :: entryLiterals rest

def Key.text : Key → String
  | str s => s
  | date d => d.write
  | datetime t => t.write ' '
  | k => k.literal

def Value.text : Value → String
  | str s => s
  | date d => d.write
  | datetime t => t.write ' '
  | v => v.literal

/-- Nothing is the empty text, truth values are in lower case, dates are in ISO form. An integer is
written whatever its length, though a long one is not read. -/
def Value.wireText : Value → String
  | null => ""
  | bool b => if b then "true" else "false"
  | date d => d.write
  | datetime t => t.write 'T'
  | v => v.text

def Key.wireText (k : Key) : String := k.toValue.wireText

def Kind.name : Kind → String
  | .null => "NoneType"
  | .bool => "bool"
  | .int => "int"
  | .float => "float"
  | .str => "str"
  | .list => "list"
  | .tuple => "tuple"
  | .dict => "dict"
  | .bytes => "bytes"
  | .buffer => "bytearray"
  | .date => "date"
  | .datetime => "datetime"
  | .blob => "Blob"

def Key.isShort : Key → Bool
  | int n => Decimal.isShort n
  | tuple items => all items
  | _ => true
where
  all : List Key → Bool
    | [] => true
    | k :: rest => isShort k && all rest

def Value.isShort : Value → Bool
  | int n => Decimal.isShort n
  | list items => all items
  | tuple items => all items
  | dict es => allEntries es
  | _ => true
where
  all : List Value → Bool
    | [] => true
    | v :: rest => isShort v && all rest
  allEntries : List (Key × Value) → Bool
    | [] => true
    | (k, v) :: rest => k.isShort && isShort v && allEntries rest

inductive WriteError where
  /-- JSON has no form for a value of this kind. -/
  | noForm (kind : Kind)
  /-- JSON has no form for a key of this kind. -/
  | noName (kind : Kind)
  | longInteger
  deriving DecidableEq, Repr

def WriteError.message : WriteError → String
  | noForm kind => "Object of type " ++ kind.name ++ " is not JSON serializable"
  | noName kind => "keys must be str, int, float, bool or None, not " ++ kind.name
  | longInteger =>
    "Exceeds the limit (" ++ toString Decimal.maxIntDigits ++
      " digits) for integer string conversion; use sys.set_int_max_str_digits() to increase the limit"

def Key.writeText (k : Key) : Except WriteError String :=
  if k.isShort then .ok k.text else .error .longInteger

def Value.writeLiteral (v : Value) : Except WriteError String :=
  if v.isShort then .ok v.literal else .error .longInteger

end OpenApi
