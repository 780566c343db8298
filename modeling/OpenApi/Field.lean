import OpenApi.Decimal.Numeral
import OpenApi.Fault
/-! # Fields

How the fields of records are read from values. A text is a string and nothing else. Numbers may
also be written as text, and truth values as numbers or as the usual words.
-/
namespace OpenApi.Field

def text : Value → Except Fault String
  | .str s => .ok s
  | _ => .error .invalidField

def optionalText : Value → Except Fault (Option String)
  | .null => .ok none
  | v => some <$> text v

def texts : Value → Except Fault (List String)
  | .list items => items.mapM text
  | .tuple items => items.mapM text
  | _ => .error .invalidField

def optionalTexts : Value → Except Fault (Option (List String))
  | .null => .ok none
  | v => some <$> texts v

def yesWords : List String := ["1", "on", "t", "true", "y", "yes"]

def noWords : List String := ["0", "off", "f", "false", "n", "no"]

def truthOfWord? (s : String) : Option Bool :=
  let word := String.ofList (s.toList.map Char.toLower)
  if yesWords.contains word then some true else if noWords.contains word then some false else none

def truthOfNumber? (n : Number) : Option Bool :=
  if n.same (.int 1) then some true else if n.same (.int 0) then some false else none

def truth (v : Value) : Except Fault Bool :=
  let read : Option Bool := match v with
    | .bool b => some b
    | .int n => truthOfNumber? (.int n)
    | .float x => truthOfNumber? (.float x)
    | .str s => truthOfWord? s
    | _ => none
  match read with
  | some b => .ok b
  | none => .error .invalidField

def floatOfInt? (n : Int) : Option Float :=
  let x := Decimal.toFloat (n < 0) n.natAbs 0
  if x.isInf then none else some x

def number (v : Value) : Except Fault Float :=
  let read : Option Float := match v with
    | .bool b => some (if b then 1 else 0)
    | .int n => floatOfInt? n
    | .float x => some x
    | .str s => if s.toList.all (·.toNat < 0x80) then Decimal.readFloat? s else none
    | _ => none
  match read with
  | some x => .ok x
  | none => .error .invalidField

def namedValues : Value → Except Fault (Entries String Value)
  | .dict es => es.mapM fun e => return (← text e.1.toValue, e.2)
  | _ => .error .invalidField

def namedTexts (v : Value) : Except Fault (Entries String String) := do
  (← namedValues v).mapM fun e => return (e.1, ← text e.2)

/-- The entries of a part of a document that may be missing or empty. -/
def mapping (v : Value) : Except Fault (Entries Key Value) :=
  if v.isTruthy then
    match v with
    | .dict es => .ok es
    | _ => .error .malformed
  else .ok []

end OpenApi.Field
