import OpenApi.Value.Text
/-! # Writing JSON

Values as JSON text, on one line or with every member on a line of its own. A tuple is written
as an array, and a key that is not a string as the text of its JSON form. Values that JSON does
not have are written as a string if the writer is told which.
-/
namespace OpenApi.Json

open Decimal (Layout)

structure Style where
  asciiOnly : Bool
  indent : Option Nat

def Style.line : Style := ⟨true, none⟩

def Style.page : Style := ⟨false, some 2⟩

def units16 (c : Char) : List Nat :=
  let n := c.toNat
  if n < 0x10000 then [n] else [0xD800 + (n - 0x10000) / 0x400, 0xDC00 + (n - 0x10000) % 0x400]

def escapeUnit (n : Nat) : List Char := '\\' :: 'u' :: Text.hexDigits 4 n

def escapeChar (asciiOnly : Bool) (c : Char) : List Char :=
  if c == '"' then ['\\', '"']
  else if c == '\\' then ['\\', '\\']
  else if c == '\n' then ['\\', 'n']
  else if c == '\r' then ['\\', 'r']
  else if c == '\t' then ['\\', 't']
  else if c.toNat == 8 then ['\\', 'b']
  else if c.toNat == 12 then ['\\', 'f']
  else if c.toNat < 0x20 || (asciiOnly && 0x7F ≤ c.toNat) then (units16 c).flatMap escapeUnit
  else [c]

def quote (asciiOnly : Bool) (s : String) : String :=
  String.ofList ('"' :: s.toList.flatMap (escapeChar asciiOnly) ++ ['"'])

/-- What a writer does with an integer, and with a value that JSON does not have. -/
structure Policy where
  integer : Int → Except WriteError String
  other : Value → Except WriteError String

namespace Policy

/-- Integers are written whatever their length, though long ones are not read. -/
def unlimited (other : Value → Except WriteError String) : Policy := ⟨fun n => .ok (toString n), other⟩

/-- Nothing is written but what JSON has, and no integer of more digits than are read. -/
def strict : Policy :=
  ⟨fun n => if Decimal.isShort n then .ok (toString n) else .error .longInteger,
    fun v => .error (.noForm v.kind)⟩

def keyName (p : Policy) : Key → Except WriteError String
  | .str s => .ok s
  | .null => .ok "null"
  | .bool b => .ok (if b then "true" else "false")
  | .int n => p.integer n
  | .float x => .ok (Layout.json.write x)
  | k => .error (.noName k.toValue.kind)

end Policy

def Style.newline (style : Style) (level : Nat) : String :=
  match style.indent with
  | some width => String.ofList ('\n' :: List.replicate (width * level) ' ')
  | none => ""

def Style.separator (style : Style) (level : Nat) : String :=
  match style.indent with
  | some _ => "," ++ style.newline level
  | none => ", "

def Style.bracket (style : Style) (level : Nat) (opening closing : String) (members : List String) : String :=
  if members.isEmpty then opening ++ closing
  else opening ++ style.newline (level + 1) ++ joined (style.separator (level + 1)) members ++
    style.newline level ++ closing

def render (style : Style) (p : Policy) (level : Nat) : Value → Except WriteError String
  | .null => .ok "null"
  | .bool b => .ok (if b then "true" else "false")
  | .int n => p.integer n
  | .float x => .ok (Layout.json.write x)
  | .str s => .ok (quote style.asciiOnly s)
  | .list items => return style.bracket level "[" "]" (← renderAll style p (level + 1) items)
  | .tuple items => return style.bracket level "[" "]" (← renderAll style p (level + 1) items)
  | .dict es => return style.bracket level "\x7b" "\x7d" (← renderEntries style p (level + 1) es)
  | v => return quote style.asciiOnly (← p.other v)
where
  renderAll (style : Style) (p : Policy) (level : Nat) :
      List Value → Except WriteError (List String)
    | [] => .ok []
    | v :: rest => do
      let head ← render style p level v
      return head :: (← renderAll style p level rest)
  renderEntries (style : Style) (p : Policy) (level : Nat) :
      List (Key × Value) → Except WriteError (List String)
    | [] => .ok []
    | (k, v) :: rest => do
      let name ← p.keyName k
      let head ← render style p level v
      return (quote style.asciiOnly name ++ ": " ++ head) :: (← renderEntries style p level rest)

/-- JSON text of a value, all of whose parts JSON must have. -/
def write (v : Value) : Except WriteError String := render .line .strict 0 v

/-- The same of integers of any length. -/
def writeAny (v : Value) : Except WriteError String :=
  render .line (.unlimited fun v => .error (.noForm v.kind)) 0 v

/-- JSON text in which what JSON does not have is written as it goes over the wire. -/
def writeWire (v : Value) : Except WriteError String :=
  render .line (.unlimited fun v => .ok v.wireText) 0 v

/-- Indented JSON text in which what JSON does not have is written as plain text. -/
def writePage (v : Value) : Except WriteError String :=
  render .page (.unlimited fun v => .ok v.text) 0 v

end OpenApi.Json
