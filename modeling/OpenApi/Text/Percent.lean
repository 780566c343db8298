import OpenApi.Text.Utf8
/-! # Percent encoding

In a URL a character outside the safe set is written as the bytes of its UTF-8 form, each as a
percent sign and two hexadecimal digits. In a form a space is written as a plus sign instead.
-/
namespace OpenApi.Text

def upperHexDigit (n : Nat) : Char := if n < 10 then Char.ofNat (48 + n) else Char.ofNat (55 + n)

def percentByte (b : UInt8) : List Char :=
  ['%', upperHexDigit (b.toNat / 16), upperHexDigit (b.toNat % 16)]

def isUnreserved (c : Char) : Bool :=
  c.isAlphanum || c == '_' || c == '.' || c == '-' || c == '~'

def isComponentSafe (c : Char) : Bool :=
  isUnreserved c || c == '!' || c == '\'' || c == '(' || c == ')' || c == '*'

def percentChar (safe : Char → Bool) (c : Char) : List Char :=
  if safe c then [c] else (encodeChar c).flatMap percentByte

def encodeComponent (s : String) : String :=
  String.ofList (s.toList.flatMap (percentChar isComponentSafe))

def formChar (c : Char) : List Char := if c == ' ' then ['+'] else percentChar isUnreserved c

def encodeForm (s : String) : String := String.ofList (s.toList.flatMap formChar)

def formByte (b : UInt8) : List Char :=
  let c := Char.ofNat b.toNat
  if c == ' ' then ['+'] else if b.toNat < 0x80 && isUnreserved c then [c] else percentByte b

def encodeFormBytes (bytes : List UInt8) : String := String.ofList (bytes.flatMap formByte)

def hexDigit? (c : Char) : Option Nat :=
  if c.isDigit then some (c.toNat - 48)
  else if 'a' ≤ c ∧ c ≤ 'f' then some (c.toNat - 87)
  else if 'A' ≤ c ∧ c ≤ 'F' then some (c.toNat - 55)
  else none

def hexPair? (a b : Char) : Option UInt8 := do
  let x ← hexDigit? a
  let y ← hexDigit? b
  some (byte (16 * x + y))

/-- The bytes of a stretch of ASCII text are gathered, last one first, and read as UTF-8 where
the stretch ends. -/
def unpercent (bytes : List UInt8) : List Char → List Char
  | [] => decodeReplacing bytes.reverse
  | '%' :: a :: b :: rest =>
    match hexPair? a b with
    | some byte => unpercent (byte :: bytes) rest
    | none => unpercent (37 :: bytes) (a :: b :: rest)
  | c :: rest =>
    if c.toNat < 0x80 then unpercent (byte c.toNat :: bytes) rest
    else decodeReplacing bytes.reverse ++ c :: unpercent [] rest

/-- A percent sign without two hexadecimal digits behind it stands for itself. -/
def decodePercent (s : String) : String := String.ofList (unpercent [] s.toList)

def decodeForm (s : String) : String :=
  String.ofList (unpercent [] (s.toList.map fun c => if c == '+' then ' ' else c))

end OpenApi.Text
