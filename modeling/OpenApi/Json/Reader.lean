import OpenApi.Value
import OpenApi.Decimal.Numeral
/-! # Reading JSON

JSON text as a value. Beyond the standard the reader knows `NaN`, `Infinity` and `-Infinity`; of
members with one name the last counts. The first fault ends the reading and is reported with
its place. A number with neither fraction nor exponent is an integer of any size up to
`Decimal.maxIntDigits` digits.
-/
namespace OpenApi.Json

inductive Problem where
  | noValue | noName | noColon | noComma | extraData
  | unterminatedString | controlCharacter | badEscape | badCodeEscape | byteOrderMark
  deriving DecidableEq, Repr

def Problem.message : Problem → String
  | noValue => "Expecting value"
  | noName => "Expecting property name enclosed in double quotes"
  | noColon => "Expecting ':' delimiter"
  | noComma => "Expecting ',' delimiter"
  | extraData => "Extra data"
  | unterminatedString => "Unterminated string starting at"
  | controlCharacter => "Invalid control character at"
  | badEscape => "Invalid \\escape"
  | badCodeEscape => "Invalid \\uXXXX escape"
  | byteOrderMark => "Unexpected UTF-8 BOM (decode using utf-8-sig)"

inductive ReadError where
  | misread (problem : Problem) (line column offset : Nat)
  | longInteger (digits : Nat)
  deriving DecidableEq, Repr

def ReadError.message : ReadError → String
  | misread problem line column offset =>
    problem.message ++ ": line " ++ toString line ++ " column " ++ toString column ++
      " (char " ++ toString offset ++ ")"
  | longInteger digits =>
    "Exceeds the limit (" ++ toString Decimal.maxIntDigits ++
      " digits) for integer string conversion: value has " ++ toString digits ++
      " digits; use sys.set_int_max_str_digits() to increase the limit"

/-- A fault met when so many characters of the text were left. -/
inductive Fault where
  | at (problem : Problem) (left : Nat)
  | longInteger (digits : Nat)

def isBlank (c : Char) : Bool := c == ' ' || c == '\t' || c == '\n' || c == '\r'

def skipBlanks (cs : List Char) : List Char := cs.dropWhile isBlank

def hexValue? (c : Char) : Option Nat :=
  if c.isDigit then some (c.toNat - 48)
  else if 'a' ≤ c ∧ c ≤ 'f' then some (c.toNat - 87)
  else if 'A' ≤ c ∧ c ≤ 'F' then some (c.toNat - 55)
  else none

def codeUnit? : List Char → Option (Nat × List Char)
  | a :: b :: c :: d :: rest => do
    let x ← hexValue? a
    let y ← hexValue? b
    let z ← hexValue? c
    let w ← hexValue? d
    if rest.isEmpty then none else some (((x * 16 + y) * 16 + z) * 16 + w, rest)
  | _ => none

def isHighSurrogate (n : Nat) : Bool := 0xD800 ≤ n && n < 0xDC00

def isLowSurrogate (n : Nat) : Bool := 0xDC00 ≤ n && n < 0xE000

/-- The character of a code unit. Half a pair that stands alone is the replacement character. -/
def unitChar (n : Nat) : Char := if isHighSurrogate n || isLowSurrogate n then '\uFFFD' else Char.ofNat n

/-- A character given by its code after a backslash and a `u`. The second half of a pair belongs
to the first. -/
def codeEscape (left : Nat) (cs : List Char) : Except Fault (Char × List Char) :=
  match codeUnit? cs with
  | none => .error (.at .badCodeEscape left)
  | some (high, rest) =>
    if isHighSurrogate high then
      match rest with
      | '\\' :: 'u' :: more =>
        if more.length ≤ 4 then .ok (unitChar high, rest)
        else match codeUnit? more with
          | none => .error (.at .badCodeEscape (more.length + 1))
          | some (low, after) =>
            if isLowSurrogate low then
              .ok (Char.ofNat (0x10000 + (high - 0xD800) * 0x400 + (low - 0xDC00)), after)
            else .ok (unitChar high, rest)
      | rest => .ok (unitChar high, rest)
    else .ok (unitChar high, rest)

def simpleEscape? : Char → Option Char
  | '"' => some '"'
  | '\\' => some '\\'
  | '/' => some '/'
  | 'b' => some '\x08'
  | 'f' => some '\x0c'
  | 'n' => some '\n'
  | 'r' => some '\r'
  | 't' => some '\t'
  | _ => none

/-- The rest of a string whose opening quote stands where `opened` characters were left. The
characters read so far are in `read`, the last one first. -/
def stringRest (opened : Nat) : Nat → List Char → List Char → Except Fault (String × List Char)
  | 0, _, _ => .error (.at .unterminatedString opened)
  | fuel + 1, read, cs =>
    match cs with
    | [] => .error (.at .unterminatedString opened)
    | '"' :: rest => .ok (String.ofList read.reverse, rest)
    | ['\\'] => .error (.at .unterminatedString opened)
    | '\\' :: 'u' :: rest => do
      let (c, after) ← codeEscape (rest.length + 1) rest
      stringRest opened fuel (c :: read) after
    | '\\' :: c :: rest =>
      match simpleEscape? c with
      | some c => stringRest opened fuel (c :: read) rest
      | none => .error (.at .badEscape (rest.length + 2))
    | c :: rest =>
      if c.toNat < 0x20 then .error (.at .controlCharacter cs.length)
      else stringRest opened fuel (c :: read) rest

def string (cs : List Char) : Except Fault (String × List Char) := stringRest (cs.length + 1) (cs.length + 1) [] cs

def digits (cs : List Char) : List Char × List Char := cs.span Char.isDigit

def digitValues (ds : List Char) : List Nat := ds.map fun c => c.toNat - 48

def fraction (cs : List Char) : List Char × List Char :=
  match cs with
  | '.' :: rest =>
    match digits rest with
    | ([], _) => ([], cs)
    | found => found
  | _ => ([], cs)

def exponent? (cs : List Char) : Option (Int × List Char) :=
  match cs with
  | c :: rest =>
    if c == 'e' || c == 'E' then
      let (negative, body) := Decimal.sign rest
      match digits body with
      | ([], _) => none
      | (ds, after) =>
        let n := Decimal.natOfDigits (digitValues ds)
        some (if negative then -(n : Int) else n, after)
    else none
  | [] => none

def numberOf (negative : Bool) (whole : List Char) (cs : List Char) : Except Fault (Value × List Char) :=
  let (frac, afterFraction) := fraction cs
  let n := Decimal.natOfDigits (digitValues (whole ++ frac))
  match exponent? afterFraction with
  | some (e, after) => .ok (.float (Decimal.toFloat negative n (e - frac.length)), after)
  | none =>
    if !frac.isEmpty then .ok (.float (Decimal.toFloat negative n (-(frac.length : Int))), afterFraction)
    else if Decimal.maxIntDigits < whole.length then .error (.longInteger whole.length)
    else .ok (.int (if negative then -(n : Int) else n), afterFraction)

def number (cs : List Char) : Except Fault (Value × List Char) :=
  let (negative, body) := match cs with
    | '-' :: rest => (true, rest)
    | rest => (false, rest)
  match body with
  | '0' :: rest => numberOf negative ['0'] rest
  | body =>
    match digits body with
    | ([], _) => .error (.at .noValue cs.length)
    | (whole, rest) => numberOf negative whole rest

def words : List (List Char × Value) :=
  [("null".toList, .null), ("true".toList, .bool true), ("false".toList, .bool false),
   ("NaN".toList, .float (0.0 / 0.0)), ("Infinity".toList, .float (1.0 / 0.0)),
   ("-Infinity".toList, .float (-(1.0 / 0.0)))]

def word? (cs : List Char) : Option (Value × List Char) :=
  (words.find? fun w => w.1.isPrefixOf cs).map fun w => (w.2, cs.drop w.1.length)

mutual

def value : Nat → List Char → Except Fault (Value × List Char)
  | 0, cs => .error (.at .noValue cs.length)
  | fuel + 1, cs =>
    match cs with
    | '"' :: rest => do
      let (s, after) ← string rest
      .ok (.str s, after)
    | '\x7b' :: rest =>
      match skipBlanks rest with
      | '\x7d' :: after => .ok (.dict [], after)
      | inner => members fuel [] inner
    | '[' :: rest =>
      match skipBlanks rest with
      | ']' :: after => .ok (.list [], after)
      | inner => elements fuel [] inner
    | cs =>
      match word? cs with
      | some found => .ok found
      | none => number cs

/-- The members of an array after those in `read`, the last one first. -/
def elements : Nat → List Value → List Char → Except Fault (Value × List Char)
  | 0, _, cs => .error (.at .noValue cs.length)
  | fuel + 1, read, cs => do
    let (v, after) ← value fuel cs
    match skipBlanks after with
    | ']' :: rest => .ok (.list (v :: read).reverse, rest)
    | ',' :: rest => elements fuel (v :: read) (skipBlanks rest)
    | rest => .error (.at .noComma rest.length)

def members : Nat → Entries Key Value → List Char → Except Fault (Value × List Char)
  | 0, _, cs => .error (.at .noName cs.length)
  | fuel + 1, read, cs =>
    match cs with
    | '"' :: rest => do
      let (name, afterName) ← string rest
      match skipBlanks afterName with
      | ':' :: rest => do
        let (v, after) ← value fuel (skipBlanks rest)
        let read := read.put (.str name) v
        match skipBlanks after with
        | '\x7d' :: rest => .ok (.dict read, rest)
        | ',' :: rest => members fuel read (skipBlanks rest)
        | rest => .error (.at .noComma rest.length)
      | rest => .error (.at .noColon rest.length)
    | cs => .error (.at .noName cs.length)

end

def ReadError.at (problem : Problem) (text : List Char) (left : Nat) : ReadError :=
  let before := text.take (text.length - left)
  let column := (before.reverse.takeWhile (· != '\n')).length + 1
  .misread problem (before.count '\n' + 1) column before.length

def readAll (text : List Char) : Except Fault Value :=
  if text.head? == some '\uFEFF' then .error (.at .byteOrderMark text.length)
  else do
    let (v, after) ← value (2 * text.length + 2) (skipBlanks text)
    match skipBlanks after with
    | [] => .ok v
    | rest => .error (.at .extraData rest.length)

def read (s : String) : Except ReadError Value :=
  let text := s.toList
  match readAll text with
  | .ok v => .ok v
  | .error (.at problem left) => .error (.at problem text left)
  | .error (.longInteger n) => .error (.longInteger n)

end OpenApi.Json
