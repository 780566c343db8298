import OpenApi.Decimal.Numeral
import OpenApi.Value
import OpenApi.Yaml.Cursor
/-! # What plain scalars stand for

By the rules of YAML 1.1 a plain scalar may be null, a truth value, an integer in one of several
bases, a float or a date; any other is a string. Underscores inside a number do not count.
-/
namespace OpenApi.Yaml

def nullWords : List String := ["", "~", "null", "Null", "NULL"]

def trueWords : List String :=
  ["yes", "Yes", "YES", "true", "True", "TRUE", "on", "On", "ON"]

def falseWords : List String :=
  ["no", "No", "NO", "false", "False", "FALSE", "off", "Off", "OFF"]

def word? (s : String) : Option Value :=
  if nullWords.contains s then some .null
  else if trueWords.contains s then some (.bool true)
  else if falseWords.contains s then some (.bool false)
  else none

def signed (cs : List Char) : Bool × List Char := Decimal.sign cs

def isDigitOf (base : Nat) (c : Char) : Bool :=
  match base with
  | 2 => c == '0' || c == '1'
  | 8 => '0' ≤ c && c ≤ '7'
  | 10 => c.isDigit
  | _ => c.isDigit || ('a' ≤ c && c ≤ 'f') || ('A' ≤ c && c ≤ 'F')

def digitOf (c : Char) : Nat :=
  if c.isDigit then c.toNat - 48 else if 'a' ≤ c then c.toNat - 87 else c.toNat - 55

def natOf (base : Nat) (cs : List Char) : Nat := cs.foldl (fun n c => base * n + digitOf c) 0

def isRun (base : Nat) (cs : List Char) : Bool :=
  !cs.isEmpty && cs.all fun c => c == '_' || isDigitOf base c

def dropUnderscores (cs : List Char) : List Char := cs.filter (· != '_')

def runValue (base : Nat) (cs : List Char) : Read Nat :=
  let ds := dropUnderscores cs
  if ds.isEmpty then .error .value
  else if base = 10 && Decimal.maxIntDigits < ds.length then .error .value
  else .ok (natOf base ds)

/-- One place of a number in base sixty: up to two digits, the first of them below six. -/
def sixtieth? (cs : List Char) : Option Nat :=
  match cs with
  | [a] => if a.isDigit then some (digitOf a) else none
  | [a, b] => if '0' ≤ a && a ≤ '5' && b.isDigit then some (10 * digitOf a + digitOf b) else none
  | _ => none

def cutColons : List Char → List (List Char)
  | [] => [[]]
  | c :: rest =>
    if c == ':' then [] :: cutColons rest
    else match cutColons rest with
      | [] => [[c]]
      | p :: ps => (c :: p) :: ps

def startsDecimal : List Char → Bool
  | c :: rest => c.isDigit && rest.all fun d => d == '_' || d.isDigit
  | [] => false

def natural? (cs : List Char) : Option (Read Nat) :=
  match cs with
  | ['0'] => some (.ok 0)
  | '0' :: 'b' :: rest => if isRun 2 rest then some (runValue 2 rest) else none
  | '0' :: 'x' :: rest => if isRun 16 rest then some (runValue 16 rest) else none
  | '0' :: rest => if isRun 8 rest then some (runValue 8 ('0' :: rest)) else none
  | cs =>
    match cutColons cs with
    | [whole] => if startsDecimal whole then some (runValue 10 whole) else none
    | whole :: places =>
      if startsDecimal whole then
        (places.mapM sixtieth?).map fun ps => do
          return ps.foldl (fun n p => 60 * n + p) (← runValue 10 whole)
      else none
    | [] => none

def integer? (cs : List Char) : Option (Read Value) :=
  let (negative, body) := signed cs
  (natural? body).map fun r => do
    let n : Nat ← r
    return .int (if negative then -(n : Int) else n)

/-- An exponent, which needs its sign. -/
def exponentOf? (cs : List Char) : Option Int :=
  match cs with
  | [] => some 0
  | e :: s :: rest =>
    if (e == 'e' || e == 'E') && (s == '+' || s == '-') && !rest.isEmpty && rest.all Char.isDigit then
      some (if s == '-' then -(natOf 10 rest : Int) else natOf 10 rest)
    else none
  | _ => none

def isFractionChar (c : Char) : Bool := c == '_' || c.isDigit

/-- A decimal fraction, without its sign. A point with nothing before it needs a digit behind it. -/
def fraction? (negative : Bool) (hasSign : Bool) (cs : List Char) : Option Float :=
  let whole := cs.takeWhile isFractionChar
  match cs.dropWhile isFractionChar with
  | '.' :: rest =>
    let places := rest.takeWhile isFractionChar
    let fits :=
      if whole.isEmpty then !hasSign && places.head?.any Char.isDigit
      else whole.head?.any Char.isDigit
    if fits then
      (exponentOf? (rest.dropWhile isFractionChar)).map fun e =>
        let ds := dropUnderscores places
        Decimal.toFloat negative (natOf 10 (dropUnderscores whole ++ ds)) (e - ds.length)
    else none
  | _ => none

def sixtiethFraction? (negative : Bool) (cs : List Char) : Option Float :=
  match (cs.takeWhile (· != '.'), cs.dropWhile (· != '.')) with
  | (front, '.' :: places) =>
    match cutColons front with
    | whole :: p :: ps =>
      if startsDecimal whole && places.all isFractionChar then
        ((p :: ps).mapM sixtieth?).map fun parts =>
          let n := parts.foldl (fun n p => 60 * n + p) (natOf 10 (dropUnderscores whole))
          let ds := dropUnderscores places
          Decimal.toFloat negative (n * Nat.pow 10 ds.length + natOf 10 ds) (-(ds.length : Int))
      else none
    | _ => none
  | _ => none

def float? (cs : List Char) : Option Value :=
  let (negative, body) := signed cs
  let hasSign := body.length < cs.length
  let special : Option Float := match String.ofList body with
    | ".inf" | ".Inf" | ".INF" => some (if negative then -(1.0 / 0.0) else 1.0 / 0.0)
    | ".nan" | ".NaN" | ".NAN" => if hasSign then none else some (0.0 / 0.0)
    | _ => none
  (special <|> fraction? negative hasSign body <|> sixtiethFraction? negative body).map .float

def date? (cs : List Char) : Option (Read Value) :=
  match cs with
  | [a, b, c, d, '-', e, f, '-', g, h] =>
    if [a, b, c, d, e, f, g, h].all Char.isDigit then
      let day : Time.Date := ⟨natOf 10 [a, b, c, d], natOf 10 [e, f], natOf 10 [g, h]⟩
      some (if day.isValid then .ok (.date day) else .error .value)
    else none
  | _ => none

def resolve (cs : List Char) : Read Value :=
  let s := String.ofList cs
  match word? s with
  | some v => .ok v
  | none =>
    match float? cs with
    | some v => .ok v
    | none => ((integer? cs <|> date? cs).getD (.ok (.str s)))

end OpenApi.Yaml
