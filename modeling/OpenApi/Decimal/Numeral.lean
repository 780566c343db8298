import OpenApi.Text.Classes
/-! # Numerals

Reading integers and floats from text. White space around a numeral is ignored, the digits may
be those of any script, and one underscore may stand between two digits.
-/
namespace OpenApi.Decimal

def natOfDigits (ds : List Nat) : Nat := ds.foldl (fun n d => 10 * n + d) 0

/-- The float nearest to `digits * 10 ^ exponent`. Numbers far beyond the range of floats are
recognised by their size alone. -/
def toFloat (negative : Bool) (digits : Nat) (exponent : Int) : Float :=
  let size := (Nat.toDigits 10 digits).length + exponent
  let x :=
    if digits == 0 then 0.0
    else if 400 < size then 1.0 / 0.0
    else if size < -400 then 0.0
    else if exponent < 0 then Float.ofScientific digits true (-exponent).toNat
    else Float.ofScientific digits false exponent.toNat
  if negative then -x else x

/-- The longest digits at the front, each underscore between two of them dropped, and the rest. -/
def digitRun : List Char → List Nat × List Char
  | [] => ([], [])
  | c :: rest =>
    match Text.digitValue? c with
    | none => ([], c :: rest)
    | some d =>
      match rest with
      | '_' :: c' :: rest' =>
        if (Text.digitValue? c').isSome then
          let (ds, after) := digitRun (c' :: rest')
          (d :: ds, after)
        else ([d], rest)
      | rest =>
        let (ds, after) := digitRun rest
        (d :: ds, after)

def sign : List Char → Bool × List Char
  | '-' :: rest => (true, rest)
  | '+' :: rest => (false, rest)
  | rest => (false, rest)

/-- White space around a numeral: the six of ASCII in an ASCII text, else that of all scripts. -/
def trimNumeral (cs : List Char) : List Char :=
  if cs.all (·.toNat < 0x80) then Text.trim Text.isAsciiSpace cs else Text.trim Text.isSpace cs

/-- At most this many digits are read as an integer. -/
def maxIntDigits : Nat := 4300

def isShort (n : Int) : Bool := (toString n.natAbs).length ≤ maxIntDigits

def readInt? (s : String) : Option Int :=
  let (negative, body) := sign (trimNumeral s.toList)
  match digitRun body with
  | ([], _) => none
  | (ds, []) =>
    if maxIntDigits < ds.length then none
    else some (if negative then -(natOfDigits ds : Int) else natOfDigits ds)
  | _ => none

def exponentPart : List Char → Option (Int × List Char)
  | c :: rest =>
    if c == 'e' || c == 'E' then
      let (negative, body) := sign rest
      match digitRun body with
      | ([], _) => none
      | (ds, after) => some (if negative then -(natOfDigits ds : Int) else natOfDigits ds, after)
    else some (0, c :: rest)
  | [] => some (0, [])

def finite? (negative : Bool) (cs : List Char) : Option Float :=
  let (whole, afterWhole) := digitRun cs
  let (fraction, afterFraction) := match afterWhole with
    | '.' :: rest => digitRun rest
    | rest => ([], rest)
  if whole.isEmpty && fraction.isEmpty then none
  else match exponentPart afterFraction with
    | some (e, []) =>
      some (toFloat negative (natOfDigits (whole ++ fraction)) (e - fraction.length))
    | _ => none

def readFloat? (s : String) : Option Float :=
  let (negative, body) := sign (trimNumeral s.toList)
  let special : Option Float := match String.ofList (body.map Char.toLower) with
    | "inf" | "infinity" => some (if negative then -(1.0 / 0.0) else 1.0 / 0.0)
    | "nan" => some (0.0 / 0.0)
    | _ => none
  special <|> finite? negative body

end OpenApi.Decimal
