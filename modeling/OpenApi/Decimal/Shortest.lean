import OpenApi.Decimal.Binary64
/-! # Shortest decimals

The decimal with the fewest digits that reads back as a given float, and of those the one
nearest to it. Of the decimals with `n` digits only the two neighbours of the float on that
grid can read back if any does, so the search tries 1, 2, 3 and so on up to 17 digits.
-/
namespace OpenApi.Decimal

structure Scaled where
  digits : Nat
  exponent : Int
  deriving DecidableEq, Repr

structure Ratio where
  num : Nat
  den : Nat

def Ratio.scale (k : Nat) (e : Int) : Ratio :=
  if 0 ≤ e then ⟨k * Nat.pow 2 e.toNat, 1⟩ else ⟨k, Nat.pow 2 (-e).toNat⟩

def Ratio.inUnits (r : Ratio) (p : Int) : Ratio :=
  if 0 ≤ p then ⟨r.num, r.den * Nat.pow 10 p.toNat⟩ else ⟨r.num * Nat.pow 10 (-p).toNat, r.den⟩

def digitCount (n : Nat) : Nat := (Nat.toDigits 10 n).length

def Ratio.leading (r : Ratio) : Int :=
  let e : Int := (digitCount r.num : Int) - digitCount r.den
  let u := r.inUnits e
  if u.num < u.den then e - 1 else e

/-- The reals between `low` and `high`, both in quarters of the last place, read back as the
float; the two ends do so when its mantissa is even. -/
structure Rounding where
  low : Nat
  value : Nat
  high : Nat
  ends : Bool
  exponent : Int

def Rounding.of (mantissa : Nat) (exponent : Int) : Rounding where
  low := if mantissa == Nat.pow 2 52 && exponent != -1074 then 4 * mantissa - 1 else 4 * mantissa - 2
  value := 4 * mantissa
  high := 4 * mantissa + 2
  ends := mantissa % 2 == 0
  exponent := exponent - 2

def Rounding.holds (r : Rounding) (p : Int) (d : Nat) : Bool :=
  let low := (Ratio.scale r.low r.exponent).inUnits p
  let high := (Ratio.scale r.high r.exponent).inUnits p
  if r.ends then low.num ≤ d * low.den && d * high.den ≤ high.num
  else low.num < d * low.den && d * high.den < high.num

/-- The nearer of the two neighbours of the float in units of `10 ^ p` that reads back; a tie
goes to the even one. -/
def Rounding.onGrid? (r : Rounding) (p : Int) : Option Nat :=
  let v := (Ratio.scale r.value r.exponent).inUnits p
  let d := v.num / v.den
  let twice := 2 * (v.num % v.den)
  match r.holds p d, r.holds p (d + 1) with
  | true, true =>
    if twice < v.den then some d
    else if v.den < twice then some (d + 1)
    else if d % 2 == 0 then some d else some (d + 1)
  | true, false => some d
  | false, true => some (d + 1)
  | false, false => none

def stripZeros : Nat → Scaled → Scaled
  | 0, d => d
  | fuel + 1, d =>
    if d.digits != 0 && d.digits % 10 == 0 then stripZeros fuel ⟨d.digits / 10, d.exponent + 1⟩
    else d

/-- The shortest decimal of `mantissa * 2 ^ exponent`, the mantissa not being zero. -/
def shortest (mantissa : Nat) (exponent : Int) : Scaled :=
  let r := Rounding.of mantissa exponent
  let e := (Ratio.scale r.value r.exponent).leading
  let grids := (List.range 17).map fun (n : Nat) => e - (n : Int)
  let found := grids.findSome? fun p => (r.onGrid? p).map fun d => (⟨d, p⟩ : Scaled)
  match found with
  | some d => stripZeros 18 d
  | none => ⟨mantissa, exponent⟩

end OpenApi.Decimal
