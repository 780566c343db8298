import OpenApi.Decimal.Shortest
/-! # Written floats

How the shortest decimal of a float is laid out. The numbers from a ten-thousandth up to ten
million billions are written with a point and at least one digit on either side of it, all
others with one leading digit and an exponent of at least two digits.
-/
namespace OpenApi.Decimal

structure Layout where
  /-- The least and the greatest exponent of a leading digit that is written with a point. -/
  pointFrom : Int
  pointTo : Int
  exponentWidth : Nat
  nan : String
  infinity : String

def Layout.plain : Layout := ⟨-4, 15, 2, "nan", "inf"⟩

def Layout.json : Layout := ⟨-4, 15, 2, "NaN", "Infinity"⟩

def zeros (n : Nat) : List Char := List.replicate n '0'

/-- The decimal with a point: `point` is the number of digits before it. -/
def withPoint (ds : List Char) (point : Int) : List Char :=
  if point ≤ 0 then '0' :: '.' :: (zeros (-point).toNat ++ ds)
  else
    let n := point.toNat
    if ds.length ≤ n then ds ++ zeros (n - ds.length) ++ ['.', '0']
    else ds.take n ++ '.' :: ds.drop n

def padLeft (width : Nat) (ds : List Char) : List Char := zeros (width - ds.length) ++ ds

def withExponent (width : Nat) (ds : List Char) (e : Int) : List Char :=
  let mantissa := match ds with
    | [] => []
    | [d] => [d]
    | d :: rest => d :: '.' :: rest
  mantissa ++ 'e' :: (if e < 0 then '-' else '+') :: padLeft width (Nat.toDigits 10 e.natAbs)

def Layout.digits (layout : Layout) (d : Scaled) : List Char :=
  let ds := Nat.toDigits 10 d.digits
  let e := d.exponent + ds.length - 1
  if layout.pointFrom ≤ e && e ≤ layout.pointTo then withPoint ds (e + 1)
  else withExponent layout.exponentWidth ds e

def Layout.write (layout : Layout) (x : Float) : String :=
  match Binary64.ofFloat x with
  | .nan => layout.nan
  | .infinite negative => if negative then "-" ++ layout.infinity else layout.infinity
  | .finite negative m e =>
    let ds := if m == 0 then ['0', '.', '0'] else layout.digits (shortest m e)
    String.ofList (if negative then '-' :: ds else ds)

end OpenApi.Decimal
