/-! # Binary floating point numbers

A 64-bit float is not a number, an infinity, or a sign with a mantissa times a power of two.
-/
namespace OpenApi.Decimal

inductive Binary64 where
  | nan
  | infinite (negative : Bool)
  | finite (negative : Bool) (mantissa : Nat) (exponent : Int)
  deriving DecidableEq, Repr

def Binary64.ofBits (bits : Nat) : Binary64 :=
  let negative := bits / Nat.pow 2 63 % 2 == 1
  let biased : Nat := bits / Nat.pow 2 52 % Nat.pow 2 11
  let fraction : Nat := bits % Nat.pow 2 52
  if biased == 2047 then (if fraction == 0 then .infinite negative else .nan)
  else if biased == 0 then .finite negative fraction (-1074)
  else .finite negative (fraction + Nat.pow 2 52) (biased - 1075)

def Binary64.ofFloat (x : Float) : Binary64 := .ofBits x.toBits.toNat

/-- The number is the integer `n`, whatever the sign of a zero. -/
def Binary64.isInt (x : Binary64) (n : Int) : Bool :=
  match x with
  | .finite negative m e =>
    let sign : Int := if negative then -1 else 1
    if 0 ≤ e then sign * (m * Nat.pow 2 e.toNat : Nat) == n else sign * m == n * (Nat.pow 2 (-e).toNat : Nat)
  | _ => false

end OpenApi.Decimal
