import OpenApi.Decimal.Binary64
import Mathlib.Data.Int.Order.Lemmas
import Mathlib.Tactic.Ring
/-! # What floats count

A float is read from its bits as the logic unpacks it. Two floats are equal if they count the same,
and a float is an integer if it counts that integer. -/
namespace OpenApi.Decimal.Binary64

open Float.Model (UnpackedFloat)
open Float.Model.UnpackedFloat (Sign)

def isNegative : Sign → Bool
  | .negative => true
  | .positive => false

def ofUnpacked : UnpackedFloat → Binary64
  | .notANumber => .nan
  | .infinity s => .infinite (isNegative s)
  | .zero s => .finite (isNegative s) 0 (-1074)
  | .finite s m e _ => .finite (isNegative s) m e

theorem exponent_toNat (b : BitVec 64) :
    (@UnpackedFloat.unpackExponent .binary64 b).toNat = b.toNat / 2 ^ 52 % 2 ^ 11 := by
  simp [UnpackedFloat.unpackExponent, Nat.shiftRight_eq_div_pow]

theorem mantissa_toNat (b : BitVec 64) :
    (@UnpackedFloat.unpackMantissa .binary64 b).toNat = b.toNat % 2 ^ 52 := by
  simp [UnpackedFloat.unpackMantissa]

theorem sign_toNat (b : BitVec 64) :
    (@UnpackedFloat.unpackSign .binary64 b).toNat = b.toNat / 2 ^ 63 % 2 := by
  delta UnpackedFloat.unpackSign
  simp [Nat.shiftRight_eq_div_pow]

theorem isNegative_ofBitVec (s : BitVec 1) : isNegative (Sign.ofBitVec s) = (s.toNat == 1) := by
  revert s
  decide

theorem toNat_eq_iff {w : Nat} {a b : BitVec w} {n : Nat} (hb : b.toNat = n) :
    a = b ↔ a.toNat = n := by
  rw [← BitVec.toNat_inj, hb]

theorem append_implicit (m : BitVec 52) : (1#1 ++ m).toNat = m.toNat + 2 ^ 52 := by
  rw [BitVec.toNat_append, ← Nat.shiftLeft_add_eq_or_of_lt m.isLt]
  exact Nat.add_comm _ _

theorem ofFloat_eq (x : Float) : ofFloat x = ofUnpacked x.toModel.unpack := by
  obtain ⟨⟨bits, valid⟩⟩ := x
  show ofBits bits.toBitVec.toNat = ofUnpacked (UnpackedFloat.unpack .binary64 bits.toBitVec)
  generalize bits.toBitVec = b
  have hs : isNegative (Sign.ofBitVec (@UnpackedFloat.unpackSign .binary64 b)) =
      (b.toNat / 2 ^ 63 % 2 == 1) := by
    rw [isNegative_ofBitVec, sign_toNat]
  unfold ofBits UnpackedFloat.unpack
  dsimp only
  rw [apply_ite ofUnpacked, apply_ite ofUnpacked, apply_ite ofUnpacked, apply_dite ofUnpacked]
  dsimp only [ofUnpacked]
  simp only [Nat.pow_eq, ← exponent_toNat, ← mantissa_toNat, ← hs, beq_iff_eq,
    toNat_eq_iff (show (-1#11).toNat = 2047 from rfl), toNat_eq_iff (show (0#11).toNat = 0 from rfl),
    toNat_eq_iff (show (0#52).toNat = 0 from rfl)]
  by_cases hinf : (@UnpackedFloat.unpackExponent .binary64 b).toNat = 2047
  · by_cases hm : (@UnpackedFloat.unpackMantissa .binary64 b).toNat = 0
    · simp only [hinf, hm, if_true]
    · simp only [hinf, hm, if_true, if_false]
  by_cases hsub : (@UnpackedFloat.unpackExponent .binary64 b).toNat = 0
  · by_cases hm : (@UnpackedFloat.unpackMantissa .binary64 b).toNat = 0
    · simp [hsub, hm]
    · simp [hsub, hm, Float.Model.Format.exponentBias]
  · simp only [hinf, hsub, if_false, append_implicit]
    rfl

/-- A mantissa has no more bits than it may, and fewer than that at the least exponent only. -/
structure Canonical (m : Nat) (e : Int) : Prop where
  mantissa_lt : m < 2 ^ 53
  exponent_ge : -1074 ≤ e
  full : e = -1074 ∨ 2 ^ 52 ≤ m

theorem canonical_ofBits {bits m : Nat} {negative : Bool} {e : Int}
    (h : ofBits bits = .finite negative m e) : Canonical m e := by
  have hlt : bits % 2 ^ 52 < 2 ^ 52 := Nat.mod_lt _ (by decide)
  unfold ofBits at h
  simp only [Nat.pow_eq, beq_iff_eq] at h
  split_ifs at h with hinf hzero hsub
  · cases h
    exact ⟨by omega, by omega, Or.inl rfl⟩
  · cases h
    exact ⟨by omega, by omega, Or.inr (by omega)⟩

/-- What a float counts, in units of the least positive one. -/
inductive Amount where
  | nan
  | infinite (negative : Bool)
  | units (n : Int)

def signed (negative : Bool) (n : Nat) : Int := if negative then -n else n

def amount : Binary64 → Amount
  | nan => .nan
  | infinite negative => .infinite negative
  | finite negative m e => .units (signed negative (m * 2 ^ (e + 1074).toNat))

/-- Of two ways to write an amount neither has the lower exponent. -/
theorem Canonical.exponent_not_lt {m n : Nat} {e f : Int} (h : Canonical m e) (k : Canonical n f)
    (hmn : m * 2 ^ (e + 1074).toNat = n * 2 ^ (f + 1074).toNat) : ¬ e < f := by
  intro hlt
  have he := h.exponent_ge
  obtain ⟨d, hd⟩ : ∃ d, (f + 1074).toNat = (e + 1074).toNat + (d + 1) :=
    ⟨(f - e).toNat - 1, by omega⟩
  rw [hd, Nat.pow_add, Nat.pow_succ, Nat.mul_left_comm, Nat.mul_comm m] at hmn
  have hmd := Nat.eq_of_mul_eq_mul_left (Nat.two_pow_pos _) hmn
  have hn : 2 ^ 52 ≤ n := k.full.resolve_left (by omega)
  have hpos := Nat.two_pow_pos d
  have hle : n * 2 ≤ n * (2 ^ d * 2) := Nat.mul_le_mul_left n (by omega)
  have hm := h.mantissa_lt
  omega

theorem Canonical.unique {m n : Nat} {e f : Int} (h : Canonical m e) (k : Canonical n f)
    (hmn : m * 2 ^ (e + 1074).toNat = n * 2 ^ (f + 1074).toNat) : m = n ∧ e = f := by
  have hle := h.exponent_not_lt k hmn
  have hge := k.exponent_not_lt h hmn.symm
  obtain rfl : e = f := by omega
  exact ⟨Nat.eq_of_mul_eq_mul_right (Nat.two_pow_pos _) hmn, rfl⟩

theorem signed_eq_iff {s t : Bool} {m n : Nat} (hm : 0 < m) :
    signed s m = signed t n ↔ s = t ∧ m = n := by
  unfold signed
  cases s <;> cases t <;> simp <;> omega

theorem canonical_ofFloat {x : Float} {s : Bool} {m : Nat} {e : Int}
    (h : ofFloat x = .finite s m e) : Canonical m e := canonical_ofBits h

theorem isNegative_inj {s t : Sign} : isNegative s = isNegative t ↔ s = t := by
  cases s <;> cases t <;> simp [isNegative]

theorem compare_sign {s t : Sign} : compare s t = .eq ↔ s = t := by
  cases s <;> cases t <;> first | exact ⟨fun _ => rfl, fun _ => rfl⟩ | exact ⟨nofun, nofun⟩

theorem compare_finite {s t : Sign} {m n : Nat} {e f : Int} {hm : 0 < m} {hn : 0 < n} :
    (UnpackedFloat.finite s m e hm).compare (.finite t n f hn) = some .eq ↔
      s = t ∧ m = n ∧ e = f := by
  cases s with
  | negative =>
    cases t with
    | negative =>
      show some ((compare e f).then (compare m n)).swap = some .eq ↔ _
      simp [Ordering.then_eq_eq, and_comm]
    | positive => constructor <;> intro h <;> first | cases h.1 | cases h
  | positive =>
    cases t with
    | negative => constructor <;> intro h <;> first | cases h.1 | cases h
    | positive =>
      show some ((compare e f).then (compare m n)) = some .eq ↔ _
      simp [Ordering.then_eq_eq, and_comm]

theorem isNaN_ofUnpacked (u : UnpackedFloat) : u.isNaN = true ↔ (ofUnpacked u).amount = .nan := by
  cases u <;> constructor <;> intro h <;> first | rfl | cases h

theorem isNaN_iff {x : Float} : x.isNaN = true ↔ (ofFloat x).amount = .nan := by
  rw [ofFloat_eq]
  exact isNaN_ofUnpacked x.toModel.unpack

theorem signed_mul_ne_zero {s t : Bool} {m k : Nat} (hm : 0 < m) :
    signed s (m * 2 ^ k) ≠ signed t 0 := by
  intro h
  have hpos : 0 < m * 2 ^ k := Nat.mul_pos hm (Nat.two_pow_pos k)
  obtain ⟨-, h0⟩ := (signed_eq_iff hpos).mp h
  omega

theorem amount_finite {s t : Bool} {m n : Nat} {e f : Int} (h : Canonical m e) (k : Canonical n f)
    (hm : 0 < m) :
    (finite s m e).amount = (finite t n f).amount ↔ s = t ∧ m = n ∧ e = f := by
  have hpos : 0 < m * 2 ^ (e + 1074).toNat := Nat.mul_pos hm (Nat.two_pow_pos _)
  unfold amount
  rw [Amount.units.injEq, signed_eq_iff hpos]
  constructor
  · rintro ⟨hs, hmn⟩
    exact ⟨hs, h.unique k hmn⟩
  · rintro ⟨hs, rfl, rfl⟩
    exact ⟨hs, rfl⟩

theorem amount_zero_ne {s t : Bool} {n : Nat} {f : Int} (hn : 0 < n) :
    (finite s 0 (-1074)).amount ≠ (finite t n f).amount := by
  rw [amount, amount, ne_eq, Amount.units.injEq, Nat.zero_mul]
  exact (signed_mul_ne_zero hn).symm

theorem beq_iff {x y : Float} :
    (x == y) = true ↔ x.isNaN = false ∧ (ofFloat x).amount = (ofFloat y).amount := by
  have hx : ∀ {s m e}, ofUnpacked x.toModel.unpack = .finite s m e → Canonical m e := by
    rw [← ofFloat_eq]
    exact canonical_ofFloat
  have hy : ∀ {s m e}, ofUnpacked y.toModel.unpack = .finite s m e → Canonical m e := by
    rw [← ofFloat_eq]
    exact canonical_ofFloat
  rw [ofFloat_eq, ofFloat_eq]
  show (x.toModel.unpack.compare y.toModel.unpack == some .eq) = true ↔
    x.toModel.unpack.isNaN = false ∧ _
  generalize x.toModel.unpack = u at hx
  generalize y.toModel.unpack = v at hy
  rw [beq_iff_eq, ← Bool.not_eq_true, isNaN_ofUnpacked]
  cases u with
  | notANumber =>
    refine ⟨fun h => ?_, fun h => absurd rfl h.1⟩
    cases h
  | infinity s =>
    cases v with
    | infinity t =>
      show some (compare s t) = some .eq ↔ _
      dsimp only [ofUnpacked]
      simp [amount, compare_sign, isNegative_inj]
    | notANumber | zero | finite =>
      cases s <;> constructor <;> intro h <;> first | cases h.2 | cases h
  | zero s =>
    cases v with
    | infinity t => cases t <;> constructor <;> intro h <;> first | cases h.2 | cases h
    | notANumber => constructor <;> intro h <;> first | cases h.2 | cases h
    | zero t =>
      show some Ordering.eq = some .eq ↔ _
      dsimp only [ofUnpacked]
      simp [amount, signed]
    | finite t n f hn =>
      refine ⟨fun h => ?_, fun h => absurd h.2 (amount_zero_ne hn)⟩
      cases t <;> cases h
  | finite s m e hm =>
    cases v with
    | infinity t => cases s <;> cases t <;> constructor <;> intro h <;> first | cases h.2 | cases h
    | notANumber => cases s <;> constructor <;> intro h <;> first | cases h.2 | cases h
    | zero t =>
      refine ⟨fun h => ?_, fun h => absurd h.2.symm (amount_zero_ne hm)⟩
      cases s <;> cases h
    | finite t n f hn =>
      have hcount : (finite (isNegative s) m e).amount = (finite (isNegative t) n f).amount ↔
          s = t ∧ m = n ∧ e = f := by
        rw [amount_finite (hx rfl) (hy rfl) hm, isNegative_inj]
      refine compare_finite.trans ⟨fun h => ⟨fun hnan => ?_, hcount.mpr h⟩, fun h => hcount.mp h.2⟩
      cases hnan

theorem signed_mul (s : Bool) (m k : Nat) : signed s (m * k) = signed s m * k := by
  unfold signed
  cases s <;> simp

theorem signed_mul_eq_iff {s : Bool} {m k : Nat} (hk : 0 < k) {n : Int} :
    signed s (m * k) = n * k ↔ signed s m = n := by
  rw [signed_mul]
  exact Int.mul_eq_mul_right_iff (Int.natCast_ne_zero.mpr hk.ne')

def unitsOfOne : Nat := 2 ^ 1074

theorem unitsOfOne_eq {a b : Nat} (h : a + b = 1074) : unitsOfOne = 2 ^ a * 2 ^ b := by
  rw [← Nat.pow_add, h, unitsOfOne]

theorem unitsOfOne_pos : 0 < unitsOfOne := pow_pos two_pos 1074

def Amount.ofInt (n : Int) : Amount := .units (n * unitsOfOne)

theorem Amount.ofInt_inj {m n : Int} : ofInt m = ofInt n ↔ m = n := by
  rw [ofInt, ofInt, Amount.units.injEq]
  exact Int.mul_eq_mul_right_iff (Int.natCast_ne_zero.mpr unitsOfOne_pos.ne')

theorem isInt_iff {x : Float} {n : Int} :
    (ofFloat x).isInt n = true ↔ (ofFloat x).amount = .ofInt n := by
  have hx : ∀ {s m e}, ofFloat x = .finite s m e → Canonical m e := canonical_ofFloat
  generalize ofFloat x = b at hx
  cases b with
  | nan | infinite s => exact ⟨nofun, nofun⟩
  | finite s m e =>
    have he := (hx rfl).exponent_ge
    have hsign : ∀ k : Nat, (if s then -1 else 1 : Int) * k = signed s k := by
      intro k
      cases s <;> simp [signed]
    rw [amount, Amount.ofInt, Amount.units.injEq, isInt]
    simp only [hsign, Nat.pow_eq]
    by_cases h0 : 0 ≤ e
    · have hadd : 2 ^ (e + 1074).toNat = 2 ^ e.toNat * unitsOfOne := by
        rw [unitsOfOne, ← Nat.pow_add]
        congr 1
        omega
      rw [if_pos h0, beq_iff_eq, hadd, ← Nat.mul_assoc, signed_mul_eq_iff unitsOfOne_pos]
    · have hadd : (-e).toNat + (e + 1074).toNat = 1074 := by omega
      rw [if_neg h0, beq_iff_eq, unitsOfOne_eq hadd, Int.natCast_mul, ← Int.mul_assoc,
        signed_mul_eq_iff (Nat.two_pow_pos _)]

end OpenApi.Decimal.Binary64
