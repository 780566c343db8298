import OpenApi.Text.Utf8
/-! # Reading UTF-8

The bytes of a character stand for it whatever follows them, so a text is read back from its bytes. -/
namespace OpenApi.Text

theorem toNat_byte {n : Nat} (h : n < 256) : (byte n).toNat = n := by
  simp [byte]
  omega

theorem code_bounds (c : Char) :
    c.toNat < 0xD800 ∨ (0xDFFF < c.toNat ∧ c.toNat < 0x110000) := c.valid

theorem toNat_lt_of_isAlphanum {c : Char} (h : c.isAlphanum = true) : c.toNat < 123 := by
  delta Char.isAlphanum Char.isAlpha Char.isUpper Char.isLower Char.isDigit at h
  simp only [Bool.or_eq_true, decide_eq_true_eq, ge_iff_le, Bool.and_eq_true,
    UInt32.le_iff_toNat_le] at h
  simp at h
  have : c.toNat = c.val.toNat := rfl
  omega

theorem forall_isAlphanum {P : Char → Prop}
    (h : ∀ n < 123, (Char.ofNat n).isAlphanum = true → P (Char.ofNat n)) {c : Char}
    (hc : c.isAlphanum = true) : P c := by
  have hp := h c.toNat (toNat_lt_of_isAlphanum hc)
  rw [Char.ofNat_toNat] at hp
  exact hp hc

theorem lead?_two {b : Nat} (h : 0xC2 ≤ b) (h' : b < 0xE0) :
    lead? b = some (1, b - 0xC0, 0x80, 0xBF) := by
  rw [lead?, if_neg (by omega), if_pos h']

/-- The second byte of three or four narrows the values of the first. -/
theorem lead?_three {m : Nat} (h : 0x800 ≤ m) (h' : m < 0xD800 ∨ (0xDFFF < m ∧ m < 0x10000)) :
    ∃ low high, lead? (0xE0 + m / 0x1000) = some (2, m / 0x1000, low, high) ∧
      low ≤ 0x80 + m / 0x40 % 0x40 ∧ 0x80 + m / 0x40 % 0x40 ≤ high := by
  by_cases h0 : m / 0x1000 = 0
  · exact ⟨0xA0, 0xBF, by simp [lead?, h0], by omega, by omega⟩
  by_cases hd : m / 0x1000 = 0xD
  · exact ⟨0x80, 0x9F, by simp [lead?, hd], by omega, by omega⟩
  · refine ⟨0x80, 0xBF, ?_, by omega, by omega⟩
    rw [lead?, if_neg (by omega), if_neg (by omega), if_neg (by simp; omega),
      if_neg (by simp; omega), if_pos (by omega)]
    simp

theorem lead?_four {m : Nat} (h : 0x10000 ≤ m) (h' : m < 0x110000) :
    ∃ low high, lead? (0xF0 + m / 0x40000) = some (3, m / 0x40000, low, high) ∧
      low ≤ 0x80 + m / 0x1000 % 0x40 ∧ 0x80 + m / 0x1000 % 0x40 ≤ high := by
  by_cases h0 : m / 0x40000 = 0
  · exact ⟨0x90, 0xBF, by simp [lead?, h0], by omega, by omega⟩
  by_cases h4 : m / 0x40000 = 4
  · exact ⟨0x80, 0x8F, by simp [lead?, h4], by omega, by omega⟩
  · refine ⟨0x80, 0xBF, ?_, by omega, by omega⟩
    rw [lead?, if_neg (by omega), if_neg (by omega), if_neg (by simp; omega),
      if_neg (by simp; omega), if_neg (by omega), if_neg (by simp; omega), if_pos (by omega)]
    simp

theorem tails_byte {n : Nat} (hn : n < 0x40) (more width value : Nat) (rest : List UInt8) :
    tails (more + 1) width value (byte (0x80 + n) :: rest) =
      tails more (width + 1) (value * 0x40 + n) rest := by
  have hb : (byte (0x80 + n)).toNat = 0x80 + n := toNat_byte (by omega)
  have htail : isTail (0x80 + n) = true := by
    simp [isTail]
    omega
  rw [tails, hb, if_pos htail, Nat.add_sub_cancel_left]

theorem front_lead {a b more value low high : Nat} (ha : 0x80 ≤ a) (ha' : a < 256)
    (h : lead? a = some (more, value, low, high)) (hlow : low ≤ 0x80 + b)
    (hhigh : 0x80 + b ≤ high) (hb : b < 0x40) (rest : List UInt8) :
    front (byte a) (byte (0x80 + b) :: rest) = tails (more - 1) 2 (value * 0x40 + b) rest := by
  have hfirst : (byte a).toNat = a := toNat_byte ha'
  have hsecond : (byte (0x80 + b)).toNat = 0x80 + b := toNat_byte (by omega)
  rw [front, hfirst, if_neg (by omega), h]
  simp only [hsecond, Nat.add_sub_cancel_left]
  rw [if_pos (by simp [hlow, hhigh])]

/-- The bytes of a character are read as that character, whatever stands behind them. -/
theorem front_encodeChar (c : Char) (rest : List UInt8) :
    ∃ b bs, encodeChar c = b :: bs ∧ front b (bs ++ rest) = .char c (bs.length + 1) := by
  have hbounds := code_bounds c
  unfold encodeChar
  simp only
  by_cases h1 : c.toNat < 0x80
  · refine ⟨_, [], if_pos h1, ?_⟩
    rw [front, toNat_byte (by omega), if_pos h1, Char.ofNat_toNat]
    rfl
  rw [if_neg h1]
  by_cases h2 : c.toNat < 0x800
  · refine ⟨_, _, if_pos h2, ?_⟩
    rw [List.cons_append, front_lead (by omega) (by omega)
      (lead?_two (by omega) (by omega)) (by omega) (by omega) (by omega)]
    have hcode : (0xC0 + c.toNat / 0x40 - 0xC0) * 0x40 + c.toNat % 0x40 = c.toNat := by omega
    rw [hcode, tails, Char.ofNat_toNat]
    rfl
  rw [if_neg h2]
  by_cases h3 : c.toNat < 0x10000
  · obtain ⟨low, high, hlead, hlow, hhigh⟩ := lead?_three (m := c.toNat) (by omega) (by omega)
    refine ⟨_, _, if_pos h3, ?_⟩
    rw [List.cons_append, front_lead (by omega) (by omega) hlead hlow hhigh (by omega),
      List.cons_append, tails_byte (by omega)]
    have hcode : (c.toNat / 0x1000 * 0x40 + c.toNat / 0x40 % 0x40) * 0x40 + c.toNat % 0x40 =
        c.toNat := by omega
    rw [hcode, tails, Char.ofNat_toNat]
    rfl
  rw [if_neg h3]
  obtain ⟨low, high, hlead, hlow, hhigh⟩ := lead?_four (m := c.toNat) (by omega) (by omega)
  refine ⟨_, _, rfl, ?_⟩
  rw [List.cons_append, front_lead (by omega) (by omega) hlead hlow hhigh (by omega),
    List.cons_append, tails_byte (by omega), List.cons_append, tails_byte (by omega)]
  have hcode : ((c.toNat / 0x40000 * 0x40 + c.toNat / 0x1000 % 0x40) * 0x40 +
      c.toNat / 0x40 % 0x40) * 0x40 + c.toNat % 0x40 = c.toNat := by omega
  rw [hcode, tails, Char.ofNat_toNat]
  rfl

theorem decodeLossy_encode (cs : List Char) {fuel : Nat}
    (h : (cs.flatMap encodeChar).length ≤ fuel) :
    decodeLossy fuel (cs.flatMap encodeChar) = cs := by
  induction cs generalizing fuel with
  | nil => cases fuel <;> rfl
  | cons c cs ih =>
    obtain ⟨b, bs, hc, hfront⟩ := front_encodeChar c (cs.flatMap encodeChar)
    rw [List.flatMap_cons, hc, List.cons_append] at h ⊢
    rw [List.length_cons, List.length_append] at h
    cases fuel with
    | zero => omega
    | succ fuel =>
      rw [decodeLossy, hfront]
      simp only [List.drop_succ_cons, List.drop_left]
      rw [ih (by omega)]

theorem decodeReplacing_encode (cs : List Char) :
    decodeReplacing (cs.flatMap encodeChar) = cs := decodeLossy_encode cs (Nat.le_refl _)

end OpenApi.Text
