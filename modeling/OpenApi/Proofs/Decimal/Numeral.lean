import OpenApi.Decimal.Numeral
/-! # Numerals are read back

The decimal numeral of a natural number is read as that number, if it has no more digits than may be read. -/
namespace OpenApi.Decimal

theorem toNat_bounds_of_isDigit {c : Char} (h : c.isDigit = true) : 48 ≤ c.toNat ∧ c.toNat ≤ 57 := by
  simp only [Char.isDigit, Bool.and_eq_true, decide_eq_true_eq, ge_iff_le, UInt32.le_iff_toNat_le] at h
  exact h

theorem digitValue?_of_isDigit {c : Char} (h : c.isDigit = true) :
    Text.digitValue? c = some (c.toNat - 48) := by
  obtain ⟨hlow, hhigh⟩ := toNat_bounds_of_isDigit h
  rw [Text.digitValue?, Text.digitZeros, List.find?_cons_of_pos (by simp [hlow, hhigh])]
  rfl

theorem natOfDigits_eq (cs : List Char) :
    natOfDigits (cs.map fun c => c.toNat - 48) = Nat.ofDigitChars 10 cs 0 := by
  rw [natOfDigits, List.foldl_map]
  rfl

section Digits

variable {cs : List Char} (h : ∀ c ∈ cs, c.isDigit = true)

include h

theorem digitRun_digits : digitRun cs = (cs.map fun c => c.toNat - 48, []) := by
  induction cs with
  | nil => rfl
  | cons c cs ih =>
    obtain ⟨hc, hcs⟩ := List.forall_mem_cons.mp h
    rw [digitRun, digitValue?_of_isDigit hc]
    cases cs with
    | nil => rfl
    | cons d cs =>
      have hd : d ≠ '_' := by
        rintro rfl
        exact absurd (hcs '_' List.mem_cons_self) (by decide)
      dsimp only
      split
      · next heq => exact absurd (List.cons.inj heq).1 hd
      · rw [ih hcs]
        rfl

theorem trim_digits : Text.trim Text.isAsciiSpace cs = cs := by
  have hspace : ∀ {ds : List Char}, (∀ c ∈ ds, c.isDigit = true) →
      ds.dropWhile Text.isAsciiSpace = ds := by
    intro ds hds
    cases ds with
    | nil => rfl
    | cons c ds =>
      obtain ⟨hlow, -⟩ := toNat_bounds_of_isDigit (hds c List.mem_cons_self)
      refine List.dropWhile_cons_of_neg ?_
      simp [Text.isAsciiSpace]
      omega
  rw [Text.trim, hspace h, hspace (by simpa using h), List.reverse_reverse]

theorem trimNumeral_digits : trimNumeral cs = cs := by
  have hascii : cs.all (·.toNat < 0x80) = true := by
    rw [List.all_eq_true]
    intro c hc
    have := toNat_bounds_of_isDigit (h c hc)
    simp
    omega
  rw [trimNumeral, if_pos hascii, trim_digits h]

theorem sign_digits : sign cs = (false, cs) := by
  cases cs with
  | nil => rfl
  | cons c cs =>
    have hc := h c List.mem_cons_self
    unfold sign
    split
    · next heq =>
      rw [(List.cons.inj heq).1] at hc
      exact absurd hc (by decide)
    · next heq =>
      rw [(List.cons.inj heq).1] at hc
      exact absurd hc (by decide)
    · rfl

end Digits

theorem readInt?_toString_eq (n : Nat) : readInt? (toString n) =
    if maxIntDigits < (Nat.toDigits 10 n).length then none else some (n : Int) := by
  have hdigit : ∀ c ∈ Nat.toDigits 10 n, c.isDigit = true :=
    fun c hc => Nat.isDigit_of_mem_toDigits (by decide) (by decide) hc
  have hne : (Nat.toDigits 10 n).map (fun c => c.toNat - 48) ≠ [] := by
    simp [Nat.toDigits_ne_nil]
  rw [readInt?, Nat.toString_eq_ofList_toDigits, String.toList_ofList, trimNumeral_digits hdigit,
    sign_digits hdigit]
  dsimp only
  rw [digitRun_digits hdigit]
  split
  · next heq => exact absurd (Prod.mk.inj heq).1 hne
  · next ds heq =>
    rw [← (Prod.mk.inj heq).1, List.length_map, natOfDigits_eq, Nat.ofDigitChars_ten_toDigits]
    rfl
  · next hrest => exact absurd rfl (hrest _)

theorem readInt?_toString {n : Nat} (h : (toString n).length ≤ maxIntDigits) :
    readInt? (toString n) = some (n : Int) := by
  rw [Nat.toString_eq_ofList_toDigits, String.length_ofList] at h
  rw [readInt?_toString_eq, if_neg (by omega)]

theorem eq_of_readInt?_toString {n : Nat} {i : Int} (h : readInt? (toString n) = some i) : i = n := by
  rw [readInt?_toString_eq] at h
  split at h
  · cases h
  · exact (Option.some.inj h).symm

end OpenApi.Decimal
