import Mathlib
import OpenApi.Proofs.Text.Utf8
import OpenApi.Text.LetterCase
/-! # Letters of ASCII in lower case

A text that is one of small letters of ASCII in lower case was one of letters of ASCII before. The one
exception is the Kelvin sign, which becomes a `k`. -/
namespace OpenApi.Text

theorem isAlphanum_of_isLower {c : Char} (h : c.isLower = true) : c.isAlphanum = true := by
  simp [Char.isAlphanum, Char.isAlpha, h]

/-- Only one run leads from beyond ASCII into it, that of the Kelvin sign. -/
theorem lowerRuns_stay : ∀ r ∈ lowerRuns,
    0x80 ≤ r.first + r.shift ∨ r.first = 0x212A ∧ r.last = 0x212A ∧ r.shift = -0x20BF := by
  decide +kernel

theorem expansions_stay : ∀ e ∈ lowerExpansions, ∃ n ∈ e.2, (Char.ofNat n).isLower = false := by
  decide +kernel

theorem toNat_lt_of_mapCase {c : Char} (h : (mapCase lowerRuns c).isLower = true)
    (hk : mapCase lowerRuns c ≠ 'k') : c.toNat < 0x80 := by
  have hbound : (mapCase lowerRuns c).toNat < 123 := toNat_lt_of_isAlphanum (isAlphanum_of_isLower h)
  have hpos : (mapCase lowerRuns c).toNat ≠ 0 := by
    intro hzero
    have hc : mapCase lowerRuns c = Char.ofNat 0 := by rw [← hzero, Char.ofNat_toNat]
    rw [hc] at h
    exact absurd h (by decide)
  unfold mapCase at hbound hk hpos
  cases hr : lowerRuns.find? (·.holds c.toNat) with
  | none =>
    rw [hr] at hbound
    exact Nat.lt_trans hbound (by decide)
  | some r =>
    rw [hr] at hbound hk hpos
    dsimp only at hbound hk hpos
    have hholds := List.find?_some hr
    simp only [CaseRun.holds, Bool.and_eq_true, decide_eq_true_eq] at hholds
    have hvalid : (c.toNat + r.shift).toNat.isValidChar := by
      by_contra hnot
      exact hpos (by rw [Char.toNat_ofNat, if_neg hnot])
    rw [Char.toNat_ofNat, if_pos hvalid] at hbound
    rcases lowerRuns_stay r (List.mem_of_find?_eq_some hr) with hfar | ⟨hfirst, hlast, hshift⟩
    · omega
    · have hkelvin : (c.toNat + r.shift).toNat = 107 := by omega
      rw [hkelvin] at hk
      exact absurd rfl hk

theorem toNat_lt_of_lowerChar {c : Char} (h : ∀ d ∈ lowerChar c, d.isLower = true ∧ d ≠ 'k') :
    c.toNat < 0x80 := by
  rcases Nat.lt_or_ge c.toNat 0x80 with hc | hc
  · exact hc
  unfold lowerChar at h
  rw [if_neg (by omega)] at h
  cases hl : lowerExpansions.lookup c.toNat with
  | some ns =>
    rw [hl] at h
    obtain ⟨front, back, he, -⟩ := List.lookup_eq_some_iff.mp hl
    obtain ⟨n, hn, hlower⟩ := expansions_stay (c.toNat, ns) (by simp [he])
    have := (h (Char.ofNat n) (List.mem_map_of_mem hn)).1
    rw [hlower] at this
    cases this
  | none =>
    rw [hl] at h
    obtain ⟨hlower, hk⟩ := h _ List.mem_cons_self
    exact toNat_lt_of_mapCase hlower hk

theorem isLower_lowerSigma (before rest : List Char) : (lowerSigma before rest).isLower = false := by
  unfold lowerSigma
  split <;> decide

/-- Characters whose lower case is small letters of ASCII, none of them a `k`, are characters of ASCII. -/
theorem toNat_lt_of_lowerBehind {before cs : List Char}
    (h : ∀ d ∈ lowerBehind before cs, d.isLower = true ∧ d ≠ 'k') : ∀ c ∈ cs, c.toNat < 0x80 := by
  induction cs generalizing before with
  | nil => exact fun _ hc => absurd hc List.not_mem_nil
  | cons c rest ih =>
    rw [lowerBehind] at h
    obtain ⟨hfirst, hrest⟩ := List.forall_mem_append.mp h
    refine List.forall_mem_cons.mpr ⟨?_, ih hrest⟩
    split at hfirst
    · have hsigma := (hfirst _ (List.mem_singleton_self _)).1
      rw [isLower_lowerSigma] at hsigma
      cases hsigma
    · exact toNat_lt_of_lowerChar hfirst

theorem lowerBehind_of_ascii {before cs : List Char} (h : ∀ c ∈ cs, c.toNat < 0x80) :
    lowerBehind before cs = cs.map Char.toLower := by
  induction cs generalizing before with
  | nil => rfl
  | cons c rest ih =>
    obtain ⟨hc, hrest⟩ := List.forall_mem_cons.mp h
    have hsigma : (c == 'Σ') = false := by
      rw [beq_eq_false_iff_ne]
      rintro rfl
      exact absurd hc (by decide)
    rw [lowerBehind, hsigma, ih hrest, lowerChar, if_pos hc]
    rfl

end OpenApi.Text
