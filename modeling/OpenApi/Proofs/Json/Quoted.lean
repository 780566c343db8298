import OpenApi.Json.Reader
import OpenApi.Json.Writer
import Mathlib.Tactic.SplitIfs
/-! # Quoted strings are read back

The reader takes a quoted string for the string that was written, whatever stands behind it. So no
two strings are quoted alike, and a quoted string ends at its closing quote. -/
namespace OpenApi.Text

theorem hexDigits_succ {w : Nat} (hw : 0 < w) (n : Nat) :
    hexDigits (w + 1) n = hexDigits w (n / 16) ++ [(n % 16).digitChar] := by
  dsimp only [hexDigits]
  rw [Nat.toDigits_eq_if (by decide : 1 < 16)]
  split
  · next h =>
    obtain ⟨v, rfl⟩ : ∃ v, w = v + 1 := ⟨w - 1, by omega⟩
    have hzero : Nat.toDigits 16 0 = ['0'] := rfl
    rw [Nat.div_eq_of_lt h, Nat.mod_eq_of_lt h, hzero]
    simp only [List.length_singleton, Nat.add_sub_cancel]
    rw [List.replicate_succ']
  · rw [List.length_append, List.length_singleton, Nat.add_sub_add_right, List.append_assoc]

theorem hexDigits_one {n : Nat} (h : n < 16) : hexDigits 1 n = [n.digitChar] := by
  rw [hexDigits, Nat.toDigits_of_lt_base h]
  rfl

theorem hexDigits_four {n : Nat} (h : n < 0x10000) :
    hexDigits 4 n = [(n / 16 / 16 / 16).digitChar, (n / 16 / 16 % 16).digitChar,
      (n / 16 % 16).digitChar, (n % 16).digitChar] := by
  rw [hexDigits_succ (by decide), hexDigits_succ (by decide), hexDigits_succ (by decide),
    hexDigits_one (by omega)]
  rfl

end OpenApi.Text

namespace OpenApi.Json

theorem hexValue?_digitChar {n : Nat} (h : n < 16) : hexValue? n.digitChar = some n := by
  revert n
  decide

theorem codeUnit?_hexDigits {n : Nat} (h : n < 0x10000) {rest : List Char} (hrest : rest ≠ []) :
    codeUnit? (Text.hexDigits 4 n ++ rest) = some (n, rest) := by
  have hvalue : ((n / 16 / 16 / 16 * 16 + n / 16 / 16 % 16) * 16 + n / 16 % 16) * 16 + n % 16 = n := by
    omega
  rw [Text.hexDigits_four h]
  simp only [List.cons_append, List.nil_append, codeUnit?]
  rw [hexValue?_digitChar (by omega), hexValue?_digitChar (Nat.mod_lt _ (by decide)),
    hexValue?_digitChar (Nat.mod_lt _ (by decide)), hexValue?_digitChar (Nat.mod_lt _ (by decide))]
  simp only [Option.bind_eq_bind, Option.bind_some, hvalue, List.isEmpty_eq_false_iff.mpr hrest,
    Bool.false_eq_true, if_false]

theorem not_surrogate (c : Char) :
    isHighSurrogate c.toNat = false ∧ isLowSurrogate c.toNat = false := by
  have hvalid : c.toNat < 0xD800 ∨ (0xDFFF < c.toNat ∧ c.toNat < 0x110000) := c.valid
  simp only [isHighSurrogate, isLowSurrogate, Bool.and_eq_false_iff, decide_eq_false_iff_not]
  omega

theorem codeEscape_of_small {c : Char} (h : c.toNat < 0x10000) (left : Nat) {rest : List Char}
    (hrest : rest ≠ []) : codeEscape left (Text.hexDigits 4 c.toNat ++ rest) = .ok (c, rest) := by
  obtain ⟨hhigh, hlow⟩ := not_surrogate c
  simp only [codeEscape, codeUnit?_hexDigits h hrest, hhigh, Bool.false_eq_true, if_false,
    unitChar, hlow, Bool.or_self, Char.ofNat_toNat]

theorem codeEscape_pair {high low : Nat} (hhigh : isHighSurrogate high = true)
    (hlow : isLowSurrogate low = true) (left : Nat) {rest : List Char} (hrest : rest ≠ []) :
    codeEscape left (Text.hexDigits 4 high ++ (escapeUnit low ++ rest)) =
      .ok (Char.ofNat (0x10000 + (high - 0xD800) * 0x400 + (low - 0xDC00)), rest) := by
  have hh : high < 0x10000 := by
    simp only [isHighSurrogate, Bool.and_eq_true, decide_eq_true_eq] at hhigh
    omega
  have hl : low < 0x10000 := by
    simp only [isLowSurrogate, Bool.and_eq_true, decide_eq_true_eq] at hlow
    omega
  have hlong : ¬ (Text.hexDigits 4 low ++ rest).length ≤ 4 := by
    have hpos := List.length_pos_iff.mpr hrest
    rw [Text.hexDigits_four hl]
    simp only [List.length_append, List.length_cons, List.length_nil]
    omega
  rw [codeEscape, codeUnit?_hexDigits hh (by simp [escapeUnit])]
  simp only [hhigh, if_true, escapeUnit, List.cons_append, hlong, if_false]
  rw [codeUnit?_hexDigits hl hrest]
  simp only [hlow, if_true]

theorem flatMap_escapeUnit (unit : Nat) (more : List Nat) (rest : List Char) :
    (unit :: more).flatMap escapeUnit ++ rest =
      '\\' :: 'u' :: (Text.hexDigits 4 unit ++ (more.flatMap escapeUnit ++ rest)) := by
  rw [List.flatMap_cons, List.append_assoc]
  rfl

theorem codeEscape_units16 (c : Char) {rest : List Char} (hrest : rest ≠ []) :
    ∃ more, (units16 c).flatMap escapeUnit ++ rest = '\\' :: 'u' :: more ∧
      ∀ left, codeEscape left more = .ok (c, rest) := by
  dsimp only [units16]
  split
  · next h =>
    exact ⟨_, flatMap_escapeUnit _ [] rest, fun left => codeEscape_of_small h left hrest⟩
  · next h =>
    have hvalid : c.toNat < 0xD800 ∨ (0xDFFF < c.toNat ∧ c.toNat < 0x110000) := c.valid
    have hhigh : isHighSurrogate (0xD800 + (c.toNat - 0x10000) / 0x400) = true := by
      simp only [isHighSurrogate, Bool.and_eq_true, decide_eq_true_eq]
      omega
    have hlow : isLowSurrogate (0xDC00 + (c.toNat - 0x10000) % 0x400) = true := by
      simp only [isLowSurrogate, Bool.and_eq_true, decide_eq_true_eq]
      omega
    have hpair : 0x10000 + (0xD800 + (c.toNat - 0x10000) / 0x400 - 0xD800) * 0x400 +
        (0xDC00 + (c.toNat - 0x10000) % 0x400 - 0xDC00) = c.toNat := by
      omega
    refine ⟨_, flatMap_escapeUnit _ _ rest, fun left => ?_⟩
    rw [List.flatMap_singleton, codeEscape_pair hhigh hlow left hrest, hpair, Char.ofNat_toNat]

theorem escapeChar_cases (c : Char) :
    (∃ e, simpleEscape? e = some c ∧ escapeChar true c = ['\\', e]) ∨
      escapeChar true c = (units16 c).flatMap escapeUnit ∨
      (escapeChar true c = [c] ∧ c ≠ '"' ∧ c ≠ '\\' ∧ ¬ c.toNat < 0x20) := by
  have hof : ∀ {n}, (c.toNat == n) = true → some (Char.ofNat n) = some c := by
    intro n h
    rw [← beq_iff_eq.mp h, Char.ofNat_toNat]
  have heq : ∀ {d}, (c == d) = true → some d = some c := fun h => by rw [beq_iff_eq.mp h]
  unfold escapeChar
  split_ifs with hq hb hn hr ht h8 h12 hcode
  · exact .inl ⟨'"', heq hq, rfl⟩
  · exact .inl ⟨'\\', heq hb, rfl⟩
  · exact .inl ⟨'n', heq hn, rfl⟩
  · exact .inl ⟨'r', heq hr, rfl⟩
  · exact .inl ⟨'t', heq ht, rfl⟩
  · exact .inl ⟨'b', hof h8, rfl⟩
  · exact .inl ⟨'f', hof h12, rfl⟩
  · exact .inr (.inl rfl)
  · refine .inr (.inr ⟨rfl, fun h => hq (beq_iff_eq.mpr h), fun h => hb (beq_iff_eq.mpr h), ?_⟩)
    intro h
    simp [h] at hcode

theorem stringRest_escapeChar (opened fuel : Nat) (read : List Char) (c : Char) {rest : List Char}
    (hrest : rest ≠ []) :
    stringRest opened (fuel + 1) read (escapeChar true c ++ rest) =
      stringRest opened fuel (c :: read) rest := by
  rcases escapeChar_cases c with ⟨e, he, hc⟩ | hc | ⟨hc, hquote, hslash, hcontrol⟩
  · have hu : e ≠ 'u' := by
      rintro rfl
      cases he
    rw [hc, List.cons_append, List.singleton_append, stringRest]
    · simp only [he]
    · exact hu
  · obtain ⟨more, hmore, hread⟩ := codeEscape_units16 c hrest
    rw [hc, hmore, stringRest, hread]
    rfl
  · rw [hc, List.singleton_append, stringRest, if_neg hcontrol]
    · exact hquote
    all_goals
      intros
      contradiction

/-- The reader takes the written characters up to the closing quote for the string. -/
theorem stringRest_quoted (opened : Nat) {fuel : Nat} (read s rest : List Char)
    (hfuel : s.length < fuel) :
    stringRest opened fuel read (s.flatMap (escapeChar true) ++ '"' :: rest) =
      .ok (String.ofList (read.reverse ++ s), rest) := by
  obtain ⟨n, rfl⟩ : ∃ n, fuel = n + 1 := ⟨fuel - 1, by omega⟩
  induction s generalizing n read with
  | nil => simp [stringRest]
  | cons c s ih =>
    obtain ⟨n, rfl⟩ : ∃ m, n = m + 1 := ⟨n - 1, by rw [List.length_cons] at hfuel; omega⟩
    rw [List.flatMap_cons, List.append_assoc, stringRest_escapeChar _ _ _ _ (by simp),
      ih (c :: read) n (by simpa using hfuel), List.reverse_cons, List.append_assoc]
    rfl

theorem quote_unique {s t : String} {u v : List Char}
    (h : (quote true s).toList ++ u = (quote true t).toList ++ v) : s = t ∧ u = v := by
  have htext : ∀ (r : String) (w : List Char), (quote true r).toList ++ w =
      '"' :: (r.toList.flatMap (escapeChar true) ++ '"' :: w) := by
    intro r w
    simp [quote]
  rw [htext, htext] at h
  -- reading both sides with fuel for either string gives the string and the rest
  have hread := congrArg (stringRest 0 (s.toList.length + t.toList.length + 1) [])
    (List.cons.inj h).2
  rw [stringRest_quoted 0 [] _ u (by omega), stringRest_quoted 0 [] _ v (by omega)] at hread
  simp only [List.reverse_nil, List.nil_append, String.ofList_toList] at hread
  exact Prod.mk.inj (Except.ok.inj hread)

end OpenApi.Json
