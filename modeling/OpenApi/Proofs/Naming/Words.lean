import OpenApi.Proofs.Naming.CamelCase
import OpenApi.Proofs.Text.LetterCase
import OpenApi.Proofs.Text.Pattern
/-! # Words as a pattern finds them

The words of a text are cut from its end to its front, one character after the other. A search with a pattern,
which goes from the front to the end, finds the same words. Joined in camel case they keep every letter and
digit of the text. -/
namespace OpenApi.Naming

open Text (Pattern)
open Text.Pattern

inductive CharKind (c : Char) : Prop where
  | digit (hdigit : c.isDigit = true) (hlower : c.isLower = false) (hupper : c.isUpper = false)
  | lower (hdigit : c.isDigit = false) (hlower : c.isLower = true) (hupper : c.isUpper = false)
  | upper (hdigit : c.isDigit = false) (hlower : c.isLower = false) (hupper : c.isUpper = true)
  | other (hdigit : c.isDigit = false) (hlower : c.isLower = false) (hupper : c.isUpper = false)

variable {c : Char} {cs : List Char} {ws : List (List Char)}

theorem isAlpha_eq_false_of_isDigit (h : c.isDigit = true) : c.isAlpha = false := by
  have hc : c.isAlphanum = true := by rw [Char.isAlphanum, h, Bool.or_true]
  revert h
  apply Text.forall_isAlphanum _ hc
  decide +kernel

theorem isUpper_eq_false_of_isLower (h : c.isLower = true) : c.isUpper = false :=
  Bool.eq_false_iff.mpr (Char.not_isUpper_of_isLower h)

theorem CharKind.of (c : Char) : CharKind c := by
  by_cases hdigit : c.isDigit = true
  · obtain ⟨hupper, hlower⟩ := Bool.or_eq_false_iff.mp (isAlpha_eq_false_of_isDigit hdigit)
    exact .digit hdigit hlower hupper
  rw [Bool.not_eq_true] at hdigit
  by_cases hlower : c.isLower = true
  · exact .lower hdigit hlower (isUpper_eq_false_of_isLower hlower)
  rw [Bool.not_eq_true] at hlower
  cases hupper : c.isUpper with
  | true => exact .upper hdigit hlower hupper
  | false => exact .other hdigit hlower hupper

theorem kinds_of_upper (h : c.isUpper = true) : c.isDigit = false ∧ c.isLower = false := by
  cases CharKind.of c with
  | upper hdigit hlower _ => exact ⟨hdigit, hlower⟩
  | digit _ _ hupper => exact absurd h (Bool.eq_false_iff.mp hupper)
  | lower _ _ hupper => exact absurd h (Bool.eq_false_iff.mp hupper)
  | other _ _ hupper => exact absurd h (Bool.eq_false_iff.mp hupper)

theorem kinds_of_other (h : c.isAlphanum = false) :
    c.isDigit = false ∧ c.isLower = false ∧ c.isUpper = false := by
  obtain ⟨halpha, hdigit⟩ := Bool.or_eq_false_iff.mp h
  obtain ⟨hupper, hlower⟩ := Bool.or_eq_false_iff.mp halpha
  exact ⟨hdigit, hlower, hupper⟩

def leadsSmall : Pattern := .next (.letter Char.isUpper) (.letter Char.isLower)

def acronym : Pattern := .next (.run Char.isUpper) (.ahead leadsSmall)

def smallWord : Pattern := .next (.maybe (.letter Char.isUpper)) (.run Char.isLower)

def wordPattern : Pattern :=
  .either acronym (.either smallWord (.either (.run Char.isUpper) (.run Char.isDigit)))

theorem rests_wordPattern (cs : List Char) : wordPattern.rests cs =
    acronym.rests cs ++ (smallWord.rests cs ++
      (runRests Char.isUpper cs ++ runRests Char.isDigit cs)) := rfl

theorem rests_ahead_leadsSmall (c : Char) (cs : List Char) : (Pattern.ahead leadsSmall).rests (c :: cs) =
    if c.isUpper && cs.head?.any Char.isLower then [c :: cs] else [] := by
  cases cs with
  | nil => cases hc : c.isUpper <;> simp [leadsSmall, rests, hc]
  | cons d cs => cases hc : c.isUpper <;> cases hd : d.isLower <;> simp [leadsSmall, rests, hc, hd]

theorem rests_acronym_of_other (h : c.isUpper = false) : acronym.rests (c :: cs) = [] := by
  simp [acronym, rests, runRests_of_other h]

theorem rests_acronym_of_upper (h : c.isUpper = true) :
    acronym.rests (c :: cs) = acronym.rests cs ++ (Pattern.ahead leadsSmall).rests cs := by
  simp [acronym, rests, runRests_of_kind h]

theorem rests_smallWord_of_other (h : c.isUpper = false) :
    smallWord.rests (c :: cs) = runRests Char.isLower (c :: cs) := by
  simp [smallWord, rests, h]

theorem rests_smallWord_of_upper (h : c.isUpper = true) :
    smallWord.rests (c :: cs) = runRests Char.isLower cs := by
  simp [smallWord, rests, h, runRests_of_other (kinds_of_upper h).2]

theorem rests_of_other (h : c.isAlphanum = false) : wordPattern.rests (c :: cs) = [] := by
  obtain ⟨hdigit, hlower, hupper⟩ := kinds_of_other h
  rw [rests_wordPattern, rests_acronym_of_other hupper, rests_smallWord_of_other hupper,
    runRests_of_other hlower, runRests_of_other hupper, runRests_of_other hdigit]
  rfl

theorem rests_of_digit (cs : List Char) (h : cs.head?.any Char.isDigit = true) :
    wordPattern.rests cs = runRests Char.isDigit cs := by
  cases cs with
  | nil => cases h
  | cons c cs =>
    obtain ⟨hupper, hlower⟩ := Bool.or_eq_false_iff.mp (isAlpha_eq_false_of_isDigit h)
    rw [rests_wordPattern, rests_acronym_of_other hupper, rests_smallWord_of_other hupper,
      runRests_of_other hlower, runRests_of_other hupper]
    rfl

theorem rests_of_lower (cs : List Char) (h : cs.head?.any Char.isLower = true) :
    (wordPattern.rests cs).head? = (runRests Char.isLower cs).head? := by
  cases cs with
  | nil => cases h
  | cons c cs =>
    have hupper : c.isUpper = false := isUpper_eq_false_of_isLower h
    rw [rests_wordPattern, rests_acronym_of_other hupper, rests_smallWord_of_other hupper, List.nil_append]
    exact List.head?_append_of_ne_nil _ (runRests_ne_nil h)

theorem rests_of_upper (h : c.isUpper = true) : wordPattern.rests (c :: cs) =
    acronym.rests cs ++ (Pattern.ahead leadsSmall).rests cs ++
      (runRests Char.isLower cs ++ runRests Char.isUpper (c :: cs)) := by
  rw [rests_wordPattern, rests_acronym_of_upper h, rests_smallWord_of_upper h,
    runRests_of_other (kinds_of_upper h).1, List.append_nil]

theorem joins_of_digit (h : c.isDigit = true) : joins c cs = cs.head?.any Char.isDigit := by
  cases cs with
  | nil => rfl
  | cons d cs =>
    rw [joins, if_pos h]
    rfl

theorem joins_of_lower (hdigit : c.isDigit = false) (h : c.isLower = true) :
    joins c cs = cs.head?.any Char.isLower := by
  cases cs with
  | nil => rfl
  | cons d cs =>
    rw [joins, hdigit, h]
    rfl

theorem joins_of_upper (h : c.isUpper = true) (d : Char) (cs : List Char) :
    joins c (d :: cs) = (d.isLower || (d.isUpper && !(cs.head?.any Char.isLower))) := by
  obtain ⟨hdigit, hlower⟩ := kinds_of_upper h
  rw [joins, hdigit, hlower]
  rfl

theorem joins_of_other {d : Char} (h : d.isAlphanum = false) : joins c (d :: cs) = false := by
  obtain ⟨hdigit, hlower, hupper⟩ := kinds_of_other h
  simp [joins, hdigit, hlower, hupper]

/-- A capital joins small letters and other capitals, but no capital that leads small letters itself. -/
theorem head?_rests_of_upper (h : c.isUpper = true) : (wordPattern.rests (c :: cs)).head? =
    if joins c cs then (wordPattern.rests cs).head? else some cs := by
  rw [rests_of_upper h]
  cases cs with
  | nil =>
    rw [runRests_of_kind h]
    rfl
  | cons d cs =>
    rw [joins_of_upper h, rests_ahead_leadsSmall]
    cases CharKind.of d with
    | lower _ hl hu =>
      have hne : runRests Char.isLower (d :: cs) ≠ [] := runRests_ne_nil hl
      rw [rests_acronym_of_other hu, rests_of_lower (d :: cs) hl, hl, hu]
      exact List.head?_append_of_ne_nil _ hne
    | upper _ hl hu =>
      rw [rests_acronym_of_upper hu, runRests_of_other hl, hl, hu]
      cases hnext : cs.head?.any Char.isLower with
      | true =>
        -- the second capital leads small letters, so there is no third one and the first stands alone
        cases cs with
        | nil => cases hnext
        | cons e cs =>
          have he : e.isUpper = false := isUpper_eq_false_of_isLower hnext
          rw [rests_acronym_of_other he, rests_ahead_leadsSmall, he]
          rfl
      | false =>
        rw [rests_of_upper hu, runRests_of_front hnext]
        simp [List.head?_append, head?_runRests_cons h, hu]
    | digit _ hl hu =>
      simp [rests_acronym_of_other hu, runRests_of_other hl, head?_runRests_cons h, hl, hu]
    | other _ hl hu =>
      simp [rests_acronym_of_other hu, runRests_of_other hl, head?_runRests_cons h, hl, hu]

theorem head?_rests_cons (h : c.isAlphanum = true) : (wordPattern.rests (c :: cs)).head? =
    if joins c cs then (wordPattern.rests cs).head? else some cs := by
  cases CharKind.of c with
  | digit hdigit _ _ =>
    rw [rests_of_digit (c :: cs) hdigit, head?_runRests_cons hdigit, joins_of_digit hdigit]
    by_cases hnext : cs.head?.any Char.isDigit = true
    · rw [rests_of_digit cs hnext]
    · rw [if_neg hnext, if_neg hnext]
  | lower hdigit hlower _ =>
    rw [rests_of_lower (c :: cs) hlower, head?_runRests_cons hlower, joins_of_lower hdigit hlower]
    by_cases hnext : cs.head?.any Char.isLower = true
    · rw [rests_of_lower cs hnext]
    · rw [if_neg hnext, if_neg hnext]
  | upper _ _ hupper => exact head?_rests_of_upper hupper
  | other hdigit hlower hupper => simp [Char.isAlphanum, Char.isAlpha, hdigit, hlower, hupper] at h

/-- The words of a text and the empty ones between them. -/
def cut (cs : List Char) : List (List Char) := cs.foldr addLetter []

/-- The word that begins with the first character, or the empty one if that is in no word. -/
def front (cs : List Char) : List Char := (cut cs).headD []

theorem front_of_other (h : c.isAlphanum = false) (cs : List Char) : front (c :: cs) = [] := by
  rw [front, cut, List.foldr_cons, addLetter_of_other h]
  rfl

theorem front_of_alphanumeric (h : c.isAlphanum = true) (cs : List Char) :
    front (c :: cs) = c :: if joins c (front cs) then front cs else [] := by
  rw [front, cut, List.foldr_cons, addLetter_of_alphanumeric h, front, cut]
  split <;> rfl

theorem head?_front_any_isLower (cs : List Char) :
    (front cs).head?.any Char.isLower = cs.head?.any Char.isLower := by
  cases cs with
  | nil => rfl
  | cons c cs =>
    cases h : c.isAlphanum with
    | true =>
      rw [front_of_alphanumeric h]
      rfl
    | false =>
      rw [front_of_other h]
      exact (kinds_of_other h).2.1.symm

theorem front_of_upper (h : c.isUpper = true) (cs : List Char) :
    ∃ w, front (c :: cs) = c :: w ∧ w.head?.any Char.isLower = cs.head?.any Char.isLower := by
  have hc : c.isAlphanum = true := by simp [Char.isAlphanum, Char.isAlpha, h]
  refine ⟨_, front_of_alphanumeric hc cs, ?_⟩
  rw [← head?_front_any_isLower cs]
  cases hjoins : joins c (front cs) with
  | true => rfl
  | false =>
    cases hw : front cs with
    | nil => rfl
    | cons d w =>
      rw [hw, joins_of_upper h] at hjoins
      exact (Bool.or_eq_false_iff.mp hjoins).1.symm

theorem joins_front (c : Char) (cs : List Char) : joins c (front cs) = joins c cs := by
  cases cs with
  | nil => rfl
  | cons d cs =>
    cases hd : d.isAlphanum with
    | true =>
      by_cases hupper : d.isUpper = true
      · obtain ⟨w, hw, hnext⟩ := front_of_upper hupper cs
        simp only [hw, joins, hnext]
      · rw [front_of_alphanumeric hd]
        simp [joins, hupper]
    | false =>
      rw [front_of_other hd, joins_of_other hd]
      rfl

theorem cut_of_alphanumeric (h : c.isAlphanum = true) (cs : List Char) : cut (c :: cs) =
    if joins c cs then (c :: front cs) :: (cut cs).tail else [c] :: cut cs := by
  rw [← joins_front, cut, List.foldr_cons, addLetter_of_alphanumeric h]
  rfl

theorem isAlphanum_of_joins {d : Char} (h : joins c (d :: cs) = true) : d.isAlphanum = true := by
  by_contra hd
  rw [joins_of_other (Bool.eq_false_iff.mpr hd)] at h
  cases h

theorem cut_first (h : c.isAlphanum = true) (cs : List Char) : ∃ w rest, cs = w ++ rest ∧
    cut (c :: cs) = (c :: w) :: cut rest ∧ (wordPattern.rests (c :: cs)).head? = some rest := by
  induction cs generalizing c with
  | nil =>
    refine ⟨[], [], rfl, cut_of_alphanumeric h [], ?_⟩
    rw [head?_rests_cons h]
    rfl
  | cons d cs ih =>
    rw [head?_rests_cons h, cut_of_alphanumeric h]
    cases hjoins : joins c (d :: cs) with
    | true =>
      obtain ⟨w, rest, rfl, hcut, hfirst⟩ := ih (isAlphanum_of_joins hjoins)
      refine ⟨d :: w, rest, rfl, ?_, hfirst⟩
      rw [if_pos rfl, front, hcut]
      rfl
    | false => exact ⟨[], d :: cs, rfl, rfl, rfl⟩

theorem words_of_other (h : c.isAlphanum = false) (cs : List Char) : words (c :: cs) = words cs := by
  rw [words, List.foldr_cons, addLetter_of_other h]
  rfl

theorem words_of_cut {w rest : List Char} (hcut : cut (c :: cs) = (c :: w) :: cut rest) :
    words (c :: cs) = (c :: w) :: words rest := by
  rw [words, ← cut, hcut]
  rfl

/-- A search for words finds the words of a text. The induction is on the length of what is left of it. -/
theorem finds_words (cs : List Char) : wordPattern.Finds cs (words cs) := by
  induction hn : cs.length using Nat.strong_induction_on generalizing cs with
  | h n ih =>
    cases cs with
    | nil => exact .done rfl
    | cons c cs =>
      cases h : c.isAlphanum with
      | true =>
        obtain ⟨w, rest, rfl, hcut, hfirst⟩ := cut_first h cs
        have hshorter : rest.length < n := by
          rw [← hn, List.length_cons, List.length_append]
          omega
        rw [words_of_cut hcut]
        exact .found rfl (List.cons_ne_nil _ _) hfirst (ih _ hshorter rest rfl)
      | false =>
        have hshorter : cs.length < n := by
          rw [← hn]
          exact Nat.lt_succ_self _
        rw [words_of_other h]
        exact .skip (rests_of_other h) (ih _ hshorter cs rfl)

theorem finds_iff : wordPattern.Finds cs ws ↔ ws = words cs := by
  constructor
  · intro h
    exact h.unique (finds_words cs)
  · rintro rfl
    exact finds_words cs

def smallLetters (s : String) : String := String.ofList (small (s.toList.filter Char.isAlphanum))

theorem lower_of_alphanumeric {s : String} (h : Alphanumeric s.toList) :
    Text.lower s = String.ofList (small s.toList) := by
  have hascii : ∀ c ∈ s.toList, c.toNat < 0x80 := by
    intro c hc
    exact Nat.lt_trans (Text.toNat_lt_of_isAlphanum (h c hc)) (by decide)
  rw [Text.lower, Text.lowerBehind_of_ascii hascii, small]

theorem lower_camelCase (s : String) : Text.lower (camelCase s) = smallLetters s := by
  rw [lower_of_alphanumeric (alphanumeric_camelCase s), small_camelCase, smallLetters]

/-- Camel case is made of the words that a search finds, and it loses no letter and no digit of a text. So two
names are the same in camel case, up to letter case, only if their letters and digits are. -/
theorem camelCase_keeps_letters (s : String) :
    (∀ ws, wordPattern.Finds s.toList ws ↔ ws = words s.toList) ∧
      Text.lower (camelCase s) = smallLetters s ∧
      ∀ t, Text.lower (camelCase s) = Text.lower (camelCase t) ↔ smallLetters s = smallLetters t := by
  refine ⟨fun ws => finds_iff, lower_camelCase s, fun t => ?_⟩
  rw [lower_camelCase, lower_camelCase]

/-- The capitals of an acronym give the last one back to the word behind them. -/
example : (words "HTMLParser v2go".toList).map String.ofList = ["HTML", "Parser", "v", "2", "go"] := by
  decide +kernel

end OpenApi.Naming
