import OpenApi.Time.IsoText
import Mathlib.Data.List.TakeWhile
/-! # Times with a zero offset

A text with `+00:00` at its end is read as a time at no offset, unless a date and nothing else stands in front
of it. Then the sign parts the date from the time of day `00:00`, and no offset is read. -/
namespace OpenApi.Time

def zeroOffset : List Char := '+' :: ['0', '0', ':', '0', '0']

/-- All of the text is the date, and there is no time of day. -/
structure IsBareDate (cs : List Char) (d : Date) : Prop where
  read : readDateText? cs = some d
  valid : d.isValid = true
  length_eq : dateLength cs = cs.length

def Date.midnight (d : Date) : DateTime := ⟨d, 0, 0, 0, 0, none⟩

structure Numeral (n : Nat) (cs : List Char) : Prop where
  length_eq : cs.length = n
  isDigit : ∀ c ∈ cs, c.isDigit = true

variable {cs front rest : List Char} {n v : Nat}

theorem Numeral.not_mem (h : Numeral n cs) {c : Char} (hc : c.isDigit = false) : c ∉ cs := by
  intro hm
  rw [h.isDigit c hm] at hc
  cases hc

theorem takeDigits?_eq_some (h : takeDigits? n cs = some (v, rest)) :
    ∃ front, Numeral n front ∧ cs = front ++ rest := by
  unfold takeDigits? at h
  dsimp only at h
  split at h
  · next hfront =>
    cases h
    simp only [Bool.and_eq_true, beq_iff_eq, List.all_eq_true] at hfront
    exact ⟨cs.take n, ⟨hfront.1, hfront.2⟩, (List.take_append_drop n cs).symm⟩
  · cases h

theorem plus_mem_of_takeDigits? (h : takeDigits? n cs = some (v, rest)) (hplus : '+' ∈ cs) : '+' ∈ rest := by
  obtain ⟨front, hfront, rfl⟩ := takeDigits?_eq_some h
  exact (List.mem_append.mp hplus).resolve_left (hfront.not_mem (by decide))

theorem readFraction?_left {left : Bool} (h : readFraction? cs = some (v, left)) (hplus : '+' ∈ cs) :
    left = true := by
  obtain ⟨⟨w, after⟩, htake, hread⟩ := Option.bind_eq_some_iff.mp h
  cases hread
  have hafter := plus_mem_of_takeDigits? htake hplus
  rw [Bool.not_eq_true', List.isEmpty_eq_false_iff, ne_eq, List.dropWhile_eq_nil_iff]
  intro hall
  exact absurd (hall '+' hafter) (by decide)

/-- A sign is never part of a clock. -/
theorem readPairs?_left {follows colons left : Bool} {pairs found : List Nat} {micros : Nat}
    (h : readPairs? follows colons n pairs cs = some (found, micros, left)) (hplus : '+' ∈ cs) :
    left = true := by
  induction n generalizing colons pairs cs with
  | zero =>
    obtain ⟨⟨w, l⟩, hfraction, hread⟩ := Option.bind_eq_some_iff.mp h
    cases hread
    rw [readFraction?_left hfraction hplus, Bool.true_or]
  | succ n ih =>
    obtain ⟨⟨w, after⟩, htake, hread⟩ := Option.bind_eq_some_iff.mp h
    have hafter := plus_mem_of_takeDigits? htake hplus
    dsimp only at hread
    split at hread
    · cases hafter
    · cases hread
      rfl
    · next c rest _ =>
      generalize (if ((pairs ++ [w]).length == 1) = true then c == ':' else colons) = colons at hread
      split at hread
      · next hcolon =>
        refine ih hread ((List.mem_cons.mp hafter).resolve_left ?_)
        rintro rfl
        simp at hcolon
      · split at hread
        · next hpoint =>
          obtain ⟨⟨w, l⟩, hfraction, hread⟩ := Option.bind_eq_some_iff.mp hread
          cases hread
          have hrest : '+' ∈ rest := by
            refine (List.mem_cons.mp hafter).resolve_left ?_
            rintro rfl
            simp at hpoint
          rw [readFraction?_left hfraction hrest, Bool.true_or]
        · split at hread
          · exact ih hread hafter
          · cases hread

theorem readOffset?_of_plus (negative : Bool) (hplus : '+' ∈ cs) : readOffset? negative cs = none := by
  rw [readOffset?]
  cases hclock : readClock? false cs with
  | none => rfl
  | some found =>
    obtain ⟨clock, left⟩ := found
    obtain ⟨⟨pairs, micros, l⟩, hpairs, hread⟩ := Option.bind_eq_some_iff.mp hclock
    cases hread
    rw [readPairs?_left hpairs hplus]
    rfl

/-- A time of day ends at the first character that starts an offset. -/
theorem readTime?_of_start {c : Char} (hfront : ∀ c ∈ front, isOffsetStart c = false)
    (hc : isOffsetStart c = true) {clock : Clock} {offset : Option Int}
    (h : readTime? (front ++ c :: rest) = some (clock, offset)) :
    c = 'Z' ∧ rest = [] ∨ ∃ o, readOffset? (c == '-') rest = some o ∧ offset = some o := by
  have htake : (front ++ c :: rest).takeWhile (fun c => !isOffsetStart c) = front := by
    rw [List.takeWhile_append_of_pos (fun c hc => by rw [hfront c hc]; rfl), List.takeWhile_cons, hc]
    simp
  rw [readTime?, htake, List.drop_left] at h
  split at h
  · next he => cases he
  · next after he =>
    obtain ⟨rfl, rfl⟩ := List.cons.inj he
    obtain ⟨⟨_, _⟩, -, hread⟩ := Option.bind_eq_some_iff.mp h
    dsimp only at hread
    split at hread
    · next hempty => exact .inl ⟨rfl, List.isEmpty_iff.mp hempty⟩
    · cases hread
  · next d after _ he =>
    obtain ⟨rfl, rfl⟩ := List.cons.inj he
    obtain ⟨_, -, hread⟩ := Option.bind_eq_some_iff.mp h
    obtain ⟨o, ho, hread⟩ := Option.bind_eq_some_iff.mp hread
    cases hread
    exact .inr ⟨o, ho, rfl⟩

theorem readTime?_zeroOffset {clock : Clock} {offset : Option Int}
    (h : readTime? (front ++ zeroOffset) = some (clock, offset)) : offset = some 0 := by
  have hsplit := List.takeWhile_append_dropWhile (p := fun c => !isOffsetStart c) (l := front)
  have hbefore : ∀ c ∈ front.takeWhile (fun c => !isOffsetStart c), isOffsetStart c = false := by
    intro c hc
    simpa using List.mem_takeWhile_imp hc
  cases hdrop : front.dropWhile (fun c => !isOffsetStart c) with
  | nil =>
    rw [hdrop, List.append_nil] at hsplit
    rw [hsplit] at hbefore
    obtain ⟨hz, -⟩ | ⟨o, ho, rfl⟩ := readTime?_of_start hbefore (by decide) h
    · exact absurd hz (by decide)
    · exact ho.symm.trans (by decide)
  | cons c after =>
    have hc : isOffsetStart c = true := by
      have hhead := List.head?_dropWhile_not (fun c => !isOffsetStart c) front
      simpa [hdrop] using hhead
    rw [hdrop] at hsplit
    rw [← hsplit, List.append_assoc] at h
    obtain ⟨-, hnil⟩ | ⟨o, ho, -⟩ := readTime?_of_start hbefore hc h
    · simp [zeroOffset] at hnil
    · rw [readOffset?_of_plus _ (by simp [zeroOffset])] at ho
      cases ho

/-- The written forms of dates that are as long as they may be. -/
inductive IsDateText : List Char → Prop
  | basic {y m d : List Char} (year : Numeral 4 y) (month : Numeral 2 m) (day : Numeral 2 d) :
      IsDateText (y ++ (m ++ d))
  | extended {y m d : List Char} (year : Numeral 4 y) (month : Numeral 2 m) (day : Numeral 2 d) :
      IsDateText (y ++ '-' :: (m ++ '-' :: d))
  | week {y w : List Char} (year : Numeral 4 y) (week : Numeral 2 w) : IsDateText (y ++ 'W' :: w)
  | weekDay {y w d : List Char} (year : Numeral 4 y) (week : Numeral 2 w) (day : Numeral 1 d) :
      IsDateText (y ++ 'W' :: (w ++ d))
  | extendedWeek {y w : List Char} (year : Numeral 4 y) (week : Numeral 2 w) :
      IsDateText (y ++ '-' :: 'W' :: w)
  | extendedWeekDay {y w d : List Char} (year : Numeral 4 y) (week : Numeral 2 w) (day : Numeral 1 d) :
      IsDateText (y ++ '-' :: 'W' :: (w ++ '-' :: d))

theorem dateLength_bounds (cs : List Char) :
    7 ≤ dateLength cs ∧ dateLength cs ≤ 10 ∧ (cs[4]? = some 'W' → dateLength cs ≤ 8) := by
  grind [dateLength]

theorem skip?_eq_some {hyphens : Bool} (h : skip? hyphens cs = some rest) :
    cs = (if hyphens then ['-'] else []) ++ rest := by
  cases hyphens with
  | false => exact Option.some.inj h
  | true =>
    simp only [skip?, if_true] at h
    split at h
    · cases h
      rfl
    · cases h

theorem isDateText_of_readWeek? {hyphens : Bool} {y week : List Char} {year : Nat} {d : Date}
    (hy : Numeral 4 y) (h : readWeek? hyphens year week = some d)
    (hlength : week.length ≤ if hyphens then 4 else 3) :
    IsDateText (y ++ ((if hyphens then ['-'] else []) ++ 'W' :: week)) := by
  obtain ⟨⟨w, afterWeek⟩, htake, hread⟩ := Option.bind_eq_some_iff.mp h
  obtain ⟨front, hfront, rfl⟩ := takeDigits?_eq_some htake
  dsimp only at hread
  split at hread
  · next hempty =>
    rw [List.isEmpty_iff.mp hempty, List.append_nil]
    cases hyphens with
    | false => exact .week hy hfront
    | true => exact .extendedWeek hy hfront
  · obtain ⟨dayText, hskip, hread⟩ := Option.bind_eq_some_iff.mp hread
    obtain ⟨⟨day, more⟩, htake, -⟩ := Option.bind_eq_some_iff.mp hread
    obtain ⟨dayFront, hday, rfl⟩ := takeDigits?_eq_some htake
    rw [skip?_eq_some hskip] at hlength ⊢
    rw [List.length_append, hfront.length_eq, List.length_append, List.length_append, hday.length_eq]
      at hlength
    have hmore : more = [] := by
      refine List.eq_nil_of_length_eq_zero ?_
      cases hyphens <;> simp at hlength <;> omega
    rw [hmore, List.append_nil]
    cases hyphens with
    | false => exact .weekDay hy hfront hday
    | true => exact .extendedWeekDay hy hfront hday

/-- What is read as a date has one of the written forms, if it is not longer than they are. -/
theorem isDateText_of_read {d : Date} (h : readDateText? cs = some d) (hlength : cs.length ≤ 10)
    (hweek : cs[4]? = some 'W' → cs.length ≤ 8) : IsDateText cs := by
  obtain ⟨⟨year, afterYear⟩, htake, hread⟩ := Option.bind_eq_some_iff.mp h
  obtain ⟨y, hy, rfl⟩ := takeDigits?_eq_some htake
  dsimp only at hread
  obtain ⟨rest, hskip, hread⟩ := Option.bind_eq_some_iff.mp hread
  generalize hhyphens : (afterYear.head? == some '-') = hyphens at hread hskip
  rw [skip?_eq_some hskip] at hlength hweek ⊢
  split at hread
  · next week =>
    refine isDateText_of_readWeek? hy hread ?_
    rw [List.length_append, hy.length_eq] at hlength hweek
    cases hyphens with
    | false =>
      have hshort := hweek (by rw [List.getElem?_append_right hy.length_eq.le, hy.length_eq]; rfl)
      simp at hshort
      simp
      omega
    | true =>
      simp at hlength
      simp
      omega
  · obtain ⟨⟨month, afterMonth⟩, hmonth, hrest⟩ := Option.bind_eq_some_iff.mp hread
    obtain ⟨dayText, hskipDay, hdays⟩ := Option.bind_eq_some_iff.mp hrest
    obtain ⟨⟨day, after⟩, hday, hend⟩ := Option.bind_eq_some_iff.mp hdays
    dsimp only at hskipDay hend
    clear hread hrest hdays
    obtain ⟨m, hm, rfl⟩ := takeDigits?_eq_some hmonth
    obtain ⟨d, hd, rfl⟩ := takeDigits?_eq_some hday
    rw [skip?_eq_some hskipDay]
    split at hend
    · next hempty =>
      rw [List.isEmpty_iff.mp hempty, List.append_nil]
      cases hyphens with
      | false =>
        show IsDateText (y ++ (m ++ d))
        exact .basic hy hm hd
      | true => exact .extended hy hm hd
    · cases hend

theorem IsDateText.plus_not_mem (h : IsDateText cs) : '+' ∉ cs := by
  have hnot : ∀ {n : Nat} {ds : List Char}, Numeral n ds → '+' ∉ ds := fun hds => hds.not_mem (by decide)
  cases h with
  | basic year month day => simp [hnot year, hnot month, hnot day]
  | extended year month day => simp [hnot year, hnot month, hnot day]
  | week year week => simp [hnot year, hnot week]
  | weekDay year week day => simp [hnot year, hnot week, hnot day]
  | extendedWeek year week => simp [hnot year, hnot week]
  | extendedWeekDay year week day => simp [hnot year, hnot week, hnot day]

theorem Numeral.eq_one (h : Numeral 1 cs) : ∃ a, cs = [a] ∧ a.isDigit = true := by
  obtain ⟨a, rfl⟩ := List.length_eq_one_iff.mp h.length_eq
  exact ⟨a, rfl, h.isDigit a List.mem_cons_self⟩

theorem Numeral.eq_two (h : Numeral 2 cs) : ∃ a b, cs = [a, b] ∧ a.isDigit = true ∧ b.isDigit = true := by
  match cs, h.length_eq with
  | [a, b], _ => exact ⟨a, b, rfl, h.isDigit a (by simp), h.isDigit b (by simp)⟩

theorem Numeral.eq_four (h : Numeral 4 cs) : ∃ a b c d, cs = [a, b, c, d] := by
  match cs, h.length_eq with
  | [a, b, c, d], _ => exact ⟨a, b, c, d, rfl⟩

theorem ne_of_isDigit {c mark : Char} (hc : c.isDigit = true) (hmark : mark.isDigit = false) : c ≠ mark := by
  rintro rfl
  rw [hc] at hmark
  cases hmark

/-- All of a date is taken as the date, whether it ends the text or the zero offset follows. -/
theorem IsDateText.dateLength_eq (h : IsDateText cs) :
    dateLength cs = cs.length ∧ dateLength (cs ++ zeroOffset) = cs.length := by
  cases h with
  | basic year month day =>
    obtain ⟨y₁, y₂, y₃, y₄, rfl⟩ := year.eq_four
    obtain ⟨m₁, m₂, rfl, hm₁, -⟩ := month.eq_two
    obtain ⟨d₁, d₂, rfl, -, -⟩ := day.eq_two
    have hhyphen : m₁ ≠ '-' := ne_of_isDigit hm₁ (by decide)
    have hweek : m₁ ≠ 'W' := ne_of_isDigit hm₁ (by decide)
    simp [dateLength, zeroOffset, hhyphen, hweek]
  | extended year month day =>
    obtain ⟨y₁, y₂, y₃, y₄, rfl⟩ := year.eq_four
    obtain ⟨m₁, m₂, rfl, hm₁, -⟩ := month.eq_two
    obtain ⟨d₁, d₂, rfl, -, -⟩ := day.eq_two
    have hweek : m₁ ≠ 'W' := ne_of_isDigit hm₁ (by decide)
    simp [dateLength, zeroOffset, hweek]
  | week year week =>
    obtain ⟨y₁, y₂, y₃, y₄, rfl⟩ := year.eq_four
    obtain ⟨w₁, w₂, rfl, -, -⟩ := week.eq_two
    simp [dateLength, zeroOffset, isNumeral]
  | weekDay year week day =>
    obtain ⟨y₁, y₂, y₃, y₄, rfl⟩ := year.eq_four
    obtain ⟨w₁, w₂, rfl, -, -⟩ := week.eq_two
    obtain ⟨d₁, rfl, hd₁⟩ := day.eq_one
    simp [dateLength, zeroOffset, isNumeral, hd₁]
  | extendedWeek year week =>
    obtain ⟨y₁, y₂, y₃, y₄, rfl⟩ := year.eq_four
    obtain ⟨w₁, w₂, rfl, -, -⟩ := week.eq_two
    simp [dateLength, zeroOffset]
  | extendedWeekDay year week day =>
    obtain ⟨y₁, y₂, y₃, y₄, rfl⟩ := year.eq_four
    obtain ⟨w₁, w₂, rfl, -, -⟩ := week.eq_two
    obtain ⟨d₁, rfl, -⟩ := day.eq_one
    simp [dateLength, zeroOffset, isNumeral]

theorem IsBareDate.isDateText {d : Date} (h : IsBareDate cs d) : IsDateText cs := by
  obtain ⟨-, hle, hweek⟩ := dateLength_bounds cs
  rw [h.length_eq] at hle hweek
  exact isDateText_of_read h.read hle hweek

/-- A date takes what stands in front of the zero offset, or less, and in the first case it is all there is. -/
theorem date_of_zeroOffset {d : Date} (h : readDateText? ((cs ++ zeroOffset).take n) = some d)
    (hn : dateLength (cs ++ zeroOffset) = n) :
    n < cs.length ∨ n = cs.length ∧ readDateText? cs = some d ∧ dateLength cs = cs.length := by
  obtain ⟨hge, hle, hweek⟩ := dateLength_bounds (cs ++ zeroOffset)
  rw [hn] at hge hle hweek
  have htext : IsDateText ((cs ++ zeroOffset).take n) := by
    refine isDateText_of_read h ((List.length_take_le _ _).trans hle) fun hw => ?_
    rw [List.getElem?_take_of_lt (by omega)] at hw
    exact (List.length_take_le _ _).trans (hweek hw)
  rcases Nat.lt_trichotomy n cs.length with hlt | rfl | hgt
  · exact .inl hlt
  · rw [List.take_left] at h htext
    exact .inr ⟨rfl, h, htext.dateLength_eq.1⟩
  · refine absurd ?_ htext.plus_not_mem
    rw [List.take_append, List.take_of_length_le hgt.le]
    obtain ⟨k, hk⟩ : ∃ k, n - cs.length = k + 1 := ⟨n - cs.length - 1, by omega⟩
    simp [hk, zeroOffset]

theorem Date.isValid_midnight (d : Date) : d.midnight.isValid = d.isValid := by
  simp [midnight, DateTime.isValid]

/-- Behind a bare date the sign of the zero offset parts the date from the time of day `00:00`. -/
theorem read?_date_zeroOffset {d : Date} (hn : dateLength (cs ++ zeroOffset) = cs.length)
    (hd : readDateText? cs = some d) : DateTime.read? (String.ofList (cs ++ zeroOffset)) =
      if d.isValid then some d.midnight else none := by
  have hge := (dateLength_bounds (cs ++ zeroOffset)).1
  have hlength : (cs ++ zeroOffset).length = cs.length + 6 := List.length_append
  have hdrop : (cs ++ zeroOffset).drop (cs.length + 1) = ['0', '0', ':', '0', '0'] := by
    simp [zeroOffset]
  have htime : readTime? ['0', '0', ':', '0', '0'] = some ({}, none) := rfl
  rw [DateTime.read?, String.toList_ofList]
  dsimp only
  rw [if_neg (by omega), hn, List.take_left, hd, hdrop, htime]
  simp only [Option.bind_eq_bind, Option.bind_some]
  rw [if_pos (by omega), ← Date.isValid_midnight]
  rfl

/-- With the zero offset behind it a text is read as a time at no offset, or as the midnight of a date. -/
theorem read?_zeroOffset {t : DateTime} (h : DateTime.read? (String.ofList (cs ++ zeroOffset)) = some t) :
    t.offset = some 0 ∨ ∃ d, IsBareDate cs d := by
  have hopen := h
  unfold DateTime.read? at hopen
  rw [String.toList_ofList] at hopen
  dsimp only at hopen
  split at hopen
  · cases hopen
  obtain ⟨d, hdate, hread⟩ := Option.bind_eq_some_iff.mp hopen
  obtain hlt | ⟨hn, hcs, hlength⟩ := date_of_zeroOffset hdate rfl
  · rw [if_pos (by rw [List.length_append]; omega)] at hread
    obtain ⟨⟨clock, offset⟩, htime, hvalid⟩ := Option.bind_eq_some_iff.mp hread
    rw [List.drop_append_of_le_length hlt] at htime
    split at hvalid
    · cases hvalid
      exact .inl (readTime?_zeroOffset htime)
    · cases hvalid
  · rw [read?_date_zeroOffset hn hcs] at h
    split at h
    · next hvalid => exact .inr ⟨d, hcs, hvalid, hlength⟩
    · cases h

theorem IsBareDate.read?_zeroOffset {d : Date} (h : IsBareDate cs d) :
    DateTime.read? (String.ofList (cs ++ zeroOffset)) = some d.midnight := by
  rw [read?_date_zeroOffset (h.isDateText.dateLength_eq.2) h.read, if_pos h.valid]

end OpenApi.Time
