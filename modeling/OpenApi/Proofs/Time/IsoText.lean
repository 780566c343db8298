import OpenApi.Time.IsoText
import Mathlib.Data.List.TakeWhile
import Mathlib.Data.Nat.Digits.Defs
/-! # Times are read back

A written time is read as the time that it was, if its offset is none that reading never gives: one of
less than a second that is not zero. -/
namespace OpenApi.Time

theorem length_digits {w n : Nat} (hw : 0 < w) (h : n < 10 ^ w) : (digits w n).length = w := by
  have hl := (Nat.length_toDigits_le_iff (by decide : 1 < 10) hw).2 h
  simp only [digits, List.length_append, List.length_replicate]
  omega

theorem isDigit_of_mem_digits {w n : Nat} {c : Char} (h : c ∈ digits w n) : c.isDigit = true := by
  rcases List.mem_append.1 h with h | h
  · rw [List.eq_of_mem_replicate h]
    decide
  · exact Nat.isDigit_of_mem_toDigits (by decide) (by decide) h

theorem ofDigitChars_digits (w n : Nat) : Nat.ofDigitChars 10 (digits w n) 0 = n := by
  rw [digits, Nat.ofDigitChars_append, Nat.ofDigitChars_replicate_zero, Nat.mul_zero,
    Nat.ofDigitChars_ten_toDigits]

theorem takeDigits?_digits {w n : Nat} (hw : 0 < w) (h : n < 10 ^ w) (rest : List Char) :
    takeDigits? w (digits w n ++ rest) = some (n, rest) := by
  have hl := length_digits hw h
  have hall : (digits w n).all isNumeral = true :=
    List.all_eq_true.2 fun c hc => isDigit_of_mem_digits hc
  have hvalue : (digits w n).foldl (fun v c => 10 * v + (c.toNat - '0'.toNat)) 0 = n :=
    ofDigitChars_digits w n
  rw [takeDigits?, List.take_left' hl, List.drop_left' hl]
  simp only [hl, hall, hvalue, BEq.rfl, Bool.and_self, if_true]

theorem exists_digits_cons {w n : Nat} (hw : 0 < w) (h : n < 10 ^ w) :
    ∃ c cs, digits w n = c :: cs ∧ c.isDigit = true := by
  have hl := length_digits hw h
  cases hd : digits w n with
  | nil =>
    rw [hd] at hl
    simp at hl
    omega
  | cons c cs => exact ⟨c, cs, rfl, isDigit_of_mem_digits (hd ▸ List.mem_cons_self)⟩

theorem takeDigits?_two {n : Nat} (h : n < 100) (rest : List Char) :
    takeDigits? 2 (digits 2 n ++ rest) = some (n, rest) := takeDigits?_digits (by decide) h rest

theorem takeDigits?_two_end {n : Nat} (h : n < 100) : takeDigits? 2 (digits 2 n) = some (n, []) := by
  simpa using takeDigits?_two h []

def dateText (d : Date) : List Char :=
  digits 4 d.year ++ '-' :: (digits 2 d.month ++ '-' :: digits 2 d.day)

theorem toList_write (d : Date) : d.write.toList = dateText d := by
  rw [Date.write, String.toList_ofList, dateText]
  simp

theorem lt_of_isValid {d : Date} (h : d.isValid = true) :
    d.year < 10 ^ 4 ∧ d.month < 100 ∧ d.day < 100 := by
  simp only [Date.isValid, Bool.and_eq_true, decide_eq_true_eq] at h
  obtain ⟨⟨⟨⟨⟨-, hyear⟩, -⟩, hmonth⟩, -⟩, hday⟩ := h
  have hdays : ∀ year month, daysInMonth year month ≤ 31 := by
    intro year month
    unfold daysInMonth
    split
    case h_12 => split <;> decide
    all_goals decide
  have := hdays d.year d.month
  omega

theorem length_dateText {d : Date} (h : d.isValid = true) : (dateText d).length = 10 := by
  obtain ⟨hyear, hmonth, hday⟩ := lt_of_isValid h
  simp [dateText, length_digits (by decide : 0 < 4) hyear,
    length_digits (by decide : 0 < 2) hmonth, length_digits (by decide : 0 < 2) hday]

theorem readDateText?_dateText {d : Date} (h : d.isValid = true) :
    readDateText? (dateText d) = some d := by
  obtain ⟨hyear, hmonth, hday⟩ := lt_of_isValid h
  obtain ⟨c, cs, hc, hdigit⟩ := exists_digits_cons (by decide : 0 < 2) hmonth
  have hw : c ≠ 'W' := by
    rintro rfl
    exact absurd hdigit (by decide)
  rw [readDateText?, dateText, takeDigits?_digits (by decide) hyear]
  simp only [Option.bind_eq_bind, Option.bind_some, List.head?_cons, BEq.rfl, skip?, if_true]
  have hmatch : ∀ rest : List Char, digits 2 d.month ++ rest = c :: (cs ++ rest) := by
    intro rest
    rw [hc, List.cons_append]
  split
  · next week he =>
    rw [hmatch] at he
    exact absurd (List.cons.inj he).1 hw
  · rw [takeDigits?_two hmonth]
    simp [takeDigits?_two_end hday]

/-- The fifth character of a written time tells its date from the other forms. -/
theorem dateLength_dateText {d : Date} (h : d.isValid = true) (c : Char) (rest : List Char) :
    dateLength (dateText d ++ c :: rest) = 10 := by
  obtain ⟨hyear, hmonth, -⟩ := lt_of_isValid h
  obtain ⟨m, ms, hm, hdigit⟩ := exists_digits_cons (by decide : 0 < 2) hmonth
  have hw : m ≠ 'W' := by
    rintro rfl
    exact absurd hdigit (by decide)
  have hlength : (dateText d ++ c :: rest).length ≠ 7 := by
    rw [List.length_append, length_dateText h]
    omega
  have hl := length_digits (by decide : 0 < 4) hyear
  have hfourth : (dateText d ++ c :: rest)[4]? = some '-' := by
    rw [dateText, List.append_assoc, List.getElem?_append_right (by omega), hl]
    rfl
  have hfifth : (dateText d ++ c :: rest)[5]? = some m := by
    rw [dateText, List.append_assoc, List.getElem?_append_right (by omega), hl, hm]
    rfl
  rw [dateLength, hfourth, hfifth, if_neg (by simpa using hlength), if_pos (by decide),
    if_neg (by simpa using hw)]

def fractionText (micros : Nat) : List Char := if micros == 0 then [] else '.' :: digits 6 micros

theorem readFraction?_digits {n : Nat} (h : n < 1000000) :
    readFraction? (digits 6 n) = some (n, false) := by
  have hl := length_digits (w := 6) (by decide) h
  have ht := takeDigits?_digits (w := 6) (by decide) h []
  rw [List.append_nil] at ht
  rw [readFraction?, hl]
  simp [ht]

section Pairs

variable {v : Nat} (hv : v < 100) (follows : Bool) (n : Nat) (pairs : List Nat)

include hv

theorem readPairs?_colon {rest : List Char} (h : rest ≠ []) :
    readPairs? follows true (n + 1) pairs (digits 2 v ++ ':' :: rest) =
      readPairs? follows true n (pairs ++ [v]) rest := by
  rw [readPairs?, takeDigits?_two hv]
  cases rest with
  | nil => exact absurd rfl h
  | cons c rest => simp

theorem readPairs?_last (colons : Bool) :
    readPairs? follows colons (n + 1) pairs (digits 2 v) = some (pairs ++ [v], 0, follows) := by
  rw [readPairs?, takeDigits?_two_end hv]
  rfl

theorem readPairs?_seconds {micros : Nat} (h : micros < 1000000) :
    readPairs? follows true (n + 1) pairs (digits 2 v ++ fractionText micros) =
      some (pairs ++ [v], micros, follows) := by
  by_cases hm : micros = 0
  · rw [fractionText, hm, if_pos (by decide), List.append_nil]
    exact readPairs?_last hv follows n pairs true
  · obtain ⟨d, ds, hd, -⟩ := exists_digits_cons (w := 6) (by decide) h
    have hf := readFraction?_digits h
    rw [fractionText, if_neg (by simpa using hm), readPairs?, takeDigits?_two hv]
    rw [hd] at hf ⊢
    simp [hf]

end Pairs

def clockText (c : Clock) : List Char :=
  digits 2 c.hour ++ ':' :: (digits 2 c.minute ++ ':' :: (digits 2 c.second ++
    fractionText c.microsecond))

def Clock.Fits (c : Clock) : Prop :=
  c.hour < 100 ∧ c.minute < 100 ∧ c.second < 100 ∧ c.microsecond < 1000000

theorem digits_append_ne_nil {n : Nat} (h : n < 100) (rest : List Char) : digits 2 n ++ rest ≠ [] := by
  obtain ⟨c, cs, hc, -⟩ := exists_digits_cons (by decide : 0 < 2) h
  simp [hc]

theorem readClock?_clockText {c : Clock} (h : c.Fits) (follows : Bool) :
    readClock? follows (clockText c) = some (c, follows) := by
  obtain ⟨hhour, hminute, hsecond, hmicro⟩ := h
  rw [readClock?, clockText, readPairs?_colon hhour _ _ _ (digits_append_ne_nil hminute _),
    readPairs?_colon hminute _ _ _ (digits_append_ne_nil hsecond _),
    readPairs?_seconds hsecond _ _ _ hmicro]
  rfl

theorem readClock?_minutes {hour minute : Nat} (hh : hour < 100) (hm : minute < 100)
    (follows : Bool) : readClock? follows (digits 2 hour ++ ':' :: digits 2 minute) =
      some (⟨hour, minute, 0, 0⟩, follows) := by
  have hne := digits_append_ne_nil hm []
  rw [List.append_nil] at hne
  rw [readClock?, readPairs?_colon hh _ _ _ hne, readPairs?_last hm]
  rfl

theorem isOffsetStart_of_isDigit {c : Char} (h : c.isDigit = true) : isOffsetStart c = false := by
  have hplus : c ≠ '+' := by
    rintro rfl
    exact absurd h (by decide)
  have hminus : c ≠ '-' := by
    rintro rfl
    exact absurd h (by decide)
  have hz : c ≠ 'Z' := by
    rintro rfl
    exact absurd h (by decide)
  simp [isOffsetStart, hplus, hminus, hz]

theorem isOffsetStart_of_mem_clockText {clock : Clock} {c : Char} (h : c ∈ clockText clock) :
    isOffsetStart c = false := by
  have hdigits : ∀ {w n}, c ∈ digits w n → isOffsetStart c = false :=
    fun hm => isOffsetStart_of_isDigit (isDigit_of_mem_digits hm)
  simp only [clockText, fractionText, List.mem_append, List.mem_cons] at h
  rcases h with h | rfl | h | rfl | h | h
  · exact hdigits h
  · decide
  · exact hdigits h
  · decide
  · exact hdigits h
  · split at h
    · cases h
    · rcases List.mem_cons.1 h with rfl | h
      · decide
      · exact hdigits h

def OffsetReadable (o : Int) : Prop := o = 0 ∨ 1000000 ≤ o.natAbs

def offsetSign (o : Int) : Char := if o < 0 then '-' else '+'

def offsetClock (o : Int) : Clock :=
  ⟨o.natAbs / 1000000 / 3600, o.natAbs / 1000000 / 60 % 60, o.natAbs / 1000000 % 60,
    o.natAbs % 1000000⟩

theorem offsetClock_fits {o : Int} (h : o.natAbs < microsPerDay) : (offsetClock o).Fits := by
  unfold microsPerDay at h
  simp only [Clock.Fits, offsetClock]
  omega

theorem writeOffset_cases (o : Int) : writeOffset o = offsetSign o :: clockText (offsetClock o) ∨
    writeOffset o = offsetSign o :: (digits 2 (offsetClock o).hour ++ ':' ::
      digits 2 (offsetClock o).minute) ∧
      (offsetClock o).second = 0 ∧ (offsetClock o).microsecond = 0 := by
  simp only [writeOffset, offsetSign, clockText, fractionText, offsetClock]
  by_cases hm : o.natAbs % 1000000 = 0
  · by_cases hs : o.natAbs / 1000000 % 60 = 0
    · right
      simp [hm, hs]
    · left
      simp [hm, hs]
  · left
    simp [hm]

theorem readOffset?_of_clock {o : Int} (h : OffsetReadable o) {cs : List Char}
    (hc : readClock? false cs = some (offsetClock o, false)) :
    readOffset? (offsetSign o == '-') cs = some o := by
  have hsum : (offsetClock o).hour * 3600 + (offsetClock o).minute * 60 +
      (offsetClock o).second = o.natAbs / 1000000 := by
    simp only [offsetClock]
    omega
  rw [readOffset?, hc]
  simp only [Option.bind_eq_bind, Option.bind_some, Bool.false_eq_true, if_false, hsum]
  have hmicro : (offsetClock o).microsecond = o.natAbs % 1000000 := rfl
  rw [hmicro, Nat.div_add_mod']
  rcases h with rfl | h
  · rfl
  · have hne : o.natAbs / 1000000 ≠ 0 := by omega
    have hzero : (o.natAbs / 1000000 == 0) = false := beq_false_of_ne hne
    by_cases hneg : o < 0
    · have hsign : (offsetSign o == '-') = true := by rw [offsetSign, if_pos hneg]; decide
      simp only [hzero, hsign, if_true, Bool.false_eq_true, if_false]
      exact congrArg some (by omega)
    · have hsign : (offsetSign o == '-') = false := by rw [offsetSign, if_neg hneg]; decide
      simp only [hzero, hsign, Bool.false_eq_true, if_false]
      exact congrArg some (by omega)

theorem readOffset?_write {o : Int} (h : OffsetReadable o) (hd : o.natAbs < microsPerDay) :
    ∃ cs, writeOffset o = offsetSign o :: cs ∧ readOffset? (offsetSign o == '-') cs = some o := by
  have hfits := offsetClock_fits hd
  rcases writeOffset_cases o with hw | ⟨hw, hs, hm⟩
  · exact ⟨_, hw, readOffset?_of_clock h (readClock?_clockText hfits false)⟩
  · refine ⟨_, hw, readOffset?_of_clock h ?_⟩
    have hclock : offsetClock o = ⟨(offsetClock o).hour, (offsetClock o).minute, 0, 0⟩ :=
      Clock.mk.injEq .. ▸ ⟨rfl, rfl, hs, hm⟩
    rw [readClock?_minutes hfits.1 hfits.2.1]
    exact congrArg (fun c => some (c, false)) hclock.symm

structure DateTime.Readable (t : DateTime) : Prop where
  valid : t.isValid = true
  offset : ∀ o, t.offset = some o → OffsetReadable o

def DateTime.clock (t : DateTime) : Clock := ⟨t.hour, t.minute, t.second, t.microsecond⟩

def offsetText (offset : Option Int) : List Char :=
  match offset with
  | some o => writeOffset o
  | none => []

theorem readTime?_write {clock : Clock} (h : clock.Fits) {offset : Option Int}
    (ho : ∀ o, offset = some o → OffsetReadable o ∧ o.natAbs < microsPerDay) :
    readTime? (clockText clock ++ offsetText offset) = some (clock, offset) := by
  have hfront : ∀ c ∈ clockText clock, (!isOffsetStart c) = true := by
    intro c hc
    rw [isOffsetStart_of_mem_clockText hc]
    rfl
  cases offset with
  | none =>
    rw [offsetText, List.append_nil, readTime?, List.takeWhile_eq_self_iff.2 hfront, List.drop_length,
      readClock?_clockText h]
    rfl
  | some o =>
    obtain ⟨hreadable, hday⟩ := ho o rfl
    obtain ⟨cs, hw, hr⟩ := readOffset?_write hreadable hday
    have hsign : offsetSign o = '-' ∨ offsetSign o = '+' := by
      unfold offsetSign
      split
      · exact .inl rfl
      · exact .inr rfl
    have hstart : (!isOffsetStart (offsetSign o)) = false := by
      rcases hsign with hs | hs <;> rw [hs] <;> decide
    have hz : offsetSign o ≠ 'Z' := by
      rcases hsign with hs | hs <;> rw [hs] <;> decide
    have htake : (clockText clock ++ offsetSign o :: cs).takeWhile (fun c => !isOffsetStart c) =
        clockText clock := by
      rw [List.takeWhile_append_of_pos hfront, List.takeWhile_cons, hstart]
      simp
    rw [offsetText, hw, readTime?, htake, List.drop_left, readClock?_clockText h]
    split
    · next he => cases he
    · next he => exact absurd (List.cons.inj he).1 hz
    · next c after _ he =>
      obtain ⟨rfl, rfl⟩ := List.cons.inj he
      simp [readClock?_clockText h, hr]

theorem DateTime.toList_write (separator : Char) (t : DateTime) :
    (t.write separator).toList =
      dateText t.date ++ separator :: (clockText t.clock ++ offsetText t.offset) := by
  simp only [write, String.toList_append, String.toList_ofList, Time.toList_write, clockText,
    fractionText, clock]
  cases t.offset <;> simp [offsetText]

theorem DateTime.read?_write {t : DateTime} (h : t.Readable) : read? (t.write 'T') = some t := by
  have hv := h.valid
  simp only [isValid, Bool.and_eq_true, decide_eq_true_eq, Option.all_eq_true] at hv
  obtain ⟨⟨⟨⟨⟨hdate, hhour⟩, hminute⟩, hsecond⟩, hmicro⟩, hoffset⟩ := hv
  have hfits : t.clock.Fits := by
    simp only [Clock.Fits, clock]
    omega
  have hl := length_dateText hdate
  have hlength : (dateText t.date ++ 'T' :: (clockText t.clock ++ offsetText t.offset)).length =
      11 + (clockText t.clock ++ offsetText t.offset).length := by
    rw [List.length_append, List.length_cons, hl]
    omega
  have hdrop : (dateText t.date ++ 'T' :: (clockText t.clock ++ offsetText t.offset)).drop (10 + 1) =
      clockText t.clock ++ offsetText t.offset := by
    rw [List.drop_append, hl, List.drop_of_length_le (by omega)]
    rfl
  have htime : readTime? (clockText t.clock ++ offsetText t.offset) = some (t.clock, t.offset) :=
    readTime?_write hfits fun o ho => ⟨h.offset o ho, by simpa using hoffset o ho⟩
  rw [read?, toList_write]
  simp only [hlength, dateLength_dateText hdate, hdrop, htime, List.take_left' hl,
    readDateText?_dateText hdate, Option.bind_eq_bind, Option.bind_some]
  rw [if_neg (by omega), if_pos (by omega)]
  exact if_pos h.valid

theorem offsetReadable_of_read {negative : Bool} {cs : List Char} {o : Int}
    (h : readOffset? negative cs = some o) : OffsetReadable o := by
  obtain ⟨⟨c, left⟩, -, hread⟩ := Option.bind_eq_some_iff.1 h
  dsimp only at hread
  split at hread
  · cases hread
  have hmicros : ∀ n micros : Nat, OffsetReadable
      (if negative then -(if n == 0 then 0 else ((n * 1000000 + micros : Nat) : Int))
        else if n == 0 then 0 else ((n * 1000000 + micros : Nat) : Int)) := by
    intro n micros
    unfold OffsetReadable
    by_cases hn : n = 0
    · cases negative <;> simp [hn]
    · cases negative <;> simp only [beq_false_of_ne hn] <;> right <;> simp <;> omega
  cases hread
  exact hmicros _ _

theorem readable_of_readTime {cs : List Char} {clock : Clock} {offset : Option Int}
    (h : readTime? cs = some (clock, offset)) : ∀ o, offset = some o → OffsetReadable o := by
  unfold readTime? at h
  dsimp only at h
  intro o ho
  split at h
  · obtain ⟨⟨c, left⟩, -, hread⟩ := Option.bind_eq_some_iff.1 h
    dsimp only at hread
    split at hread
    · cases hread
    · cases hread
      cases ho
  · obtain ⟨⟨c, left⟩, -, hread⟩ := Option.bind_eq_some_iff.1 h
    dsimp only at hread
    split at hread
    · cases hread
      cases ho
      exact .inl rfl
    · cases hread
  · obtain ⟨⟨c, left⟩, -, hread⟩ := Option.bind_eq_some_iff.1 h
    obtain ⟨read, hr, hread⟩ := Option.bind_eq_some_iff.1 hread
    cases hread
    cases ho
    exact offsetReadable_of_read hr

theorem DateTime.readable_of_read? {s : String} {t : DateTime} (h : read? s = some t) :
    t.Readable := by
  have hvalid : ∀ u : DateTime, (∀ o, u.offset = some o → OffsetReadable o) →
      (if u.isValid then some u else none) = some t → t.Readable := by
    intro u ho hu
    split at hu
    · next hv =>
      cases hu
      exact ⟨hv, ho⟩
    · cases hu
  unfold read? at h
  dsimp only at h
  split at h
  · cases h
  obtain ⟨date, -, hread⟩ := Option.bind_eq_some_iff.1 h
  split at hread
  · obtain ⟨⟨clock, offset⟩, htime, hread⟩ := Option.bind_eq_some_iff.1 hread
    exact hvalid _ (readable_of_readTime htime) hread
  · exact hvalid _ (fun o ho => by cases ho) hread

def EndsInDigit (cs : List Char) : Prop := ∃ front c, cs = front ++ [c] ∧ c.isDigit = true

theorem EndsInDigit.append {cs : List Char} (h : EndsInDigit cs) (front : List Char) :
    EndsInDigit (front ++ cs) := by
  obtain ⟨before, c, rfl, hc⟩ := h
  exact ⟨front ++ before, c, by simp, hc⟩

theorem EndsInDigit.cons {cs : List Char} (h : EndsInDigit cs) (c : Char) : EndsInDigit (c :: cs) :=
  h.append [c]

theorem endsInDigit_digits {w n : Nat} (hw : 0 < w) (h : n < 10 ^ w) : EndsInDigit (digits w n) := by
  obtain ⟨c, cs, hc, -⟩ := exists_digits_cons hw h
  have hne : digits w n ≠ [] := by simp [hc]
  exact ⟨_, _, (List.dropLast_concat_getLast hne).symm, isDigit_of_mem_digits (List.getLast_mem hne)⟩

theorem endsInDigit_clockText {c : Clock} (h : c.Fits) : EndsInDigit (clockText c) := by
  obtain ⟨-, -, hsecond, hmicro⟩ := h
  refine .append (.cons (.append (.cons ?_ _) _) _) _
  unfold fractionText
  split
  · rw [List.append_nil]
    exact endsInDigit_digits (by decide) hsecond
  · exact .append (.cons (endsInDigit_digits (by decide) hmicro) _) _

theorem endsInDigit_writeOffset {o : Int} (h : o.natAbs < microsPerDay) :
    EndsInDigit (writeOffset o) := by
  have hfits := offsetClock_fits h
  rcases writeOffset_cases o with hw | ⟨hw, -, -⟩
  · rw [hw]
    exact .cons (endsInDigit_clockText hfits) _
  · rw [hw]
    exact .cons (.append (.cons (endsInDigit_digits (by decide) hfits.2.1) _) _) _

theorem DateTime.endsInDigit_write {t : DateTime} (h : t.isValid = true) :
    EndsInDigit (t.write 'T').toList := by
  simp only [isValid, Bool.and_eq_true, decide_eq_true_eq, Option.all_eq_true] at h
  obtain ⟨⟨⟨⟨⟨-, hhour⟩, hminute⟩, hsecond⟩, hmicro⟩, hoffset⟩ := h
  have hfits : t.clock.Fits := by
    simp only [Clock.Fits, clock]
    omega
  rw [toList_write]
  refine .append (.cons ?_ _) _
  cases ho : t.offset with
  | none =>
    rw [offsetText, List.append_nil]
    exact endsInDigit_clockText hfits
  | some o => exact .append (endsInDigit_writeOffset (by simpa using hoffset o ho)) _

end OpenApi.Time
