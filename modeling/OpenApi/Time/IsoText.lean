import OpenApi.Time.Calendar
/-! # ISO 8601 text

Dates and times in the written forms of ISO 8601. Writing has one form. Reading accepts the
calendar and week forms of dates, with or without hyphens, any one character between date and
time, and times with or without colons.
-/
namespace OpenApi.Time

def digits (width n : Nat) : List Char :=
  let ds := Nat.toDigits 10 n
  List.replicate (width - ds.length) '0' ++ ds

def Date.write (d : Date) : String :=
  String.ofList (digits 4 d.year ++ '-' :: digits 2 d.month ++ '-' :: digits 2 d.day)

/-- Seconds and microseconds of an offset are written only if they are not zero. -/
def writeOffset (o : Int) : List Char :=
  let n := o.natAbs
  let seconds := n / 1000000
  let micros := n % 1000000
  let tail :=
    if micros != 0 then ':' :: digits 2 (seconds % 60) ++ '.' :: digits 6 micros
    else if seconds % 60 != 0 then ':' :: digits 2 (seconds % 60)
    else []
  (if o < 0 then '-' else '+') :: digits 2 (seconds / 3600) ++ ':' :: digits 2 (seconds / 60 % 60) ++ tail

def DateTime.write (separator : Char) (t : DateTime) : String :=
  let fraction := if t.microsecond == 0 then [] else '.' :: digits 6 t.microsecond
  let offset := match t.offset with
    | some o => writeOffset o
    | none => []
  t.date.write ++ String.ofList (separator :: digits 2 t.hour ++ ':' :: digits 2 t.minute ++ ':' ::
    digits 2 t.second ++ fraction ++ offset)

def isNumeral (c : Char) : Bool := c.isDigit

def takeDigits? (n : Nat) (cs : List Char) : Option (Nat × List Char) :=
  let front := cs.take n
  if front.length == n && front.all isNumeral then
    some (front.foldl (fun v c => 10 * v + (c.toNat - '0'.toNat)) 0, cs.drop n)
  else none

def skip? (separator : Bool) (cs : List Char) : Option (List Char) :=
  if separator then (match cs with
    | '-' :: rest => some rest
    | _ => none)
  else some cs

/-- A week date; the day of the week is Monday if it is left out. -/
def readWeek? (hyphens : Bool) (year : Nat) (cs : List Char) : Option Date := do
  let (week, afterWeek) ← takeDigits? 2 cs
  if afterWeek.isEmpty then Date.ofWeek? year week 1
  else
    let dayText ← skip? hyphens afterWeek
    let (day, _) ← takeDigits? 1 dayText
    Date.ofWeek? year week day

def readDateText? (cs : List Char) : Option Date := do
  let (year, afterYear) ← takeDigits? 4 cs
  let hyphens := afterYear.head? == some '-'
  let rest ← skip? hyphens afterYear
  match rest with
  | 'W' :: week => readWeek? hyphens year week
  | rest =>
    let (month, afterMonth) ← takeDigits? 2 rest
    let dayText ← skip? hyphens afterMonth
    let (day, after) ← takeDigits? 2 dayText
    if after.isEmpty then some ⟨year, month, day⟩ else none

/-- A date on its own has seven, eight or ten characters. -/
def Date.read? (s : String) : Option Date := do
  let cs := s.toList
  let n := cs.length
  if n == 7 || n == 8 || n == 10 then
    let d ← readDateText? cs
    if d.isValid then some d else none
  else none

/-- How many characters the date at the front of a text takes.

The fifth character tells the extended forms by a hyphen and the week forms by a `W`. Where a
week form may or may not go on with a day, an extended form takes the day unless a digit
follows it, and a basic form takes the day when an odd number of digits follow the week. -/
def dateLength (cs : List Char) : Nat :=
  if cs.length == 7 then 7
  else if cs[4]? == some '-' then
    if cs[5]? == some 'W' then
      if cs[8]? == some '-' then
        if 10 < cs.length && (cs[10]?.any isNumeral) then 8 else 10
      else 8
    else 10
  else if cs[4]? == some 'W' then
    let stop := 7 + ((cs.drop 7).takeWhile isNumeral).length
    if stop < 9 then stop else if stop % 2 == 0 then 7 else 8
  else 8

structure Clock where
  hour : Nat := 0
  minute : Nat := 0
  second : Nat := 0
  microsecond : Nat := 0

/-- The digits of a fraction of a second beyond the sixth are dropped, but all must be digits. -/
def readFraction? (cs : List Char) : Option (Nat × Bool) := do
  let n := min cs.length 6
  let (v, after) ← takeDigits? n cs
  some (v * Nat.pow 10 (6 - n), !(after.dropWhile isNumeral).isEmpty)

/-- Reads one to three pairs of digits and a fraction. The flag says that something is left over.
Pairs are parted by colons if the first two are; a fraction follows a point or a comma, the
third pair's colon, or nothing in the form without colons. -/
def readPairs? (follows : Bool) (colons : Bool) : Nat → List Nat → List Char → Option (List Nat × Nat × Bool)
  | 0, pairs, cs => do
    let (micros, left) ← readFraction? cs
    some (pairs, micros, left || follows)
  | n + 1, pairs, cs => do
    let (v, after) ← takeDigits? 2 cs
    let pairs := pairs ++ [v]
    match after with
    | [] => some (pairs, 0, follows)
    | [_] => some (pairs, 0, true)
    | c :: rest =>
      let colons := if pairs.length == 1 then c == ':' else colons
      if colons && c == ':' then readPairs? follows colons n pairs rest
      else if c == '.' || c == ',' then
        let (micros, left) ← readFraction? rest
        some (pairs, micros, left || follows)
      else if !colons then readPairs? follows colons n pairs (c :: rest)
      else none

def readClock? (follows : Bool) (cs : List Char) : Option (Clock × Bool) := do
  let (pairs, micros, left) ← readPairs? follows true 3 [] cs
  some (⟨pairs.getD 0 0, pairs.getD 1 0, pairs.getD 2 0, micros⟩, left)

/-- An offset of less than a second either way counts as none. -/
def readOffset? (negative : Bool) (cs : List Char) : Option Int := do
  let (c, left) ← readClock? false cs
  if left then none
  else
    let seconds := c.hour * 3600 + c.minute * 60 + c.second
    let micros : Int := if seconds == 0 then 0 else (seconds * 1000000 + c.microsecond : Nat)
    some (if negative then -micros else micros)

def isOffsetStart (c : Char) : Bool := c == '+' || c == '-' || c == 'Z'

def readTime? (cs : List Char) : Option (Clock × Option Int) := do
  let front := cs.takeWhile (!isOffsetStart ·)
  match cs.drop front.length with
  | [] =>
    let (clock, left) ← readClock? false front
    if left then none else some (clock, none)
  | 'Z' :: after =>
    let (clock, _) ← readClock? true front
    if after.isEmpty then some (clock, some 0) else none
  | c :: after =>
    let (clock, _) ← readClock? true front
    let offset ← readOffset? (c == '-') after
    some (clock, some offset)

def DateTime.read? (s : String) : Option DateTime := do
  let cs := s.toList
  if cs.length < 7 then none
  else
    let n := dateLength cs
    let date ← readDateText? (cs.take n)
    let (clock, offset) ←
      if n < cs.length then readTime? (cs.drop (n + 1)) else some ({}, none)
    let t : DateTime := ⟨date, clock.hour, clock.minute, clock.second, clock.microsecond, offset⟩
    if t.isValid then some t else none

end OpenApi.Time
