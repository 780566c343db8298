import OpenApi.Codec
/-! # Decoding

A codec reads a value and gives it back with its dates read, or says at which place of the value
what was expected. The first failure counts; of several alternatives the first that fits. Where a
failure cannot be put into words all decoding ends, also that of alternatives.
-/
namespace OpenApi

inductive Step where
  | key (k : Key)
  | index (i : Nat)

def Step.writeText : Step → Except WriteError String
  | key (.int n) => return "[" ++ (← Key.writeText (.int n)) ++ "]"
  | key (.bool b) => .ok ("[" ++ boolLiteral b ++ "]")
  | key k => return "." ++ (← k.writeText)
  | index i => .ok ("[" ++ toString i ++ "]")

/-- Where decoding failed, counted from the root, and what was expected there. -/
structure DecodeFailure where
  path : List Step
  message : String

namespace DecodeFailure

def below (step : Step) (f : DecodeFailure) : DecodeFailure := { f with path := step :: f.path }

def writeText (f : DecodeFailure) : Except WriteError String :=
  return "$" ++ String.join (← f.path.mapM Step.writeText) ++ ": " ++ f.message

end DecodeFailure

inductive Undecoded where
  | failure (f : DecodeFailure)
  /-- What is to be said of a failure cannot be written. -/
  | unwritten (e : WriteError)

namespace Undecoded

def below (step : Step) : Undecoded → Undecoded
  | failure f => failure (f.below step)
  | unwritten e => unwritten e

def ofFailure : Except WriteError DecodeFailure → Undecoded
  | .ok f => failure f
  | .error e => unwritten e

def writeText : Undecoded → Except WriteError String
  | failure f => f.writeText
  | unwritten e => .error e

end Undecoded

abbrev Decoded (α : Type) := Except Undecoded α

@[simp]
def failed {α : Type} (f : DecodeFailure) : Decoded α := .error (.failure f)

def sortName (k : Kind) : String := if k = .null then "null" else k.name

def expected (what got : String) : DecodeFailure := ⟨[], "expected " ++ what ++ ", got " ++ got⟩

def expectedSort (what : String) (raw : Value) : DecodeFailure := expected what (sortName raw.kind)

/-- A time in the zone Z is at no offset. -/
def zuluText (s : String) : String :=
  match s.toList.getLast? with
  | some c =>
    if c == 'Z' || c == 'z' then String.ofList s.toList.dropLast ++ "+00:00" else s
  | none => s

def decodeDate (raw : Value) : Decoded Value :=
  match raw with
  | .datetime t => .ok (.datetime t)
  | .str s =>
    match Time.DateTime.read? (zuluText s) with
    | some t => .ok (.datetime t)
    | none => failed (expected "date-time string" raw.literal)
  | raw => failed (expectedSort "date-time string" raw)

def guarded (what : String) (test : Bool) (raw : Value) : Decoded Value :=
  if test then .ok raw else failed (expectedSort what raw)

def mismatch (literal raw : Value) : Except WriteError DecodeFailure :=
  return expected (← Json.write literal) (← raw.writeLiteral)

/-- Both sides hold; objects are merged, and otherwise the right one counts. -/
def mergeDecoded : Value → Value → Value
  | .dict left, .dict right => .dict (Entries.overlay left right)
  | _, right => right

def decodeItems (read : Value → Decoded Value) (i : Nat) : List Value → Decoded (List Value)
  | [] => .ok []
  | v :: rest =>
    match read v with
    | .error f => .error (f.below (.index i))
    | .ok w => return w :: (← decodeItems read (i + 1) rest)

def decodeEntries (read : Value → Decoded Value) :
    List (Key × Value) → Decoded (List (Key × Value))
  | [] => .ok []
  | (k, v) :: rest =>
    match k with
    | .str _ =>
      match read v with
      | .error f => .error (f.below (.key k))
      | .ok w => return (k, w) :: (← decodeEntries read rest)
    | k => failed (expectedSort "string key" k.toValue)

namespace Codec

def decode : Codec → Value → Decoded Value
  | unknown, raw => .ok raw
  | string, raw => guarded "string" (raw.kind = .str) raw
  | number, raw => guarded "number" (raw.kind = .int || raw.kind = .float) raw
  | boolean, raw => guarded "boolean" (raw.kind = .bool) raw
  | null, raw => guarded "nullType" (raw.kind = .null) raw
  | date, raw => decodeDate raw
  | exactly v, raw =>
    if raw.kind = v.kind && raw.same v then .ok raw
    else .error (.ofFailure (mismatch v raw))
  | array item, raw =>
    match raw with
    | .list items => return .list (← decodeItems (decode item) 0 items)
    | raw => failed (expectedSort "array" raw)
  | optional inner, raw => if raw.kind = .null then .ok raw else decode inner raw
  | maybe inner, raw => if raw.kind = .null then .ok raw else decode inner raw
  | interface fields, raw =>
    match raw with
    | .dict entries => return .dict (← decodeFields fields entries entries)
    | raw => failed (expectedSort "object" raw)
  | record item, raw =>
    match raw with
    | .dict entries => return .dict (← decodeEntries (decode item) entries)
    | raw => failed (expectedSort "object" raw)
  | oneOf members, raw => decodeAny members raw []
  | intersect left right, raw => do
    let l ← decode left raw
    let r ← decode right raw
    return mergeDecoded l r
  | model name _ none, _ => failed ⟨[], "model " ++ name ++ " is not defined"⟩
  | model _ _ (some target), raw => decode target raw
where
  /-- The declared fields are read from `raw` and put into `done`. -/
  decodeFields : List (Key × Codec) → Entries Key Value → Entries Key Value →
      Decoded (Entries Key Value)
    | [], _, done => .ok done
    | (k, c) :: rest, raw, done =>
      match raw.get? k with
      | none =>
        if c.isRequired then failed ⟨[.key k], "missing required property"⟩
        else decodeFields rest raw done
      | some v =>
        match decode c v with
        | .error f => .error (f.below (.key k))
        | .ok w => decodeFields rest raw (done.put k w)
  decodeAny : List Codec → Value → List String → Decoded Value
    | [], _, failures => failed ⟨[], "no union member matched: " ++ joined "; " failures⟩
    | c :: rest, raw, failures =>
      match decode c raw with
      | .ok v => .ok v
      | .error f =>
        match f.writeText with
        | .ok text => decodeAny rest raw (failures ++ [text])
        | .error e => .error (.unwritten e)

theorem decode_maybe (inner : Codec) (raw : Value) :
    (maybe inner).decode raw = (optional inner).decode raw := by
  rw [decode, decode]

theorem decodeFields_cons {fields : List (Key × Codec)} {f : Key × Codec}
    {raw done result : Entries Key Value}
    (h : decode.decodeFields (f :: fields) raw done = .ok result) :
    (raw.get? f.1 = none ∧ decode.decodeFields fields raw done = .ok result) ∨
      ∃ v w, raw.get? f.1 = some v ∧ f.2.decode v = .ok w ∧
        decode.decodeFields fields raw (done.put f.1 w) = .ok result := by
  obtain ⟨k, c⟩ := f
  rw [decode.decodeFields] at h
  split at h
  · split at h
    · cases h
    · exact .inl ⟨‹_›, h⟩
  · split at h
    · cases h
    · exact .inr ⟨_, _, ‹_›, ‹_›, h⟩

theorem decodeAny_member {members : List Codec} {raw v : Value} {failures : List String}
    (h : decode.decodeAny members raw failures = .ok v) : ∃ c ∈ members, c.decode raw = .ok v := by
  induction members generalizing failures with
  | nil => cases h
  | cons c rest ih =>
    rw [decode.decodeAny] at h
    split at h
    · next w hc =>
      exact ⟨c, List.mem_cons_self, hc.trans h⟩
    · split at h
      · obtain ⟨b, hb, hv⟩ := ih h
        exact ⟨b, List.mem_cons_of_mem c hb, hv⟩
      · cases h

end Codec

end OpenApi
