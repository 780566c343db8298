import OpenApi.Field
/-! # Options of a compilation

Which operations are wanted, by their tags, and whether calls give plain data. An operation with
an unwanted tag is left out; where wanted tags are listed, so is one without any of them.
-/
namespace OpenApi

structure Options where
  /-- The wanted tags; without a list all are wanted. -/
  wanted : Option (List String)
  unwanted : List String
  /-- Successful results are given as plain data, and all others are raised. -/
  optimistic : Bool
  deriving DecidableEq, Repr

namespace Options

def default : Options := ⟨none, [], false⟩

instance : Inhabited Options := ⟨default⟩

def lists (tags : List String) (tag : Value) : Bool := tag.str?.any tags.contains

def skips (o : Options) (tags : List Value) : Bool :=
  tags.any (lists o.unwanted) || o.wanted.any fun wanted => !tags.any (lists wanted)

/-- The options of a mapping; what it does not hold is as by default. -/
def ofValue : Value → Except Fault Options
  | .dict es => do
    let wanted ← Field.optionalTexts (Value.getD es "include")
    let unwanted ← match Entries.get? es (.str "exclude") with
      | some v => Field.texts v
      | none => pure []
    let optimistic ← match Entries.get? es (.str "optimistic") with
      | some v => Field.truth v
      | none => pure false
    return ⟨wanted, unwanted, optimistic⟩
  | _ => .error .invalidField

end Options

end OpenApi
