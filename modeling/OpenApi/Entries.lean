/-! # Ordered maps

An ordered map is the list of its entries, each key once, in the order in which the keys were
first put in. Putting a key again replaces its value where it stands.
-/
namespace OpenApi

abbrev Entries (κ : Type) (α : Type) := List (κ × α)

namespace Entries

variable {κ α β : Type} [BEq κ]

def get? : Entries κ α → κ → Option α
  | [], _ => none
  | e :: rest, k => if k == e.1 then some e.2 else get? rest k

def has (es : Entries κ α) (k : κ) : Bool := (es.get? k).isSome

def keys (es : Entries κ α) : List κ := es.map (·.1)

def values (es : Entries κ α) : List α := es.map (·.2)

def put : Entries κ α → κ → α → Entries κ α
  | [], k, v => [(k, v)]
  | e :: rest, k, v => if k == e.1 then (e.1, v) :: rest else e :: put rest k v

def erase (es : Entries κ α) (k : κ) : Entries κ α := es.filter fun e => !(k == e.1)

def overlay (base upper : Entries κ α) : Entries κ α :=
  upper.foldl (fun es e => es.put e.1 e.2) base

/-- Of entries with one key the last value counts, at the place of the first. -/
def ofList (es : List (κ × α)) : Entries κ α := overlay [] es

def mapValues (f : α → β) (es : Entries κ α) : Entries κ β := es.map fun e => (e.1, f e.2)

@[simp] theorem get?_nil (k : κ) : get? ([] : Entries κ α) k = none := rfl

theorem get?_cons (e : κ × α) (es : Entries κ α) (k : κ) :
    get? (e :: es) k = if k == e.1 then some e.2 else get? es k := rfl

section Equivalence

variable [EquivBEq κ]

theorem get?_put (es : Entries κ α) (k k' : κ) (v : α) :
    (es.put k v).get? k' = if k' == k then some v else es.get? k' := by
  induction es with
  | nil => simp [put, get?_cons]
  | cons e es ih =>
    by_cases h : k == e.1
    · by_cases h' : k' == e.1
      · have hk : k' == k := BEq.trans h' (BEq.symm h)
        simp [put, get?_cons, h, h', hk]
      · have hk : ¬ k' == k := fun hk => h' (BEq.trans hk h)
        simp [put, get?_cons, h, h', hk]
    · by_cases h' : k' == e.1
      · have hk : ¬ k' == k := fun hk => h (BEq.trans (BEq.symm hk) h')
        simp [put, get?_cons, h, h', hk]
      · simp [put, get?_cons, h, h', ih]

end Equivalence

end Entries

end OpenApi
