import OpenApi.Catalogue
import OpenApi.Event
import OpenApi.Naming.Words
import OpenApi.Schema
/-! # Compilation

Schemas of one document are compiled with one catalogue. A reference that is met for the first
time claims its name and is compiled from its target; afterwards it is its alias. A reference
that is met again before its model is defined closes a cycle, and there nothing is asked of the
value. What a failed compilation has claimed stays claimed.
-/
namespace OpenApi

/-- What a compilation keeps from one schema to the next, and the models as they were when they
were first asked for. -/
structure Compilation where
  catalogue : Catalogue
  frozen : Option (Entries String Codec)
  journal : Journal

namespace Compilation

def start : Compilation := ⟨∅, none, []⟩

/-- The models at the first freeze. What is defined later is not among them. -/
def frozenModels (c : Compilation) : Entries String Codec := c.frozen.getD c.catalogue.models

def freeze (c : Compilation) : Compilation := { c with frozen := some c.frozenModels }

end Compilation

/-- Compiling can fail; what was noted and claimed before is kept. -/
abbrev Compile (α : Type) := ExceptT Fault (StateM Compilation) α

namespace Compile

def note (e : Event) : Compile Unit := modify fun c => { c with journal := c.journal ++ [e] }

def catalogue : Compile Catalogue := return (← get).catalogue

def setCatalogue (c : Catalogue) : Compile Unit := modify fun s => { s with catalogue := c }

def run (x : Compile α) (c : Compilation) : Except Fault α × Compilation :=
  Id.run (StateT.run (ExceptT.run x) c)

end Compile

/-- How many references a value holds, at most. -/
def Value.countRefs : Value → Nat
  | .dict es => inEntries es
  | .list items => inItems items
  | .tuple items => inItems items
  | _ => 0
where
  inEntries : List (Key × Value) → Nat
    | [] => 0
    | (k, v) :: rest => (if k == .str "$ref" then 1 else 0) + countRefs v + inEntries rest
  inItems : List Value → Nat
    | [] => 0
    | v :: rest => countRefs v + inItems rest

open Compile in
/-- The codec of a reference. Every level below claims a reference of its own, so there are no more
levels than references. -/
def modelCodec (document : Value) : Nat → String → Compile Codec
  | 0, _ => throw .malformed
  | depth + 1, ref => do
    let target ← ofExcept (Pointer.resolve document ref)
    let name ← ofExcept (Naming.modelName ref target)
    match (← catalogue).lookup ref with
    | some a => return if (← catalogue).isDefined a.name then a.codec else .unknown
    | none =>
      setCatalogue (← ofExcept ((← catalogue).claim name ref))
      note (.compilingModel name ref)
      let codec ← (Schema.ofValue target).compile (modelCodec document depth)
      let a : Alias := ⟨name, ref, none⟩
      setCatalogue ((← catalogue).define a codec)
      return { a with target := some codec }.codec

def compileSchema (document node : Value) : Compile Codec :=
  (Schema.ofValue node).compile (modelCodec document (document.countRefs + node.countRefs + 1))

end OpenApi
