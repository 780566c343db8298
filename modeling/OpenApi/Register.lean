import OpenApi.Catalogue
/-! # The register of claims

A catalogue knows one alias of every reference, the last one. A register keeps the earlier ones as well, in
the order of their claims, since they can still be defined: their name is defined then, and the reference
keeps the alias that it claimed last. -/
namespace OpenApi

structure Register where
  catalogue : Catalogue
  /-- Every alias that was claimed, with the codec that it was given last. -/
  claimed : List Alias

namespace Register

def empty : Register := ⟨∅, []⟩

instance : EmptyCollection Register := ⟨empty⟩

def lookup (r : Register) (ref : String) : Option Alias := r.catalogue.lookup ref

def isDefined (r : Register) (name : String) : Bool := r.catalogue.isDefined name

def models (r : Register) : Entries String Codec := r.catalogue.models

/-- Every claim makes an alias of its own, also for a name and a reference that were claimed before. -/
def claiming (name ref : String) : ExceptT Fault (StateM Register) Alias := do
  let r ← get
  let catalogue ← ofExcept (r.catalogue.claim name ref)
  let a : Alias := ⟨name, ref, none⟩
  set { r with catalogue, claimed := r.claimed ++ [a] }
  return a

def claim (r : Register) (name ref : String) : Except Fault Alias × Register :=
  Id.run (StateT.run (ExceptT.run (claiming name ref)) r)

/-- Whether a reference has claimed no alias after the one of this number. -/
def isLast (r : Register) (number : Nat) (ref : String) : Bool :=
  (r.claimed.drop (number + 1)).all fun a => a.ref != ref

/-- Gives a codec to the alias of this number, counted from the first claim. -/
def define (r : Register) (number : Nat) (codec : Codec) : Register :=
  match r.claimed[number]? with
  | none => r
  | some a =>
    { catalogue :=
        if r.isLast number a.ref then r.catalogue.define a codec
        else { r.catalogue with defined := r.catalogue.defined.put a.name codec }
      claimed := r.claimed.set number { a with target := some codec } }

inductive Step where
  | claim (name ref : String)
  | define (number : Nat) (codec : Codec)

def step (r : Register) : Step → Register
  | .claim name ref => (r.claim name ref).2
  | .define number codec => r.define number codec

def run (steps : List Step) : Register := steps.foldl step ∅

end Register

end OpenApi
