import OpenApi.Entries
import OpenApi.Fault
import OpenApi.Naming.Argument
/-! # Signatures

A signature is a row of slots that the arguments of a call fill. Some slots can be filled by
position, all of them by name, and those that are not required are null if nothing fills them. The
first slot without an argument that needs one, or else the first argument without a slot, makes a
call a wrong one. Not every row of slots is sound.
-/
namespace OpenApi

structure Slot where
  name : String
  positional : Bool
  required : Bool
  deriving DecidableEq, Repr

abbrev Signature := List Slot

namespace Slot

def text (s : Slot) : String := if s.required then s.name else s.name ++ "=None"

/-- Slots that are filled by name only come last, and of the others the required ones come first. -/
def mayPrecede (a b : Slot) : Bool := !b.positional || (a.positional && (a.required || !b.required))

end Slot

namespace Signature

/-- The slots in brackets. A star stands before the first one that is filled by name only. -/
def text (s : Signature) : String :=
  let front := s.takeWhile fun slot => slot.positional
  let back := s.dropWhile fun slot => slot.positional
  let star := if back.isEmpty then [] else ["*"]
  "(" ++ joined ", " (front.map Slot.text ++ star ++ back.map Slot.text) ++ ")"

/-- Whether calls can be checked against the slots: their names are different and usable, and they
stand in a possible order. -/
def isSound (s : Signature) : Bool :=
  decide (s.map Slot.name).Nodup && s.all (fun slot => Naming.isUsable slot.name) &&
    decide (s.Pairwise fun a b => a.mayPrecede b = true)

def bind : Signature → List Value → Entries String Value →
    Except ArgumentFault (Entries String Value)
  | [], [], [] => .ok []
  | [], [], (name, _) :: _ => .error (.unexpected name)
  | [], _ :: _, _ => .error .tooMany
  | slot :: rest, v :: args, named =>
    if !slot.positional then .error .tooMany
    else if named.has slot.name then .error (.repeated slot.name)
    else (bind rest args named).map ((slot.name, v) :: ·)
  | slot :: rest, [], named =>
    match named.get? slot.name with
    | some v => (bind rest [] (named.erase slot.name)).map ((slot.name, v) :: ·)
    | none =>
      if slot.required then .error (.missing slot.name)
      else (bind rest [] named).map ((slot.name, .null) :: ·)

theorem eq_cons_of_map_eq_ok {r : Except ArgumentFault (Entries String Value)}
    {e : String × Value} {bound : Entries String Value} (h : r.map (e :: ·) = .ok bound) :
    ∃ rest, r = .ok rest ∧ bound = e :: rest := by
  cases r with
  | error f => cases h
  | ok rest => exact ⟨rest, rfl, by cases h; rfl⟩

/-- Whatever fits a signature fills each of its slots once, in order. -/
theorem keys_of_bind {s : Signature} {args : List Value} {named bound : Entries String Value}
    (h : bind s args named = .ok bound) : bound.keys = s.map Slot.name := by
  fun_induction bind s args named generalizing bound with
  | case1 => cases h; rfl
  | case2 | case3 | case4 | case5 | case8 => cases h
  | case6 slot rest v args named _ _ ih =>
    obtain ⟨tail, ht, rfl⟩ := eq_cons_of_map_eq_ok h
    simpa [Entries.keys] using ih ht
  | case7 slot rest named v _ ih =>
    obtain ⟨tail, ht, rfl⟩ := eq_cons_of_map_eq_ok h
    simpa [Entries.keys] using ih ht
  | case9 slot rest named _ _ ih =>
    obtain ⟨tail, ht, rfl⟩ := eq_cons_of_map_eq_ok h
    simpa [Entries.keys] using ih ht

end Signature

end OpenApi
