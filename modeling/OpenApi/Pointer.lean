import OpenApi.Fault
import OpenApi.Text.Pieces
import OpenApi.Text.Percent
import OpenApi.Decimal.Numeral
/-! # Pointers

A reference names a node of its own document by a pointer: `#/` and the segments of a path from
the root, separated by slashes. In a segment `~1` stands for a slash and `~0` for a tilde, and
what is percent encoded is decoded afterwards. A segment is a key of a mapping or an index into
a list; an index below zero counts from the end.
-/
namespace OpenApi.Pointer

def unescape : List Char → List Char
  | '~' :: '1' :: rest => '/' :: unescape rest
  | '~' :: '0' :: rest => '~' :: unescape rest
  | c :: rest => c :: unescape rest
  | [] => []

def segment (cs : List Char) : String := Text.decodePercent (String.ofList (unescape cs))

def segments (ref : String) : Except Fault (List String) :=
  match ref.toList with
  | '#' :: '/' :: path => .ok ((Text.pieces (· == '/') path).map segment)
  | _ => .error (.externalReference ref)

/-- The position that an index means in a list of `n` members. -/
def position? (n : Nat) (i : Int) : Option Nat :=
  if 0 ≤ i then if i < n then some i.toNat else none
  else if 0 ≤ i + n then some (i + n).toNat
  else none

def step (ref : String) (node : Value) (name : String) : Except Fault Value :=
  match node with
  | .dict es =>
    match Entries.get? es (.str name) with
    | some v => .ok v
    | none => .error (.missingKey ref name)
  | .list items =>
    match (Decimal.readInt? name).bind (position? items.length ·) |>.bind (items[·]?) with
    | some v => .ok v
    | none => .error (.badIndex ref name)
  | v => .error (.notNavigable ref v.kind)

def resolve (document : Value) (ref : String) : Except Fault Value := do
  (← segments ref).foldlM (step ref) document

end OpenApi.Pointer

namespace OpenApi.Value

def isReference (v : Value) : Bool := (v.get? "$ref").isSome

def resolved (document node : Value) : Except Fault Value :=
  match node.get? "$ref" with
  | none => .ok node
  | some (.str ref) => Pointer.resolve document ref
  | some _ => .error .malformed

def resolvedMembers (document items : Value) : Except Fault (List Value) :=
  if items.isTruthy then
    match items.elements? with
    | some vs => vs.mapM (resolved document)
    | none => .error .malformed
  else .ok []

end OpenApi.Value
