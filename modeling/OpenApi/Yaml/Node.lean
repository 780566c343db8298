import OpenApi.Yaml.Resolve
/-! # Nodes

What a text is made of: scalars, lists and mappings, before it is said what they stand for. Keys
of mappings must be values that can be keys; of equal keys the last value counts.
-/
namespace OpenApi.Yaml

inductive Node where
  | plain (text : List Char)
  | quoted (text : List Char)
  | list (items : List Node)
  | mapping (entries : List (Node × Node))

namespace Node

def empty : Node := .plain []

def keyOf (v : Value) : Read Key :=
  match v.key? with
  | some k => .ok k
  | none => .error .form

def toValue : Node → Read Value
  | plain text => resolve text
  | quoted text => .ok (.str (String.ofList text))
  | list items => return .list (← toValues items)
  | mapping entries => return .dict (Entries.ofList (← toEntries entries))
where
  toValues : List Node → Read (List Value)
    | [] => .ok []
    | n :: rest => do
      let v ← toValue n
      return v :: (← toValues rest)
  toEntries : List (Node × Node) → Read (List (Key × Value))
    | [] => .ok []
    | (k, n) :: rest => do
      let key ← keyOf (← toValue k)
      let v ← toValue n
      return (key, v) :: (← toEntries rest)

end Node

end OpenApi.Yaml
