import OpenApi.Parameter
import OpenApi.Text.Percent
import OpenApi.Text.Pieces
/-! # Query strings

Five ways to write named values into a query string, and one way to read it. Values are written
as their wire text, percent encoded. Nothing is written for a name whose value is null.
-/
namespace OpenApi.Query

def encode (v : Value) : String := Text.encodeComponent v.wireText

def encodeKey (k : Key) : String := encode k.toValue

/-- The members of a list, the keys and values of a mapping in turn, or the value alone. -/
def flatten : Value → List Value
  | .dict es => es.flatMap fun e => [e.1.toValue, e.2]
  | .list items => items
  | .tuple items => items
  | v => [v]

def delimited (delimiter : String) (params : Entries Key Value) : String :=
  joined "&" ((params.filter fun e => e.2.kind ≠ .null).map fun e =>
    encodeKey e.1 ++ "=" ++ joined delimiter ((flatten e.2).map encode))

/-- The names and values that a mapping spreads into: a list repeats its name and a mapping has
names of its own. -/
def spread : List (Key × Value) → List (String × String)
  | [] => []
  | (k, v) :: rest => spreadValue k.wireText v ++ spread rest
where
  spreadValue (name : String) : Value → List (String × String)
    | .null => []
    | .dict es => spread es
    | .list items => repeated name items
    | .tuple items => repeated name items
    | v => [(name, v.wireText)]
  repeated (name : String) (items : List Value) : List (String × String) :=
    (items.filter fun v => v.kind ≠ .null).map fun v => (name, v.wireText)

def explode (params : Entries Key Value) : String :=
  joined "&" ((spread params).map fun p =>
    Text.encodeComponent p.1 ++ "=" ++ Text.encodeComponent p.2)

/-- The paths and values of a nested mapping. The path to a member of a list ends in nothing. -/
def leaves (path : List String) : List (Key × Value) → List (List String × String)
  | [] => []
  | (k, v) :: rest => leavesOf (path ++ [k.text]) v ++ leaves path rest
where
  leavesOf (path : List String) : Value → List (List String × String)
    | .null => []
    | .dict es => leaves path es
    | .list items => members path items
    | .tuple items => members path items
    | v => [(path, v.wireText)]
  members (path : List String) (items : List Value) : List (List String × String) :=
    (items.filter fun v => v.kind ≠ .null).map fun v => (path ++ [""], v.wireText)

/-- A path is written with its first name in front and all others in brackets. -/
def pathKey : List String → String
  | [] => ""
  | name :: rest =>
    Text.encodeComponent name ++ String.join (rest.map fun s => "[" ++ Text.encodeComponent s ++ "]")

def deepBelow (path : List String) (params : Entries Key Value) : String :=
  joined "&" ((leaves path params).map fun l => pathKey l.1 ++ "=" ++ Text.encodeComponent l.2)

def deep (params : Entries Key Value) : String := deepBelow [] params

def form (params : Entries Key Value) : String := delimited "," params

def space (params : Entries Key Value) : String := delimited "%20" params

def pipe (params : Entries Key Value) : String := delimited "|" params

def join (fragments : List String) : String :=
  match fragments.filter fun f => !f.isEmpty with
  | [] => ""
  | fs => "?" ++ joined "&" fs

def formKey : Key → String
  | .bytes data => Text.encodeFormBytes data
  | k => Text.encodeForm k.text

/-- A base with further names and values, those of `values` on top of the default ones. -/
def append (base : String) (values defaults : Entries Key Value) : String :=
  match Entries.overlay defaults values with
  | [] => base
  | es =>
    base ++ (if base.toList.contains '?' then "&" else "?") ++
      joined "&" (es.map fun e => formKey e.1 ++ "=" ++ Text.encodeForm e.2.wireText)

def pairOf (field : List Char) : String × String :=
  (Text.decodeForm (String.ofList (field.takeWhile (· != '='))),
    Text.decodeForm (String.ofList ((field.dropWhile (· != '=')).drop 1)))

def pairs (text : String) : List (String × String) :=
  ((Text.pieces (· == '&') (text.toList.dropWhile (· == '?'))).filter fun f => !f.isEmpty).map pairOf

def grouped (ps : List (String × String)) : Entries String (List String) :=
  ps.foldl (fun es p => es.put p.1 ((es.get? p.1).getD [] ++ [p.2])) []

/-- The value of a name, or a list of them if there are several. -/
def gatheredValue : List String → Value
  | [s] => .str s
  | ss => .list (ss.map .str)

def read (text : String) : Value :=
  .dict ((grouped (pairs text)).map fun e => (.str e.1, gatheredValue e.2))

end OpenApi.Query

namespace OpenApi

def Formatter.write : Formatter → Entries Key Value → String
  | form => Query.form
  | explode => Query.explode
  | space => Query.space
  | pipe => Query.pipe
  | deep => Query.deep

end OpenApi
