import OpenApi.Parameter
/-! # Bracketed parameters

Parameters that are named like `filter[name]` are the properties of one object. All with the same
text before the bracket become one parameter, at the place of the first, whose schema has a
property for each of them.
-/
namespace OpenApi.Parameter

/-- The text up to a closing bracket on the same line. -/
def bracketed : List Char → Option (List Char)
  | [] => none
  | c :: rest =>
    if c == ']' then some []
    else if c == '\n' then none
    else (bracketed rest).map (c :: ·)

/-- The object and the property that a name means, if what has been read so far ends in one or
more characters and the rest goes on to a bracket. -/
def propertyBehind : List Char → Option (List Char × List Char)
  | [] => none
  | c :: rest =>
    if c == '[' then (bracketed rest).map fun property => ([], property)
    else if c == '\n' then none
    else (propertyBehind rest).map fun (object, property) => (c :: object, property)

def property? (name : String) : Option (String × String) :=
  match name.toList with
  | [] => none
  | c :: rest =>
    if c == '\n' then none
    else (propertyBehind rest).map fun (object, property) =>
      (String.ofList (c :: object), String.ofList property)

inductive Declared where
  | plain (object : Value)
  | gathered (name : String) (location : Value) (properties : Entries Key Value)

namespace Declared

def toValue : Declared → Value
  | plain object => object
  | gathered name location properties =>
    Value.object [("name", .str name), ("in", location), ("style", .str "deepObject"),
      ("schema", Value.object [("type", .str "object"), ("properties", .dict properties)])]

def gathers (name : String) : Declared → Bool
  | plain _ => false
  | gathered n _ _ => n == name

def gather (property : String) (schema : Value) : Declared → Declared
  | plain object => plain object
  | gathered name location properties =>
    gathered name location (properties.put (.str property) schema)

def add (done : List Declared) (v : Value) : Except Fault (List Declared) :=
  match v with
  | .dict es => do
    match property? (← nameOf es) with
    | none => return done ++ [plain v]
    | some (name, property) =>
      let schema := Value.getD es "schema"
      if done.any (gathers name) then
        return done.map fun d => if d.gathers name then d.gather property schema else d
      else
        let location := entry es "in" (.str "query")
        return done ++ [gathered name location [(.str property, schema)]]
  | _ => .error .malformed

end Declared

def mergeBracketed (objects : List Value) : Except Fault (List Value) := do
  return (← objects.foldlM Declared.add []).map Declared.toValue

end OpenApi.Parameter
