import OpenApi.Json.Writer
/-! # Codecs

A codec says which values are accepted. It is what a schema compiles to: the leaves accept the
values of one sort, the others are built from the codecs of parts.
-/
namespace OpenApi

inductive Codec where
  | unknown
  | string
  | number
  | boolean
  | null
  /-- Points in time, given as such or as ISO text. -/
  | date
  /-- One literal. -/
  | exactly (literal : Value)
  | array (item : Codec)
  /-- A field that may be missing. -/
  | optional (inner : Codec)
  | maybe (inner : Codec)
  /-- An object with declared fields, in order. -/
  | interface (fields : List (Key × Codec))
  /-- An object that is a map from strings to values of one codec. -/
  | record (item : Codec)
  | oneOf (members : List Codec)
  | intersect (left right : Codec)
  /-- A named model; without a target it is not defined yet. -/
  | model (name ref : String) (target : Option Codec)

instance : Inhabited Codec := ⟨.unknown⟩

namespace Codec

/-- The notation of a codec. Codecs of one notation count as equal. A codec with a literal that JSON has
no form for has none. -/
def describe : Codec → Except WriteError String
  | unknown => .ok "unknown"
  | string => .ok "string"
  | number => .ok "number"
  | boolean => .ok "boolean"
  | null => .ok "nullType"
  | date => .ok "date"
  | exactly v => return "exactly(" ++ (← Json.write v) ++ ")"
  | array item => return "array(" ++ (← describe item) ++ ")"
  | optional inner => return "optional(" ++ (← describe inner) ++ ")"
  | maybe inner => return "maybe(" ++ (← describe inner) ++ ")"
  | interface fields => return "interface(\x7b" ++ joined ", " (← describeFields fields) ++ "\x7d)"
  | record item => return "record(string, " ++ (← describe item) ++ ")"
  | oneOf members => return "oneOf([" ++ joined ", " (← describeAll members) ++ "])"
  | intersect left right =>
    return "intersect(" ++ (← describe left) ++ ", " ++ (← describe right) ++ ")"
  | model name _ _ => .ok ("Models." ++ name)
where
  describeAll : List Codec → Except WriteError (List String)
    | [] => .ok []
    | c :: rest => return (← describe c) :: (← describeAll rest)
  describeFields : List (Key × Codec) → Except WriteError (List String)
    | [] => .ok []
    | (k, c) :: rest => do
      let name ← k.writeText
      let field ← (match c with
        | optional inner => (describe inner).map (name ++ "?: " ++ ·)
        | c => (describe c).map (name ++ ": " ++ ·))
      return field :: (← describeFields rest)

def isRequired : Codec → Bool
  | optional _ => false
  | _ => true

def requiredNames (fields : List (Key × Codec)) : List Value :=
  (fields.filter fun f => f.2.isRequired).map fun f => f.1.toValue

/-- The list of required names is left out if it is empty. -/
def requiredEntry (names : List Value) : Entries Key Value :=
  if names.isEmpty then [] else [("required", .list names)]

def schema : Codec → Entries Key Value
  | unknown => []
  | string => [("type", .str "string")]
  | number => [("type", .str "number")]
  | boolean => [("type", .str "boolean")]
  | null => [("type", .str "null")]
  | date => [("type", .str "string"), ("format", .str "date-time")]
  | exactly v => [("enum", .list [v])]
  | array item => [("type", .str "array"), ("items", .dict (schema item))]
  | optional inner => schema inner
  | maybe inner => Entries.put (schema inner) "nullable" (.bool true)
  | interface fields =>
    ("type", .str "object") :: ("properties", .dict (fieldSchemas fields)) ::
      requiredEntry (requiredNames fields)
  | record item =>
    [("type", .str "object"),
      ("additionalProperties", match item with
        | unknown => .bool true
        | item => .dict (schema item))]
  | oneOf members => [("oneOf", .list (schemas members))]
  | intersect left right => [("allOf", .list [.dict (schema left), .dict (schema right)])]
  | model _ ref _ => [("$ref", .str ref)]
where
  schemas : List Codec → List Value
    | [] => []
    | c :: rest => .dict (schema c) :: schemas rest
  fieldSchemas : List (Key × Codec) → List (Key × Value)
    | [] => []
    | (k, c) :: rest => (k, .dict (schema c)) :: fieldSchemas rest

def schemaValue (c : Codec) : Value := .dict c.schema

end Codec

end OpenApi
