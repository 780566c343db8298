import OpenApi.Codec
import OpenApi.Fault
/-! # Schemas

A schema as its keywords are understood. Of the keywords that a schema node carries the first
counts in the order: a reference, alternatives (`oneOf`, then `anyOf`), `allOf`, `items`,
properties, `enum`, a binary format, a type. A node that is not a mapping says nothing.
-/
namespace OpenApi

inductive Schema where
  /-- Nothing is asked of the value. -/
  | any
  /-- A keyword does not have the form that it must have. -/
  | malformed
  | ref (pointer : String)
  | nullable (schema : Schema)
  /-- A property that is not required. -/
  | optional (schema : Schema)
  | union (members : List Schema)
  | intersection (members : List Schema)
  | array (item : Schema)
  | object (fields : List (Key × Schema)) (additional : Option Schema)
  | enumeration (literals : List Value)
  | string
  | number
  | boolean
  | null
  | date

namespace Schema

/-- A value of a schema node as the keywords before it may need it: as it stands, as a schema, as
the schemas that are its members, and as named schemas. -/
structure Facet where
  value : Value
  schema : Schema
  members : List Schema
  fields : List (Key × Schema)

abbrev Node := Entries Key Facet

namespace Node

def value (node : Node) (keyword : String) : Value :=
  ((node.get? (.str keyword)).map Facet.value).getD .null

def given? (node : Node) (keyword : String) : Option Facet :=
  (node.get? (.str keyword)).filter fun f => f.value.kind ≠ .null

end Node

def alternatives (f : Facet) : Schema :=
  if f.value.elements?.isSome then .union f.members else .malformed

/-- The members of `allOf`. A mapping has none in any order. -/
def conjuncts (f : Facet) : Schema :=
  if f.value.isTruthy then
    match f.value.kind with
    | .list | .tuple | .str | .bytes | .buffer => .intersection f.members
    | _ => .malformed
  else .intersection []

/-- The codecs of undeclared properties; `false` stands for no such properties. -/
def additionalOf (node : Node) : Option Schema :=
  match node.given? "additionalProperties" with
  | none => none
  | some f =>
    match f.value with
    | .bool false => none
    | _ => some f.schema

def requiredKeys? (v : Value) : Option (List Key) :=
  if v.isTruthy then do (← v.elements?).mapM Value.key? else some []

def objectOf (node : Node) (additional : Option Schema) : Schema :=
  match requiredKeys? (node.value "required") with
  | none => .malformed
  | some required =>
    let mark := fun (f : Key × Schema) =>
      if required.contains f.1 then f else (f.1, optional f.2)
    match node.get? "properties" with
    | none => object [] additional
    | some f =>
      if f.value.isTruthy then
        if f.value.kind = .dict then object (f.fields.map mark) additional else .malformed
      else object [] additional

def isName (v : Value) (name : String) : Bool := v.str? == some name

def typed (type format : Value) : Schema :=
  if isName format "binary" then .string
  else if isName type "integer" || isName type "number" then .number
  else if isName type "string" then if isName format "date-time" then .date else .string
  else if isName type "null" then .null
  else if isName type "boolean" then .boolean
  else .any

def rule (node : Node) : Schema :=
  match node.get? "$ref" with
  | some f =>
    match f.value with
    | .str pointer => .ref pointer
    | _ => .malformed
  | none =>
  match node.given? "oneOf" with
  | some f => alternatives f
  | none =>
  match node.given? "anyOf" with
  | some f => alternatives f
  | none =>
  match node.given? "allOf" with
  | some f => conjuncts f
  | none =>
  match node.get? "items" with
  | some f => .array f.schema
  | none =>
  if (node.given? "properties").isSome || (additionalOf node).isSome then
    objectOf node (additionalOf node)
  else
  match node.given? "enum" with
  | some f =>
    match f.value.elements? with
    | some literals => .enumeration literals
    | none => .malformed
  | none => typed (node.value "type") (node.value "format")

/-- The schema of a node: its rule, which also admits nothing if the node says so. -/
def ofNode (node : Node) : Schema :=
  if (node.value "nullable").isTruthy then .nullable (rule node) else rule node

def facet : Value → Facet
  | .dict es =>
    let node := facets es
    ⟨.dict es, ofNode node, es.map fun _ => .any, node.map fun e => (e.1, e.2.schema)⟩
  | .list items => ⟨.list items, .any, schemas items, []⟩
  | .tuple items => ⟨.tuple items, .any, schemas items, []⟩
  | .str s => ⟨.str s, .any, s.toList.map fun _ => .any, []⟩
  | v => ⟨v, .any, (v.elements?.getD []).map fun _ => .any, []⟩
where
  facets : List (Key × Value) → List (Key × Facet)
    | [] => []
    | (k, v) :: rest => (k, facet v) :: facets rest
  schemas : List Value → List Schema
    | [] => []
    | v :: rest => (facet v).schema :: schemas rest

def ofValue (v : Value) : Schema := (facet v).schema

/-- The literals without null, of which one stands for itself. -/
def enumerationCodec (literals : List Value) : Except Fault Codec :=
  let given := literals.filter fun v => v.kind ≠ .null
  let hasNull := given.length != literals.length
  match given.map Codec.exactly with
  | [] => if hasNull then .ok .null else .error .emptyEnumeration
  | [c] => .ok (if hasNull then .maybe c else c)
  | cs => .ok (if hasNull then .maybe (.oneOf cs) else .oneOf cs)

def objectCodec (fields : List (Key × Codec)) (additional : Option Codec) : Codec :=
  match additional with
  | none => .interface fields
  | some item =>
    if fields.isEmpty then .record item else .intersect (.interface fields) (.record item)

def intersectionCodec : List Codec → Except Fault Codec
  | [] => .error .emptyIntersection
  | c :: rest => .ok (rest.foldl .intersect c)

section Compile

variable {m : Type → Type} [Monad m] [MonadExceptOf Fault m]

/-- The codec of a schema. What a reference stands for is up to the caller. -/
def compile (model : String → m Codec) : Schema → m Codec
  | any => return .unknown
  | malformed => throw Fault.malformed
  | ref pointer => model pointer
  | nullable s => return .maybe (← compile model s)
  | optional s => return .optional (← compile model s)
  | union members => return .oneOf (← compileAll members)
  | intersection members => do ofExcept (intersectionCodec (← compileAll members))
  | array item => return .array (← compile model item)
  | object fields additional => do
    let cs ← compileFields fields
    match additional with
    | none => return objectCodec cs none
    | some s => return objectCodec cs (some (← compile model s))
  | enumeration literals => ofExcept (enumerationCodec literals)
  | string => return .string
  | number => return .number
  | boolean => return .boolean
  | null => return .null
  | date => return .date
where
  compileAll : List Schema → m (List Codec)
    | [] => return []
    | s :: rest => do
      let c ← compile model s
      return c :: (← compileAll rest)
  compileFields : List (Key × Schema) → m (List (Key × Codec))
    | [] => return []
    | (k, s) :: rest => do
      let c ← compile model s
      return (k, c) :: (← compileFields rest)

end Compile

end Schema

end OpenApi
