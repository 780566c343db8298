import OpenApi.Naming.Operation
import OpenApi.Options
import OpenApi.Parameter.Brackets
import OpenApi.Response
import OpenApi.Url.Template
/-! # Operations

A path item has an operation for each verb that it names. An operation says which parameters and
which body a request carries, and which bodies the responses have. Operations without tags are
refused; two operations of one first tag need different names.
-/
namespace OpenApi

inductive Verb where
  | get | put | post | delete | options | head | patch | trace
  deriving DecidableEq, Repr

namespace Verb

def all : List Verb := [get, put, post, delete, options, head, patch, trace]

def name : Verb → String
  | get => "get"
  | put => "put"
  | post => "post"
  | delete => "delete"
  | options => "options"
  | head => "head"
  | patch => "patch"
  | trace => "trace"

def upperName (v : Verb) : String := Text.upper v.name

/-- The verb of a key of a path item, in any letter case. -/
def ofKey? (key : String) : Option Verb := all.find? fun v => v.name == Text.lower key

end Verb

structure Body where
  encoding : Option Encoding
  contentType : Option String
  required : Bool
  codec : Codec

structure Operation where
  name : String
  tag : String
  tags : List String
  verb : Verb
  path : String
  template : Url.Template
  required : List Parameter
  optional : List Parameter
  body : Option Body
  expected : Codec
  error : Codec
  returnsJson : Bool
  summary : Option String
  description : Option String
  deprecated : Bool

def Operation.parameters (o : Operation) : List Parameter := o.required ++ o.optional

def Body.compile (document request : Value) : Compile (Option Body) := do
  if request.kind = .null then return none
  let es ← ofExcept (do Field.mapping (← Value.resolved document request))
  let content := Value.getD es "content"
  let preferred ← ofExcept (Content.preferred? content)
  let codec ← compileSchema document (← ofExcept (Content.schema content))
  let contentType ← match preferred with
    | some (mediaType, _) => pure (some mediaType)
    | none =>
      if content.isTruthy then ofExcept (Field.optionalText (Content.firstType content))
      else pure none
  return some {
    encoding := preferred.map Prod.snd
    contentType, codec
    required := (Value.getD es "required").isTruthy }

namespace Operation

structure Declared where
  path : Key
  item : Entries Key Value
  /-- The key of the verb as it is written. -/
  key : String
  verb : Verb
  entries : Entries Key Value

namespace Declared

def tags (d : Declared) : Value := Value.getD d.entries "tags"

def firstTag (d : Declared) : Except Fault Value :=
  let first? : Option Value := match d.tags with
    | .list items => items.head?
    | .tuple items => items.head?
    | .str s => s.toList.head?.map fun c => .str (String.singleton c)
    | .dict es => Entries.get? es (.int 0)
    | _ => none
  match first? with
  | some tag => .ok tag
  | none => .error .malformed

def pathText (d : Declared) : Except Fault String :=
  match d.path with
  | .str path => .ok path
  | _ => .error .malformed

/-- The name of the operation, for which the path is asked only if the identifier gives none. -/
def name (d : Declared) : Except Fault String := do
  let id := Value.getD d.entries "operationId"
  let given ←
    if id.isTruthy then
      match id with
      | .str s => pure (Naming.identifierName? s)
      | _ => throw .malformed
    else pure none
  match given with
  | some name => return name
  | none => return Naming.pathName d.key (← d.pathText)

def parameterObjects (document : Value) (d : Declared) : Except Fault (List Value) := do
  let shared ← Value.resolvedMembers document (Value.getD d.item "parameters")
  let own ← Value.resolvedMembers document (Value.getD d.entries "parameters")
  Parameter.mergeBracketed (shared ++ own)

def compile (document : Value) (d : Declared) (name : String) : Compile Operation := do
  let parameters ← Parameter.compileAll document (← ofExcept (d.parameterObjects document))
  let responses ← ofExcept (Field.mapping (Value.getD d.entries "responses"))
  let codecs ← Response.compile document responses
  let path ← ofExcept d.pathText
  let body ← Body.compile document (Value.getD d.entries "requestBody")
  let returnsJson ← ofExcept (Response.offersJson document responses.values)
  let tags ← ofExcept (Field.texts (.list (d.tags.elements?.getD [])))
  let tag ← ofExcept (do Field.text (← d.firstTag))
  let summary ← ofExcept (Field.optionalText (Value.getD d.entries "summary"))
  let description ← ofExcept (Field.optionalText (Value.getD d.entries "description"))
  return {
    name, tag, tags, path, body, returnsJson, summary, description
    verb := d.verb
    template := .ofPath path
    required := Parameter.requiredFirst parameters
    optional := Parameter.optional parameters
    expected := codecs.expected
    error := codecs.error
    deprecated := (Value.getD d.entries "deprecated").isTruthy }

end Declared

/-- The operations compiled so far and the names that each first tag has taken. -/
structure Progress where
  operations : List Operation
  taken : Entries Key (List String)

namespace Progress

def start : Progress := ⟨[], []⟩

def namesOf (p : Progress) (tag : Key) : List String := (p.taken.get? tag).getD []

/-- Adds a declared operation, unless the options skip it. -/
def add (document : Value) (options : Options) (p : Progress) (d : Declared) :
    Compile Progress := do
  if !d.tags.isTruthy then throw (.untagged d.verb.upperName d.path.text)
  let tags ← match d.tags.elements? with
    | some tags => pure tags
    | none => throw .malformed
  if options.skips tags then
    Compile.note (.skipped d.verb.upperName d.path.text d.tags)
    return p
  let name ← ofExcept d.name
  let tag ← ofExcept d.firstTag
  let key ← match tag.key? with
    | some key => pure key
    | none => throw .malformed
  let names := p.namesOf key
  if names.contains name then throw (.operationClash name tag.text)
  let operation ← d.compile document name
  Compile.note (.compiledOperation d.verb.upperName d.path.text tag.text name)
  return ⟨p.operations ++ [operation], p.taken.put key (names ++ [name])⟩

def addEntry (document : Value) (options : Options) (path : Key) (item : Entries Key Value)
    (p : Progress) (entry : Key × Value) : Compile Progress :=
  match entry with
  | (.str key, value) =>
    match Verb.ofKey? key, value with
    | some verb, .dict entries => p.add document options ⟨path, item, key, verb, entries⟩
    | _, _ => return p
  | _ => throw .malformed

/-- Adds the operations of a path. What is no mapping holds none. -/
def addPath (document : Value) (options : Options) (p : Progress) (entry : Key × Value) :
    Compile Progress := do
  match ← ofExcept (Value.resolved document entry.2) with
  | .dict item => item.foldlM (addEntry document options entry.1 item) p
  | _ => return p

end Progress

def compileAll (document : Value) (options : Options) : Compile (List Operation) := do
  let paths ← ofExcept (Field.mapping ((document.get? "paths").getD .null))
  return (← paths.foldlM (Progress.addPath document options) .start).operations

end Operation

end OpenApi
