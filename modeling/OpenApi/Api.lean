import OpenApi.Operation
import OpenApi.Document
/-! # Interfaces

A document compiles to its operations and its models, or to the first fault that is met. -/
namespace OpenApi

structure Api where
  title : String
  version : String
  options : Options
  operations : List Operation
  models : Entries String Codec
  /-- The base of all URLs that was fixed when the document was compiled. -/
  baseUrl : Option String

namespace Api

def baseUrlOf (defaults : Value) : Except Fault Value :=
  match defaults with
  | .null => .ok .null
  | .dict es =>
    match Entries.get? es (.str "base_url") with
    | some url => .ok url
    | none => .error .defaultsShape
  | _ => .error .defaultsShape

def titleOf (document : Entries Key Value) : Except Fault Value := do
  let info ← Field.mapping (Value.getD document "info")
  return (Value.getD info "title").orElse (.str "API")

def compile (document : Entries Key Value) (options : Options) (defaults : Value) :
    Compile Api := do
  let version ← ofExcept (documentVersion document)
  let baseUrl ← ofExcept (baseUrlOf defaults)
  let operations ← Operation.compileAll (.dict document) options
  let models := (← Compile.catalogue).models
  Compile.note (.finished operations.length models.length)
  let title ← ofExcept (do Field.text (← titleOf document))
  let baseUrl ← ofExcept (Field.optionalText baseUrl)
  return ⟨title, version, options, operations, models, baseUrl⟩

def addByTag (groups : Entries String (List Operation)) (o : Operation) :
    Entries String (List Operation) :=
  groups.put o.tag ((groups.get? o.tag).getD [] ++ [o])

/-- The operations by their first tags, which are in alphabetical order. -/
def operationsByTag (api : Api) : Entries String (List Operation) :=
  (api.operations.foldl addByTag []).mergeSort fun a b => a.1 ≤ b.1

end Api

end OpenApi
