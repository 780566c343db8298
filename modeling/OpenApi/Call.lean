import OpenApi.Naming.Argument
import OpenApi.Operation
import OpenApi.Request
import OpenApi.Signature
/-! # Calls

A call gives values to the arguments of an operation: one for each parameter, one for the body if
there is one, one for further query values and one for settings. The values of the parameters are
put where the parameters belong, and null values nowhere.
-/
namespace OpenApi

/-- The arguments of a call by position and by name. Settings that are given as such take the place
of an argument. -/
structure Arguments where
  positional : List Value
  named : Entries String Value
  settings : Option CallOptions

structure Prepared where
  url : String
  options : CallOptions
  accept : String

namespace Operation

/-- The parameters by the names of their arguments. Of two parameters with one argument the latter
counts, in the place of the former. -/
def arguments (o : Operation) : Entries String Parameter :=
  Entries.ofList (o.parameters.map fun p => (Naming.signatureName p.argument, p))

def parameterSlots (o : Operation) (required : Bool) : List Slot :=
  (o.arguments.filter fun a => a.2.required == required).map fun a => ⟨a.1, required, required⟩

def bodySlots (o : Operation) : List Slot :=
  match o.body with
  | some body => [⟨"body", true, body.required⟩]
  | none => []

/-- Required parameters come first, then the body, the other parameters, query values and
settings. -/
def signature (o : Operation) : Signature :=
  o.parameterSlots true ++ o.bodySlots ++ o.parameterSlots false ++
    [⟨"query", false, false⟩, ⟨"opts", false, false⟩]

def qualifiedName (o : Operation) : String := Naming.spaceName o.tag ++ "." ++ o.name

def help (o : Operation) : String :=
  let said := (o.summary.filter fun s => !s.isEmpty).toList
  let more := (o.description.filter fun s => !s.isEmpty && o.summary != some s).toList
  joined "\n\n" ([o.verb.upperName ++ " " ++ o.path] ++ said ++ more ++
    (if o.deprecated then ["Deprecated."] else []))

/-- The argument that no call can give by name. -/
def receiverName : String := "self"

def bind (o : Operation) (a : Arguments) : Except Fault (Entries String Value) :=
  if a.named.has receiverName then .error .malformed
  else
    let named := if a.settings.isSome then a.named.erase "opts" else a.named
    (o.signature.bind a.positional named).mapError (.badArguments o.qualifiedName)

def valuesAt (o : Operation) (bound : Entries String Value) (location : Location) :
    List (Parameter × Value) :=
  o.arguments.filterMap fun a =>
    let v := (bound.get? a.1).getD .null
    if a.2.location = location ∧ v.kind ≠ .null then some (a.2, v) else none

def url (o : Operation) (bound : Entries String Value) : String :=
  o.template.render (Entries.ofList ((o.valuesAt bound .path).map fun p => (p.1.name, p.2))) ++
    Query.join ((o.valuesAt bound .query).map fun p =>
      p.1.formatter.write [(.str p.1.name, p.2)])

def cookieHeader (o : Operation) (bound : Entries String Value) : Headers :=
  match (o.valuesAt bound .cookie).map fun p => p.1.name ++ "=" ++ p.2.wireText with
  | [] => []
  | cookies => [("Cookie", .str (joined "; " cookies))]

def headers (o : Operation) (bound : Entries String Value) : Headers :=
  Entries.ofList ((o.valuesAt bound .header).map (fun p => (p.1.name, .str p.2.wireText)) ++
    o.cookieHeader bound)

/-- The settings that were given, or the default ones for an argument that counts as none. -/
def settingsOf (a : Arguments) (bound : Entries String Value) : Except Fault CallOptions :=
  match a.settings with
  | some options => .ok options
  | none => if ((bound.get? "opts").getD .null).isTruthy then .error .malformed else .ok .default

end Operation

/-- Encodes a value as a body of a request. The type of a body without an encoding is given only
if the settings do not give one. -/
def Body.encode (b : Body) (v : Value) (options : CallOptions) : Except Fault CallOptions :=
  match b.encoding with
  | some .json => options.jsonBody v
  | some .form => options.formBody v
  | some .multipart => options.multipartBody v
  | none =>
    let typed := match b.contentType.filter fun s => !s.isEmpty with
      | some type =>
        if options.headers.has "Content-Type" then options
        else options.withHeader "Content-Type" type
      | none => options
    .ok { typed with body := v }

namespace Operation

/-- The settings of a call with its headers and its body. -/
def optionsFor (o : Operation) (base : Option String) (bound : Entries String Value)
    (given : CallOptions) : Except Fault CallOptions :=
  let options := { given with
    method := o.verb.upperName
    headers := Entries.overlay (o.headers bound) given.headers
    baseUrl := given.baseUrl <|> base }
  let body := (bound.get? "body").getD .null
  match o.body with
  | some b => if body.kind = .null then .ok options else b.encode body options
  | none => .ok options

def prepare (o : Operation) (base : Option String) (query : Entries String Value)
    (a : Arguments) : Except Fault Prepared := do
  let bound ← o.bind a
  let values ← Field.mapping ((bound.get? "query").getD .null)
  let given ← settingsOf a bound
  return {
    url := Query.append (o.url bound) values (query.map fun e => (.str e.1, e.2))
    options := ← o.optionsFor base bound given
    accept := if o.returnsJson then Content.jsonType else Content.anyType }

end Operation

end OpenApi
