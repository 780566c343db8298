import OpenApi.Api
import OpenApi.Call
import OpenApi.Session
/-! # Clients

A client has a space for each tag of an interface, and a space has the operations of its tag by
their names. The names of spaces are made from tags; a few are reserved, and a space has every name
once. An operation without a sound signature has no place. An optimistic client gives plain data where
others give outcomes.
-/
namespace OpenApi

structure Space where
  name : String
  operations : Entries String Operation

structure Client where
  api : Api
  /-- Whether calls give results that are waited for. -/
  isAsync : Bool
  spaces : Entries String Space

namespace Space

def add (s : Space) (o : Operation) : Except Fault Space :=
  if s.operations.has o.name then .error (.boundTwice o.name s.name)
  else .ok { s with operations := s.operations ++ [(o.name, o)] }

def find (s : Space) (name : String) : Except Fault Operation :=
  match s.operations.get? name with
  | some o => .ok o
  | none => .error (.unknownOperation s.name name)

def text (s : Space) : String :=
  "<namespace " ++ s.name ++ " (" ++ toString s.operations.length ++ " operations)>"

end Space

def Operation.text (o : Operation) : String :=
  "<operation " ++ o.qualifiedName ++ o.signature.text ++ ">"

namespace Client

def modelsName : String := "Models"

/-- Whether a name is none for a space. -/
def isReserved (name : String) : Bool := name == modelsName || name.toList.head? == some '_'

def addOperation (spaces : Entries String Space) (o : Operation) :
    Except Fault (Entries String Space) := do
  let name := Naming.spaceName o.tag
  let space ← match spaces.get? name with
    | some space => pure space
    | none => if isReserved name then throw (.reservedSpace o.tag name) else pure ⟨name, []⟩
  if !o.signature.isSound then throw .malformed
  return spaces.put name (← space.add o)

def ofApi (api : Api) (isAsync : Bool) : Except Fault Client := do
  return ⟨api, isAsync, ← api.operations.foldlM addOperation []⟩

def typeName (c : Client) : String := if c.isAsync then "AsyncApiClient" else "ApiClient"

def find (c : Client) (name : String) : Except Fault Space :=
  match c.spaces.get? name with
  | some s => .ok s
  | none => .error (.unknownSpace c.typeName name)

def operation (c : Client) (space name : String) : Except Fault Operation := do
  (← c.find space).find name

def text (c : Client) : String :=
  let names := c.spaces.keys.mergeSort fun a b => a ≤ b
  "<" ++ c.typeName ++ " " ++ Text.quoted c.api.title ++ " namespaces=[" ++
    joined ", " (names.map Text.quoted) ++ "]>"

def modelsText (c : Client) : Except WriteError String := do
  let models ← c.api.models.mapM fun m => return m.1 ++ "=" ++ (← m.2.describe)
  return "namespace(" ++ joined ", " models ++ ")"

inductive Returned where
  | outcome (o : Outcome)
  | data (v : Value)

structure Called where
  request : Request
  returned : Except Fault Returned

def finish (c : Client) (o : Outcome) : Except Fault Returned :=
  if c.api.options.optimistic then o.unwrap.map .data else .ok (.outcome o)

def prepare (c : Client) (s : Session) (process : Defaults) (o : Operation) (a : Arguments) :
    Except Fault Prepared :=
  o.prepare c.api.baseUrl (s.defaults process).query a

/-- Calls an operation in a session. That it is called is noted before the request is built. -/
def callIn (c : Client) (s : Session) (process : Defaults) (o : Operation) (a : Arguments)
    (send : Request → Delivery) : (Except Fault Called × Journal) × Session :=
  match c.prepare s process o a with
  | .error f => ((.error f, []), s)
  | .ok p =>
    let calling : Event := .calling o.qualifiedName p.options.method p.url
    match s.exchange process p.url p.options (.str p.accept) send with
    | (.error f, s) => ((.error f, [calling]), s)
    | (.ok e, s) =>
      let returned := do
        c.finish (← (Outcome.ofReply o.expected o.error (← e.reply)).mapError .unwritten)
      ((.ok ⟨e.request, returned⟩, calling :: e.journal), s)

/-- What a call comes to. -/
def call (c : Client) (s : Session) (process : Defaults) (o : Operation) (a : Arguments)
    (send : Request → Delivery) : Except Fault Called × Journal := (c.callIn s process o a send).1

def enter (_ : Client) (s : Session) : Session := s.enter

def exit (_ : Client) (s : Session) : Session := s.exit

end Client

end OpenApi
