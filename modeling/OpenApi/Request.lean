import OpenApi.Content
import OpenApi.Defaults
import OpenApi.Json.Writer
import OpenApi.Query
import OpenApi.Text.LetterCase
import OpenApi.Url.Join
/-! # Requests

A request is built from a URL, the settings of the call and the defaults. Names of headers are
the same in any letter case, and the last one given counts: those of the call come after the
default ones, and these after the accepted type. A header that is null is not sent.
-/
namespace OpenApi

structure CallOptions where
  method : String
  headers : Entries String Value
  body : Value
  /-- The parts of a multipart body, which is sent in place of `body`. -/
  parts : Option (Entries Key Value)
  baseUrl : Option String
  timeout : Value

abbrev Headers := Entries String Value

inductive Part where
  | text (name : Key) (content : String)
  | file (name : Key) (filename : Value) (content : List UInt8) (mediaType : String)

inductive Payload where
  | empty
  | content (body : Value)
  | multipart (parts : List Part)

structure Request where
  method : String
  url : String
  headers : Headers
  timeout : Value
  payload : Payload

namespace CallOptions

def default : CallOptions := ⟨"GET", [], .null, none, none, .null⟩

instance : Inhabited CallOptions := ⟨default⟩

def fieldNames : List String := ["method", "headers", "body", "multipart", "base_url", "timeout"]

def headersOf (v : Value) : Except Fault Headers :=
  match v with
  | .dict es => es.mapM fun e =>
    match e.1 with
    | .str name => .ok (name, e.2)
    | _ => .error .malformed
  | _ => .error .malformed

def partsOf (v : Value) : Except Fault (Option (Entries Key Value)) :=
  match v with
  | .null => .ok none
  | .dict es => .ok (some es)
  | _ => .error .malformed

def optionalUrl (v : Value) : Except Fault (Option String) :=
  match v with
  | .null => .ok none
  | .str s => .ok (some s)
  | _ => .error .malformed

/-- The settings that a mapping gives; there are no others than these. -/
def ofFields (fields : Entries Key Value) : Except Fault CallOptions := do
  if !fields.all fun e => e.1.toValue.str?.any fieldNames.contains then throw .malformed
  let method ← match fields.get? (.str "method") with
    | none => pure default.method
    | some (.str s) => pure s
    | some _ => throw .malformed
  let headers ← match fields.get? (.str "headers") with
    | none => pure []
    | some v => headersOf v
  let parts ← partsOf (Value.getD fields "multipart")
  let baseUrl ← optionalUrl (Value.getD fields "base_url")
  return ⟨method, headers, Value.getD fields "body", parts, baseUrl, Value.getD fields "timeout"⟩

def withHeader (o : CallOptions) (name value : String) : CallOptions :=
  { o with headers := o.headers.put name (.str value) }

def jsonBody (o : CallOptions) (body : Value) : Except Fault CallOptions :=
  let sent := { o.withHeader "Content-Type" Content.jsonType with body := .null }
  if body.kind = .null then .ok sent
  else match Json.writeWire body with
    | .ok text => .ok { sent with body := .str text }
    | .error e => .error (.unwritten e)

def formBody (o : CallOptions) (body : Value) : Except Fault CallOptions := do
  let fields ← Field.mapping body
  return { o.withHeader "Content-Type" Content.formType with body := .str (Query.form fields) }

def entryOf (v : Value) : Except Fault (Key × Value) :=
  match v.elements? with
  | some [k, w] =>
    match k.key? with
    | some key => .ok (key, w)
    | none => .error .malformed
  | _ => .error .malformed

def entriesOf (body : Value) : Except Fault (Entries Key Value) :=
  match body with
  | .dict es => .ok es
  | v =>
    if v.isTruthy then
      match v.elements? with
      | some pairs => return Entries.ofList (← pairs.mapM entryOf)
      | none => .error .malformed
    else .ok []

def multipartBody (o : CallOptions) (body : Value) : Except Fault CallOptions := do
  return { o with body := .null, parts := some (← entriesOf body) }

end CallOptions

namespace Request

def inferType (body : Value) : String :=
  match body with
  | .blob b => (b.contentType.filter fun s => !s.isEmpty).getD Content.binaryType
  | .bytes _ | .buffer _ => Content.binaryType
  | .str _ => Content.textType
  | _ => Content.jsonType

def sameName (a b : String) : Bool := Text.lower a == Text.lower b

def hasHeader (headers : Headers) (name : String) : Bool := headers.any fun h => sameName h.1 name

def setHeader (headers : Headers) (h : String × Value) : Headers :=
  headers.filter (fun g => !sameName g.1 h.1) ++ [h]

def mergeHeaders (accept : Value) (sources : List Headers) : Headers :=
  (sources.flatten.foldl setHeader [("Accept", accept)]).filter fun h => h.2.kind ≠ .null

/-- The headers of a request. A token and the type of the body are added if nothing else is said
of them. -/
def headersFor (o : CallOptions) (d : Defaults) (accept : Value) : Headers :=
  let merged := mergeHeaders accept [Entries.mapValues .str d.headers, o.headers]
  let token := match d.token.filter fun t => !t.isEmpty with
    | some t => if hasHeader merged "authorization" then [] else
      [("Authorization", .str ("Bearer " ++ t))]
    | none => []
  let type :=
    if o.parts.isNone && o.body.kind ≠ .null && !hasHeader merged "content-type" then
      [("Content-Type", .str (inferType o.body))]
    else []
  merged ++ token ++ type

/-- A body as it is sent: bytes and texts as they are, and all else in JSON. -/
def contentOf (body : Value) : Except Fault Value :=
  match body with
  | .blob b => .ok (.bytes b.data)
  | .bytes data => .ok (.bytes data)
  | .buffer data => .ok (.bytes data)
  | .str s => .ok (.str s)
  | v =>
    match Json.writeWire v with
    | .ok text => .ok (.str text)
    | .error e => .error (.unwritten e)

/-- A part of a multipart body; null stands for none. -/
def partOf (name : Key) (v : Value) : Except Fault (Option Part) :=
  match v with
  | .null => .ok none
  | .blob b =>
    let filename := match b.filename.filter fun s => !s.isEmpty with
      | some s => .str s
      | none => name.toValue
    .ok (some (.file name filename b.data (inferType (.blob b))))
  | .bytes data => .ok (some (.file name name.toValue data Content.binaryType))
  | .buffer data => .ok (some (.file name name.toValue data Content.binaryType))
  | .dict _ | .list _ =>
    match Json.writeWire v with
    | .ok text => .ok (some (.text name text))
    | .error e => .error (.unwritten e)
  | v => .ok (some (.text name v.wireText))

def partsOf (parts : Entries Key Value) : Except Fault (List Part) := do
  return (← parts.mapM fun e => partOf e.1 e.2).filterMap id

def payloadOf (o : CallOptions) : Except Fault Payload := do
  match o.parts with
  | some parts => return .multipart (← partsOf parts)
  | none => if o.body.kind = .null then return .empty else return .content (← contentOf o.body)

/-- The request for a URL, which has to be absolute once it is joined with its base. -/
def build (url : String) (o : CallOptions) (d : Defaults) (accept : Value) :
    Except Fault Request := do
  let full := Url.join (o.baseUrl <|> some d.baseUrl) url
  if !Url.isReadable full then throw .malformed
  if !Url.isAbsolute full then throw (.relativeUrl full)
  let timeout := if o.timeout.kind = .null then .float d.timeout else o.timeout
  return ⟨Text.upper o.method, full, headersFor o d accept, timeout, ← payloadOf o⟩

end Request

end OpenApi
