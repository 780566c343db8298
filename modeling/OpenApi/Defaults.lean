import OpenApi.Field
/-! # Request defaults

What every request uses unless the call says otherwise. The built-in values can be overridden
field by field, and environment variables can be laid over them. A failed change changes nothing.
-/
namespace OpenApi

structure Defaults where
  baseUrl : String
  headers : Entries String String
  token : Option String
  timeout : Float
  /-- What is put into every query string, below the values of the call. -/
  query : Entries String Value

abbrev Environment := Entries String String

namespace Defaults

def builtIn : Defaults where
  baseUrl := "/"
  headers := []
  token := none
  timeout := 30
  query := [("extended", .bool true), ("no_role_name", .bool true),
    ("no_course_in_assignment", .bool true)]

instance : Inhabited Defaults := ⟨builtIn⟩

def pick {α : Type} (fields : Entries Key Value) (name : String) (read : Value → Except Fault α)
    (kept : α) : Except Fault α :=
  match fields.get? (.str name) with
  | some v => read v
  | none => .ok kept

/-- The defaults with the given fields in place of their own. Other fields are ignored. -/
def withFields (d : Defaults) (fields : Entries Key Value) : Except Fault Defaults := do
  return {
    baseUrl := ← pick fields "base_url" Field.text d.baseUrl
    headers := ← pick fields "headers" Field.namedTexts d.headers
    token := ← pick fields "token" Field.optionalText d.token
    timeout := ← pick fields "timeout" Field.number d.timeout
    query := ← pick fields "default_query" Field.namedValues d.query }

def ofFields (fields : Entries Key Value) : Except Fault Defaults := builtIn.withFields fields

/-- Overrides of fields, any of which may be of the wrong type. -/
def override (d : Defaults) (fields : Entries Key Value) : Except Fault Defaults :=
  match d.withFields fields with
  | .ok d => .ok d
  | .error _ => .error .invalidDefaults

def setBaseUrl (d : Defaults) (url : Value) : Except Fault Defaults :=
  d.override [("base_url", url)]

def setToken (d : Defaults) (token : Value) : Except Fault Defaults :=
  d.override [("token", token)]

def given? (env : Environment) (name : String) : Option String :=
  (env.get? name).filter fun s => !s.isEmpty

def timeoutOf (env : Environment) : Except Fault (Option Float) :=
  match given? env "CODECAPI_TIMEOUT" with
  | none => .ok none
  | some text =>
    match Decimal.readFloat? text with
    | some x => .ok (some x)
    | none => .error (.badTimeout text)

def overlay (d : Defaults) (env : Environment) : Except Fault Defaults := do
  let timeout ← timeoutOf env
  return { d with
    baseUrl := (given? env "CODECAPI_BASE_URL").getD d.baseUrl
    token := given? env "CODECAPI_TOKEN" <|> d.token
    timeout := timeout.getD d.timeout }

end Defaults

end OpenApi
