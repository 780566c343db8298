import OpenApi.Compilation
import OpenApi.Field
import OpenApi.Naming.Argument
/-! # Parameters

The parameters of an operation, each with the place in a request where its values go and, for
those in the query, the way in which they are written there.
-/
namespace OpenApi

inductive Location where
  | path
  | query
  | header
  | cookie
  deriving DecidableEq, Repr

def Location.name : Location → String
  | path => "path"
  | query => "query"
  | header => "header"
  | cookie => "cookie"

def Location.all : List Location := [path, query, header, cookie]

def Location.ofValue? (v : Value) : Option Location :=
  all.find? fun l => v.str? == some l.name

inductive Formatter where
  | form
  | explode
  | space
  | pipe
  | deep
  deriving DecidableEq, Repr

def Formatter.name : Formatter → String
  | form => "form"
  | explode => "explode"
  | space => "space"
  | pipe => "pipe"
  | deep => "deep"

/-- The formatters that a style asks for by itself. -/
def Formatter.ofStyle? (style : String) : Option Formatter :=
  match style with
  | "spaceDelimited" => some space
  | "pipeDelimited" => some pipe
  | "deepObject" => some deep
  | _ => none

structure Parameter where
  name : String
  argument : String
  location : Location
  required : Bool
  style : Option String
  explode : Bool
  formatter : Formatter
  description : Option String
  codec : Codec

namespace Parameter

def entry (es : Entries Key Value) (name : String) (missing : Value) : Value :=
  (es.get? (.str name)).getD missing

def nameOf (es : Entries Key Value) : Except Fault String :=
  match entry es "name" (.str "") with
  | .str name => .ok name
  | _ => .error .malformed

/-- The formatter of a parameter object: that of its style, or else by whether it is exploded. -/
def formatterOf (es : Entries Key Value) : Except Fault Formatter :=
  let style := entry es "style" (.str "")
  match style.key? with
  | none => .error .malformed
  | some _ =>
    match style.str?.bind Formatter.ofStyle? with
    | some f => .ok f
    | none => .ok (if (Value.getD es "explode").isTruthy then .explode else .form)

/-- A parameter object. Objects with an unknown location stand for no parameter. -/
def compile (document : Value) (arguments : Entries String String) (es : Entries Key Value) :
    Compile (Option Parameter) :=
  match Location.ofValue? (entry es "in" (.str "query")) with
  | none => return none
  | some location => do
    let name ← ofExcept (nameOf es)
    let formatter ← ofExcept (formatterOf es)
    let codec ← compileSchema document (Value.getD es "schema")
    let style ← ofExcept (Field.optionalText (Value.getD es "style"))
    let description ← ofExcept (Field.optionalText (Value.getD es "description"))
    return some {
      name, location, formatter, codec, style, description
      argument := (arguments.get? name).getD ""
      required := (Value.getD es "required").isTruthy || location = .path
      explode := (Value.getD es "explode").isTruthy }

def compileAll (document : Value) (objects : List Value) : Compile (List Parameter) := do
  let objects ← ofExcept (objects.mapM fun v =>
    match v with
    | .dict es => Except.ok es
    | _ => .error Fault.malformed)
  let arguments := Naming.argumentNames (← ofExcept (objects.mapM nameOf))
  return (← objects.mapM (compile document arguments)).filterMap id

/-- The required parameters, those with shorter names first. -/
def requiredFirst (ps : List Parameter) : List Parameter :=
  (ps.filter fun p => p.required).mergeSort fun p q => p.name.length ≤ q.name.length

def optional (ps : List Parameter) : List Parameter := ps.filter fun p => !p.required

end Parameter

end OpenApi
