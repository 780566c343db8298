import OpenApi.Api
import OpenApi.Call
import OpenApi.CommandLine
import OpenApi.ProjectFile
import OpenApi.Source
/-! # Inspections

An inspection compiles the document of a source with the options of the project and reports what it
compiles to: its operations by their spaces, its models or the schema of one model.
-/
namespace OpenApi

def programVersion : String := "codecapi 0.1.0"

namespace Inspection

def options (i : Inspection) (project : Options) : Options :=
  { project with
    wanted := if i.wanted.isEmpty then project.wanted else some i.wanted
    unwanted := if i.unwanted.isEmpty then project.unwanted else i.unwanted }

def tagsLiteral (tags : List String) : String := (Value.list (tags.map .str)).literal

def announcement (source : String) (o : Options) : String :=
  "Compiling " ++ source ++ " (include=" ++ (o.wanted.map tagsLiteral).getD Value.null.literal ++
    ", exclude=" ++ tagsLiteral o.unwanted ++ ")"

/-- The arguments of an operation, those that are not required in braces. -/
def argumentsText (o : Operation) : String :=
  let optional := o.optional.map Parameter.argument
  joined ", " (o.required.map Parameter.argument ++ (if o.body.isSome then ["body"] else []) ++
    (if optional.isEmpty then [] else ["\x7b" ++ joined ", " optional ++ "\x7d"]))

def operationHeaders : List String := ["Operation", "Method", "Path", "Arguments", "Returns"]

def operationRow (o : Operation) : Except WriteError (List String) :=
  return [o.qualifiedName, o.verb.upperName, o.path, argumentsText o, ← o.expected.describe]

def operationRows (api : Api) : Except WriteError (List (List String)) :=
  (api.operationsByTag.flatMap Prod.snd).mapM operationRow

def modelHeaders : List String := ["Model", "Type"]

def modelRows (api : Api) : Except WriteError (List (List String)) :=
  api.models.mapM fun m => return [m.1, ← m.2.describe]

def tableReport (r : Reporter) (headers : List String)
    (rows : Except WriteError (List (List String))) (none : String) : Report :=
  match rows with
  | .error e => r.failure (.unwritten e)
  | .ok [] => ⟨"", r.message .info none, 0⟩
  | .ok rows => r.data (r.table headers rows)

def report (i : Inspection) (r : Reporter) (api : Api) : Report :=
  match i.topic with
  | .operations => tableReport r operationHeaders (operationRows api) "No operations matched."
  | .models => tableReport r modelHeaders (modelRows api) "No models defined."
  | .schema name =>
    match api.models.get? name with
    | some codec => r.data (r.value codec.schemaValue)
    | none => ⟨"", r.message .error ("Unknown model: " ++ name), 2⟩

def compile (i : Inspection) (s : Surroundings) (o : Options) : Except Fault Api × Journal :=
  let (document, loading) := loadDocument s i.source
  let work : Compile Api := do Api.compile (← ofExcept document) o .null
  let (api, state) := work.run .start
  (api, loading ++ state.journal)

/-- Carries out an inspection. The journal is shown among the messages of a verbose program. -/
def run (i : Inspection) (r : Reporter) (s : Surroundings) : Report :=
  match ProjectFile.options s with
  | .error f => r.failure f
  | .ok project =>
    let o := i.options project
    let (api, journal) := i.compile s o
    let noted := if r.verbose then lines (journal.map Event.line) else ""
    let ended := match api with
      | .error f => r.failure f
      | .ok api => i.report r api
    ended.after (r.message .detail (announcement i.source o) ++ noted)

end Inspection

def usage : String :=
  "Usage: codecapi [--version] [--json] [--plain] [--no-color] [-q] [-v] " ++
    "inspect (operations SPEC | models SPEC | schema SPEC MODEL) [-i TAG] [-x TAG]"

def Command.run (words : List String) (s : Surroundings) : Report :=
  match Command.ofWords? words with
  | none => ⟨"", line usage, Family.usage.exitCode⟩
  | some .version => ⟨line programVersion, "", 0⟩
  | some (.inspect flags i) => i.run (Flag.reporter flags) s

end OpenApi
