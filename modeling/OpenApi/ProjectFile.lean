import OpenApi.Json.Reader
import OpenApi.Options
import OpenApi.Surroundings
/-! # The project file

The options of a project stand in a file in its folder, at the top or as one entry of it. A project
without such a file has the default options; a file that cannot be read is a fault.
-/
namespace OpenApi.ProjectFile

def name : String := "codecapi.json"

/-- The value that holds the options: that of the entry `compile`, if it is a mapping. -/
def held : Value → Value
  | .dict es =>
    match Entries.get? es (.str "compile") with
    | some (.dict inner) => .dict inner
    | _ => .dict es
  | v => v

def optionsOf (text : String) : Except String Options :=
  match Json.read text with
  | .error e => .error e.message
  | .ok v => (Options.ofValue (held v)).mapError Fault.message

def read (s : Surroundings) (path shown : String) : Except Fault Options :=
  let fault (reason : String) : Fault := .badProjectFile shown reason
  match s.fileText path with
  | none => .ok .default
  | some (.error e) => .error (fault e.message)
  | some (.ok text) => (optionsOf text).mapError fault

def options (s : Surroundings) : Except Fault Options := read s name (s.folder ++ "/" ++ name)

end OpenApi.ProjectFile
