import OpenApi.Value.Text
/-! # The journal

What the compiler, the loader and the sessions note down while they work, in order. Each note
has a level and is filed under the part of the program that made it.
-/
namespace OpenApi

inductive Level where
  | debug
  | warning
  deriving DecidableEq, Repr

def Level.name : Level → String
  | debug => "DEBUG"
  | warning => "WARNING"

inductive Event where
  | loading (source : String)
  | compilingModel (name ref : String)
  | skipped (verb path : String) (tags : Value)
  | compiledOperation (verb path tag name : String)
  | finished (operations models : Nat)
  | calling (operation method url : String)
  | unreadable (method url reason : String)
  | answered (method url : String) (status : Int)

abbrev Journal := List Event

namespace Event

def level : Event → Level
  | unreadable .. => .warning
  | _ => .debug

def file : Event → String
  | loading .. => "codecapi.parser.loader"
  | compilingModel .. => "codecapi.compiler.synthesizer"
  | skipped .. | compiledOperation .. => "codecapi.compiler.operations"
  | finished .. => "codecapi.compiler"
  | calling .. => "codecapi.runtime.client"
  | unreadable .. | answered .. => "codecapi.runtime.executor"

def message : Event → String
  | loading source => "Loading OpenAPI document from " ++ source
  | compilingModel name ref => "Compiling model " ++ name ++ " from " ++ ref
  | skipped verb path tags => "Skipping " ++ verb ++ " " ++ path ++ " (tags " ++ tags.text ++ ")"
  | compiledOperation verb path tag name =>
    "Compiled " ++ verb ++ " " ++ path ++ " as " ++ tag ++ "." ++ name
  | finished operations models =>
    "Compiled " ++ toString operations ++ " operations and " ++ toString models ++ " models"
  | calling operation method url => "Calling " ++ operation ++ " as " ++ method ++ " " ++ url
  | unreadable method url reason =>
    "Could not read response body of " ++ method ++ " " ++ url ++ ": " ++ reason
  | answered method url status => method ++ " " ++ url ++ " -> " ++ toString status

def line (e : Event) : String := e.level.name ++ " " ++ e.file ++ ": " ++ e.message

end Event

end OpenApi
