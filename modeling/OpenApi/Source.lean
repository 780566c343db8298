import OpenApi.Document
import OpenApi.Event
import OpenApi.Path
import OpenApi.Surroundings
import OpenApi.Text.Pieces
import OpenApi.Text.Classes
/-! # Sources of documents

A document comes from the input, from the web or from a file. Its format is known from the content
type of a page or from the ending of a path, as far as these say something.
-/
namespace OpenApi

inductive Source where
  | input
  | web (url : String)
  | file (path : String)
  deriving DecidableEq, Repr

namespace Source

/-- A dash stands for the input, and only what begins as a URL is one. -/
def ofText (text : String) : Source :=
  if text = "-" then input
  else if Text.startsWith text "http://" || Text.startsWith text "https://" then web text
  else file (Path.normal text)

def formatOfType (contentType : String) : Option Format :=
  if Text.contains contentType "json" then some .json
  else if Text.contains contentType "yaml" || Text.contains contentType "yml" then some .yaml
  else none

def formatOfPath (path : String) : Option Format :=
  match Path.ending path with
  | ".json" => some .json
  | ".yaml" | ".yml" => some .yaml
  | _ => none

def isSuccess (status : Int) : Bool := 200 ≤ status && status < 300

def document (s : Surroundings) : Source → Except Fault Document
  | input => if Text.isBlank s.input then .error .emptyInput else Document.ofText none s.input
  | web url =>
    match s.page url with
    | .unreachable reason => .error (.unreachable url reason)
    | .answered status contentType text =>
      if isSuccess status then Document.ofText (formatOfType (contentType.getD "")) text
      else .error (.refused status url)
  | file path =>
    match s.fileText path with
    | none => .error (.noDocument path)
    | some (.error _) => .error .undecodable
    | some (.ok text) =>
      if Text.isBlank text then .error (.emptyDocument path)
      else Document.ofText (formatOfPath path) text

end Source

def loadDocument (s : Surroundings) (source : String) : Except Fault Document × Journal :=
  ((Source.ofText source).document s, [.loading source])

end OpenApi
