import OpenApi.Naming.Words
import OpenApi.Naming.Argument
import OpenApi.Text.Classes
import OpenApi.Url.Placeholder
/-! # Names of operations and of their namespaces

An operation is named by its identifier, without the scope in front of the first underscore, if
that is usable as a name; otherwise by its verb and its path. An operation belongs to the
namespace of its first tag.
-/
namespace OpenApi.Naming

def isWordChar (c : Char) : Bool := c.isAlphanum || c == '_'

/-- The text without its first run of other characters than underscores and the underscore that
ends it. -/
def dropScope (cs : List Char) : List Char :=
  match (cs.dropWhile (· == '_')).dropWhile (· != '_') with
  | [] => cs
  | _ :: rest => cs.takeWhile (· == '_') ++ rest

def identifierName? (id : String) : Option String :=
  if id.isEmpty then none
  else if id.toList.all fun c => isWordChar c || Text.isAsciiSpace c then
    let name := camelCase (String.ofList (dropScope id.toList))
    if isUsable name then some name else none
  else none

/-- The text with its first placeholder replaced by its name behind a connecting word. -/
def connect (word : String) (cs : List Char) : List Char :=
  match Url.firstPlaceholder cs with
  | some p => p.before ++ word.toList ++ ' ' :: p.name ++ p.after
  | none => cs

/-- The name made of a verb and a path, where `by` and `and` connect the first two parameters. -/
def pathName (verb path : String) : String :=
  camelCase (verb ++ " " ++ String.ofList (connect "and" (connect "by" path.toList)))

def operationName (verb path : String) (id : Option String) : String :=
  (id.bind identifierName?).getD (pathName verb path)

/-- Every letter behind a space takes the place of the space, in upper case. -/
def closeSpaces : List Char → List Char
  | ' ' :: c :: rest =>
    if c == '\n' then ' ' :: '\n' :: closeSpaces rest else Text.upperChar c ++ closeSpaces rest
  | c :: rest => c :: closeSpaces rest
  | [] => []

def spaceName (tag : String) : String := String.ofList (closeSpaces tag.toList)

end OpenApi.Naming
