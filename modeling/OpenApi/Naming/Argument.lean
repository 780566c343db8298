import OpenApi.Entries
import OpenApi.Naming.Words
import OpenApi.Text.Identifier
/-! # Names of arguments

A parameter is called by the last part of its dotted name, in camel case. Shorter names choose
first; a name that finds its short form taken uses its full form, and a number behind it keeps
apart what is still the same. A name can be used in a call if it is an identifier and no keyword, and
the arguments that every operation has are reserved as well.
-/
namespace OpenApi.Naming

def keywords : List String := [
  "False", "None", "True", "and", "as", "assert", "async", "await", "break", "class", "continue",
  "def", "del", "elif", "else", "except", "finally", "for", "from", "global", "if", "import", "in",
  "is", "lambda", "nonlocal", "not", "or", "pass", "raise", "return", "try", "while", "with",
  "yield"]

def isKeyword (s : String) : Bool := keywords.contains s

def isUsable (s : String) : Bool := Text.isIdentifier s && !isKeyword s

def reservedArguments : List String := ["body", "query", "opts"]

def signatureName (argument : String) : String :=
  let name := if Text.isIdentifier argument then argument else "_" ++ argument
  if isKeyword name || reservedArguments.contains name then name ++ "_" else name

/-- The name itself, or else with the first number from two on that makes it a new one. -/
def fresh (taken : List String) (name : String) : String :=
  if taken.contains name then
    (((List.range (taken.length + 1)).map fun k => name ++ toString (k + 2)).find?
      fun candidate => !taken.contains candidate).getD name
  else name

def shortForm (name : String) : String := camelCase (Text.afterLast (· == '.') name)

def assign (assigned : Entries String String) (name : String) : Entries String String :=
  if assigned.has name then assigned
  else
    let taken := assigned.values
    let short := shortForm name
    let argument := if taken.contains short then camelCase name else short
    assigned ++ [(name, fresh taken argument)]

def argumentNames (names : List String) : Entries String String :=
  (names.mergeSort fun a b => a.length ≤ b.length).foldl assign []

end OpenApi.Naming
