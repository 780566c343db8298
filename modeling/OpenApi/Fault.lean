import OpenApi.Value.Text
/-! # Faults

Whatever can go wrong, by cause. A fault that a user is told of belongs to a family, and the
family decides with which code the command line ends; the families form a tree below `general`.
The remaining faults are those of an input that does not have the form its standard prescribes, or of
a value that cannot be written.
-/
namespace OpenApi

inductive Family where
  | general
  | usage
  | status
  | connection
  | document
  | compilation
  | externalReference
  | missingReference
  | modelClash
  | operationClash
  | emptyIntersection
  | emptyEnumeration
  | untagged
  | defaultsShape
  | decoding
  | configuration
  deriving DecidableEq, Repr

namespace Family

def ancestors : Family → List Family
  | general => []
  | externalReference | missingReference | modelClash | operationClash | emptyIntersection
  | emptyEnumeration | untagged | defaultsShape => [compilation, general]
  | _ => [general]

def ownExitCode? : Family → Option Nat
  | general => some 1
  | usage => some 2
  | status => some 5
  | connection => some 6
  | document => some 7
  | compilation => some 8
  | decoding => some 9
  | _ => none

/-- A family without an exit code of its own has that of the nearest one it belongs to. -/
def exitCode (f : Family) : Nat := ((f :: f.ancestors).findSome? ownExitCode?).getD 1

end Family

inductive ArgumentFault where
  | missing (name : String)
  | tooMany
  | repeated (name : String)
  | unexpected (name : String)
  deriving DecidableEq, Repr

def ArgumentFault.message : ArgumentFault → String
  | missing name => "missing a required argument: " ++ Text.quoted name
  | tooMany => "too many positional arguments"
  | repeated name => "multiple values for argument " ++ Text.quoted name
  | unexpected name => "got an unexpected keyword argument " ++ Text.quoted name

inductive Fault where
  /-- A part of the input does not have the form that it must have. -/
  | malformed
  /-- A field of a record was given a value of another type. -/
  | invalidField
  /-- The bytes of a file are no UTF-8. -/
  | undecodable
  | unwritten (e : WriteError)
  | emptyInput
  | noDocument (path : String)
  | emptyDocument (path : String)
  | refused (status : Int) (url : String)
  | unreachable (url reason : String)
  | invalidJson (reason : String)
  | invalidYaml
  | notMapping (kind : Kind)
  | legacyVersion (version : Value)
  | noVersion
  | unsupportedVersion (version : String)
  | externalReference (ref : String)
  | missingKey (ref segment : String)
  | badIndex (ref segment : String)
  | notNavigable (ref : String) (kind : Kind)
  | modelClash (name owner ref : String)
  | operationClash (name tag : String)
  | boundTwice (name space : String)
  | emptyIntersection
  | emptyEnumeration
  | untagged (verb path : String)
  | defaultsShape
  | reservedSpace (tag space : String)
  | invalidDefaults
  | badTimeout (text : String)
  | badProjectFile (path reason : String)
  | relativeUrl (url : String)
  | badArguments (operation : String) (fault : ArgumentFault)
  | undelivered (url reason : String)
  | rejected (status : Int) (data : Value)
  | undecoded (reason : String)
  | unknownSpace (client name : String)
  | unknownOperation (space name : String)

namespace Fault

def family? : Fault → Option Family
  | malformed | invalidField | undecodable | unwritten .. | unknownSpace .. | unknownOperation .. =>
    none
  | emptyInput | noDocument .. | emptyDocument .. | refused .. | unreachable .. | invalidJson ..
  | invalidYaml | notMapping .. | legacyVersion .. | noVersion | unsupportedVersion .. =>
    some .document
  | externalReference .. => some .externalReference
  | missingKey .. | badIndex .. | notNavigable .. => some .missingReference
  | modelClash .. => some .modelClash
  | operationClash .. | boundTwice .. => some .operationClash
  | emptyIntersection => some .emptyIntersection
  | emptyEnumeration => some .emptyEnumeration
  | untagged .. => some .untagged
  | defaultsShape => some .defaultsShape
  | reservedSpace .. => some .compilation
  | invalidDefaults | badTimeout .. | badProjectFile .. | relativeUrl .. => some .configuration
  | badArguments .. => some .usage
  | undelivered .. => some .connection
  | rejected .. => some .status
  | undecoded .. => some .decoding

def unresolved (ref reason : String) : String := "Cannot resolve $ref '" ++ ref ++ "': " ++ reason

def message : Fault → String
  | malformed => "malformed input"
  | invalidField => "<validation>"
  | undecodable => "undecodable bytes"
  | unwritten e => e.message
  | emptyInput => "No input received from stdin"
  | noDocument path => "Document not found: " ++ path
  | emptyDocument path => "Document is empty: " ++ path
  | refused status url => "HTTP " ++ toString status ++ " fetching document from " ++ url
  | unreachable url reason => "Failed to fetch document from " ++ url ++ ": " ++ reason
  | invalidJson reason => "Invalid JSON: " ++ reason
  | invalidYaml => "Failed to parse document as JSON or YAML: <yaml>"
  | notMapping kind =>
    "Document must be a JSON/YAML object (got " ++
      (if kind = .null then "empty document" else kind.name) ++ ")"
  | legacyVersion version =>
    "Swagger " ++ version.text ++ " is not supported. Convert the document to OpenAPI 3.x first."
  | noVersion => "Missing 'openapi' field. Is this an OpenAPI 3.x document?"
  | unsupportedVersion version => "Unsupported OpenAPI version: " ++ version
  | externalReference ref =>
    "External refs are not supported (" ++ ref ++ "). Bundle the document into a single file first."
  | missingKey ref segment => unresolved ref ("key '" ++ segment ++ "' not found")
  | badIndex ref segment => unresolved ref ("invalid array index '" ++ segment ++ "'")
  | notNavigable ref kind => unresolved ref ("cannot navigate into " ++ kind.name)
  | modelClash name owner ref =>
    "Duplicate name detected: " ++ name ++ " (" ++ owner ++ " and " ++ ref ++ ")"
  | operationClash name tag =>
    "Duplicate name detected: " ++ name ++ " in tag " ++ Text.quoted tag
  | boundTwice name space =>
    "Duplicate name detected: " ++ name ++ " in namespace " ++ Text.quoted space
  | emptyIntersection => "allOf must list at least one schema"
  | emptyEnumeration => "Found empty enum"
  | untagged verb path => "No tags found for " ++ verb ++ " " ++ path
  | defaultsShape => "Request defaults must be a mapping with a 'base_url' key"
  | reservedSpace tag space =>
    "Tag " ++ Text.quoted tag ++ " maps to the reserved client attribute " ++ Text.quoted space
  | invalidDefaults => "Invalid request defaults: <validation>"
  | badTimeout text => "CODECAPI_TIMEOUT must be a number, got " ++ Text.quoted text
  | badProjectFile path reason => "Invalid project config at " ++ path ++ ": " ++ reason
  | relativeUrl url =>
    "Request URL " ++ Text.quoted url ++
      " is not absolute; set a base URL such as 'https://api.example.com'"
  | badArguments operation fault => operation ++ "(): " ++ fault.message
  | undelivered url reason => "Request to " ++ url ++ " failed: " ++ reason
  | rejected status _ => "Error: " ++ toString status
  | undecoded reason => reason
  | unknownSpace client name => client ++ " has no namespace " ++ Text.quoted name
  | unknownOperation space name =>
    "Namespace " ++ Text.quoted space ++ " has no operation " ++ Text.quoted name

end Fault

end OpenApi
