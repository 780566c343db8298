import OpenApi.Fault
import OpenApi.Json.Reader
import OpenApi.Yaml.Reader
/-! # Documents

A document is a mapping, written as JSON or as YAML. Text of which nothing is known is read as JSON
if that is possible, and as YAML otherwise. Documents of version 3 are accepted.
-/
namespace OpenApi

abbrev Document := Entries Key Value

inductive Format where
  | json
  | yaml
  deriving DecidableEq, Repr

namespace Document

def ofValue : Value → Except Fault Document
  | .dict es => .ok es
  | v => .error (.notMapping v.kind)

def ofYaml (text : String) : Except Fault Document :=
  match Yaml.read text with
  | .ok v => ofValue v
  | .error .form => .error .invalidYaml
  | .error .value => .error .malformed

def ofText (format : Option Format) (text : String) : Except Fault Document :=
  if format = some .yaml then ofYaml text
  else
    match Json.read text with
    | .ok v => ofValue v
    | .error (.longInteger _) => .error .malformed
    | .error e => if format = some .json then .error (.invalidJson e.message) else ofYaml text

end Document

/-- The version of a document, which must be 3, whatever the minor version. -/
def documentVersion (document : Entries Key Value) : Except Fault String :=
  match document.get? (.str "swagger") with
  | some v => .error (.legacyVersion v)
  | none =>
    let version := Value.getD document "openapi"
    if version.kind = .null then .error .noVersion
    else if "3.".toList.isPrefixOf version.text.toList then .ok version.text
    else .error (.unsupportedVersion version.text)

end OpenApi
