import OpenApi.Field
import OpenApi.Text.Pieces
/-! # Content

A content object declares the media types of a body, each with a schema. Of the media types that
are understood one is preferred: the wildcard, then JSON, then the two kinds of forms.
-/
namespace OpenApi

inductive Encoding where
  | json
  | form
  | multipart
  deriving DecidableEq, Repr

def Encoding.name : Encoding → String
  | json => "json"
  | form => "form"
  | multipart => "multipart"

namespace Content

def anyType : String := "*/*"

def jsonType : String := "application/json"

def formType : String := "application/x-www-form-urlencoded"

def multipartType : String := "multipart/form-data"

def binaryType : String := "application/octet-stream"

def textType : String := "text/plain"

/-- The media types that are understood, the preferred one first. -/
def understood : List (String × Encoding) :=
  [(anyType, .json), (jsonType, .json), (formType, .form), (multipartType, .multipart)]

/-- Whether a content object names a media type: as a key, as a member of a list, or as a part of
a text. -/
def declares (content : Value) (mediaType : String) : Except Fault Bool :=
  match content with
  | .dict es => .ok (Entries.has es (.str mediaType))
  | .list items => .ok (items.any fun v => v.same (.str mediaType))
  | .str s => .ok (Text.contains s mediaType)
  | _ => .error .malformed

def preferred? (content : Value) : Except Fault (Option (String × Encoding)) :=
  if content.isTruthy then understood.findM? fun t => declares content t.1 else .ok none

def stringSchema : Value := Value.object [("type", .str "string")]

/-- The schema of the preferred media type, or that of a string. -/
def schema (content : Value) : Except Fault Value := do
  match ← preferred? content with
  | none => return stringSchema
  | some (mediaType, _) =>
    match content with
    | .dict es =>
      let media ← Field.mapping (Value.getD es mediaType)
      return (Value.getD media "schema").orElse stringSchema
    | _ => throw .malformed

def firstType (content : Value) : Value := ((content.elements?.getD []).head?).getD .null

def offersJson (content : Value) : Except Fault Bool := do
  if content.isTruthy then
    if ← declares content jsonType then return true else declares content anyType
  else return false

end Content

end OpenApi
