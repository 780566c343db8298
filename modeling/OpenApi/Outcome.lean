import OpenApi.Codec.Decode
import OpenApi.Content
import OpenApi.Fault
import OpenApi.Json.Reader
import OpenApi.Text.LetterCase
import OpenApi.Text.Pieces
/-! # Outcomes

A reply is read by its status. With an accepted status its body has to fit the expected codec;
with any other it is an error, whose body is given as far as it can be read. A JSON body is read
as JSON, and any other as text; an empty body counts as null first.
-/
namespace OpenApi

structure Reply where
  status : Int
  contentType : Option String
  text : Option String
  deriving DecidableEq, Repr

inductive Outcome where
  | accepted (status : Int) (data : Value)
  | rejected (status : Int) (data : Value)
  | failed (status : Option Int) (reason : String)

def acceptedStatuses : List Int := [200, 201, 202, 203, 204]

inductive Reading where
  | value (v : Value)
  | misfit (f : DecodeFailure)
  /-- The body is no JSON text, or what is to be said of it holds an integer that is too long. -/
  | invalid (reason : String)

def Reading.ofDecoded : Decoded Value → Except WriteError Reading
  | .ok v => .ok (value v)
  | .error (.failure f) => .ok (misfit f)
  | .error (.unwritten .longInteger) => .ok (invalid WriteError.longInteger.message)
  | .error (.unwritten e) => .error e

namespace Reply

def isAccepted (r : Reply) : Bool := acceptedStatuses.contains r.status

def isJson (r : Reply) : Bool :=
  r.contentType.any fun t => Text.contains (Text.lower t) Content.jsonType

/-- A body as text. An empty one is null, or else the empty text; an unread one is null. -/
def decodeText (codec : Codec) : Option String → Decoded Value
  | none => codec.decode .null
  | some text =>
    if text.isEmpty then
      match codec.decode .null with
      | .error (.failure _) => codec.decode (.str text)
      | ended => ended
    else codec.decode (.str text)

def decodeBody (codec : Codec) (r : Reply) : Except WriteError Reading :=
  match r.text with
  | some text =>
    if r.isJson && !text.isEmpty then
      match Json.read text with
      | .ok v => Reading.ofDecoded (codec.decode v)
      | .error e => .ok (.invalid e.message)
    else Reading.ofDecoded (decodeText codec (some text))
  | none => Reading.ofDecoded (decodeText codec none)

end Reply

namespace Outcome

def ofReply (expected error : Codec) (r : Reply) : Except WriteError Outcome := do
  if r.isAccepted then
    match ← r.decodeBody expected with
    | .value data => return accepted r.status data
    | .misfit f => return failed (some r.status) (← f.writeText)
    | .invalid reason => return failed (some r.status) ("Invalid JSON body: " ++ reason)
  else
    match ← r.decodeBody error with
    | .value data => return rejected r.status data
    | _ => return rejected r.status .null

def unwrap : Outcome → Except Fault Value
  | accepted _ data => .ok data
  | rejected status data => .error (.rejected status data)
  | failed _ reason => .error (.undecoded reason)

end Outcome

end OpenApi
