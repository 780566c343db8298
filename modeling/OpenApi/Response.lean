import OpenApi.Compilation
import OpenApi.Content
/-! # Responses

The declared responses of an operation fall into two buckets: those with a code that begins with
2 and the default one are expected, the others are errors. A response without content (204)
belongs to neither. Each bucket becomes one codec. Codecs of a bucket are told apart by their
notations, so all of them must have one.
-/
namespace OpenApi.Response

def noContent : String := "204"

def isExpected (code : String) : Bool := code == "default" || Text.startsWith code "2"

def contentOf (document response : Value) : Except Fault Value := do
  let es ← Field.mapping (← Value.resolved document response)
  return Value.getD es "content"

/-- The codec of the body of a response. Of an undeclared body nothing is known. -/
def bodyCodec (document response : Value) : Compile Codec := do
  let content ← ofExcept (contentOf document response)
  if content.isTruthy then compileSchema document (← ofExcept (Content.schema content))
  else return .unknown

def addNew (bucket : List Codec) (c : Codec) : Except WriteError (List Codec) := do
  let known ← bucket.anyM fun b => return (← b.describe) == (← c.describe)
  return if known then bucket else bucket ++ [c]

/-- The codecs of a bucket, those with a shorter notation first. -/
def sorted (bucket : List Codec) : Except WriteError (List Codec) := do
  let noted ← bucket.mapM fun c => return (c, ← c.describe)
  return (noted.mergeSort fun a b => a.2.length ≤ b.2.length).map Prod.fst

/-- One codec for a bucket. An empty one accepts nothing but null. -/
def collapse : List Codec → Codec
  | [] => .optional .null
  | [c] => c
  | cs => .oneOf cs

structure Buckets where
  expected : List Codec
  errors : List Codec

def Buckets.add (b : Buckets) (code : String) (c : Codec) : Except WriteError Buckets := do
  if isExpected code then return { b with expected := ← addNew b.expected c }
  else return { b with errors := ← addNew b.errors c }

structure Codecs where
  expected : Codec
  error : Codec

def Buckets.codecs (b : Buckets) : Except WriteError Codecs :=
  return ⟨collapse (← sorted b.expected), collapse (← sorted b.errors)⟩

def addBody (document : Value) (b : Buckets) (response : Key × Value) : Compile Buckets := do
  let codec ← bodyCodec document response.2
  ofExcept ((b.add response.1.text codec).mapError .unwritten)

def compile (document : Value) (responses : Entries Key Value) : Compile Codecs := do
  let buckets ← (responses.filter fun e => e.1.text != noContent).foldlM (addBody document) ⟨[], []⟩
  ofExcept (buckets.codecs.mapError .unwritten)

def offersJson (document : Value) (responses : List Value) : Except Fault Bool :=
  responses.anyM fun response => do Content.offersJson (← contentOf document response)

end OpenApi.Response
