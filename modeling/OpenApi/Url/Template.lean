import OpenApi.Text.Percent
import OpenApi.Url.Placeholder
import OpenApi.Value.Text
/-! # URL templates

A path is a sequence of literal texts and parameters. Rendering it puts the wire text of a value,
percent encoded, in the place of each parameter.
-/
namespace OpenApi.Url

inductive Segment where
  | literal (text : String)
  | parameter (name : String)
  deriving DecidableEq, Repr

abbrev Template := List Segment

def literalSegment (cs : List Char) : Template :=
  if cs.isEmpty then [] else [.literal (String.ofList cs)]

def segmentsOf (cs : List Char) : Template :=
  match _h : firstPlaceholder cs with
  | none => literalSegment cs
  | some p =>
    literalSegment p.before ++ .parameter (String.ofList p.name) :: segmentsOf p.after
termination_by cs.length
decreasing_by exact firstPlaceholder_length _h

def Template.ofPath (path : String) : Template := segmentsOf path.toList

def Segment.render (values : Entries String Value) : Segment → String
  | literal text => text
  | parameter name => Text.encodeComponent (((values.get? name).getD .null).wireText)

def Template.render (t : Template) (values : Entries String Value) : String :=
  String.join (t.map (Segment.render values))

end OpenApi.Url
