import OpenApi.Text.LetterCase
import OpenApi.Text.Pieces
/-! # Paths of files

A path is a row of names between strokes, which may begin with strokes. Empty parts and single dots
do not matter, and a path without any other part is a single dot.
-/
namespace OpenApi.Path

def isStroke (c : Char) : Bool := c == '/'

def parts (path : String) : List String :=
  (Text.cutAt isStroke path).filter fun p => p != "" && p != "."

/-- What a path begins with. Two strokes are kept, any other number of them counts as one. -/
def root (path : String) : String :=
  match (path.toList.takeWhile isStroke).length with
  | 0 => ""
  | 2 => "//"
  | _ => "/"

def normal (path : String) : String :=
  let shown := root path ++ "/".intercalate (parts path)
  if shown.isEmpty then "." else shown

/-- A name from its last dot on, if something stands on both sides of the dot. -/
def endingOf (name : List Char) : List Char :=
  let back := name.reverse
  let behind := back.takeWhile (· != '.')
  if behind.isEmpty || (back.dropWhile (· != '.')).length < 2 then [] else '.' :: behind.reverse

def ending (path : String) : String :=
  Text.lower (String.ofList (endingOf ((parts path).getLastD "").toList))

end OpenApi.Path
