import OpenApi.Entries
import OpenApi.Path
import OpenApi.Text.Utf8
/-! # Surroundings

What the program meets outside: its input, the files of a folder, and the pages of the web. A path is
followed part by part; two dots lead up again from a folder that is there, but not out of the outermost
one. -/
namespace OpenApi

inductive Page where
  | answered (status : Int) (contentType : Option String) (text : String)
  | unreachable (reason : String)

structure Surroundings where
  /-- The folder that paths start from. -/
  folder : String
  input : String
  /-- The bytes of a file, if there is one at the path. -/
  file : String → Option (List UInt8)
  page : String → Page

/-- The text of a file, in which every line ends with a line feed. -/
def Surroundings.fileText (s : Surroundings) (path : String) :
    Option (Except Text.Utf8Fault String) :=
  (s.file path).map fun bytes =>
    (Text.decode bytes).map fun text => String.ofList (Text.unifyLineEnds text.toList)

structure Folder where
  files : Entries (List String) (List UInt8)

namespace Folder

def ofFiles (files : Entries String (List UInt8)) : Folder :=
  ⟨files.map fun f => (Path.parts f.1, f.2)⟩

def isFolder (f : Folder) (parts : List String) : Bool :=
  f.files.any fun file => parts.length < file.1.length && parts.isPrefixOf file.1

/-- Follows the parts of a path from a place, which is given from its last part on. -/
def follow (f : Folder) (place : List String) : List String → Option (List String)
  | [] => some place.reverse
  | part :: rest =>
    if part = ".." then
      match place with
      | [] => none
      | _ :: up => if f.isFolder place.reverse then f.follow up rest else none
    else f.follow (part :: place) rest

def file? (f : Folder) (path : String) : Option (List UInt8) :=
  if (Path.root path).isEmpty then
    (f.follow [] (Path.parts path)).bind fun place => f.files.get? place
  else none

end Folder

end OpenApi
