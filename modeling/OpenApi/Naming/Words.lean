import OpenApi.Pointer
import OpenApi.Text.LetterCase
/-! # Names made of words

The words of a text are its digit runs, its acronyms and its runs of small letters, each of
these with the capital before it. All else separates words. In camel case the words are joined,
the first in small letters and every other with a capital in front. A model is called by the title
of its schema, or else by the last segment of the reference to it, in words with a capital each and
without what cannot stand in a name.
-/
namespace OpenApi.Naming

/-- Whether a character belongs to the word behind it. A capital joins small letters, and it
joins capitals unless the next of them leads small letters itself. -/
def joins (c : Char) : List Char → Bool
  | [] => false
  | d :: rest =>
    if c.isDigit then d.isDigit
    else if c.isLower then d.isLower
    else d.isLower || (d.isUpper && !(rest.head?.any Char.isLower))

/-- Adds a character in front. An empty word marks a place where no word goes on. -/
def addLetter (c : Char) : List (List Char) → List (List Char)
  | [] => if c.isAlphanum then [[c]] else [[]]
  | w :: ws =>
    if !c.isAlphanum then [] :: w :: ws
    else if joins c w then (c :: w) :: ws
    else [c] :: w :: ws

def words (cs : List Char) : List (List Char) :=
  (cs.foldr addLetter []).filter fun w => !w.isEmpty

def small (w : List Char) : List Char := w.map Char.toLower

def capitalised : List Char → List Char
  | [] => []
  | c :: rest => c.toUpper :: small rest

def camelLetters : List (List Char) → List Char
  | [] => []
  | w :: ws => small w ++ (ws.map capitalised).flatten

def camelCase (s : String) : String := String.ofList (camelLetters (words s.toList))

def upperFirst (s : String) : String :=
  match s.toList with
  | [] => ""
  | c :: rest => String.ofList (Text.upperChar c ++ rest)

def isModelChar (c : Char) : Bool := c.isAlphanum || c == '_'

def pascalCase (s : String) : String :=
  let whole := ((upperFirst s).toList).filter (· != '.')
  let parts := (Text.pieces (fun c => !isModelChar c) whole).filter fun p => !p.isEmpty
  String.join (parts.map fun p => upperFirst (String.ofList p))

def modelName (ref : String) (schema : Value) : Except Fault String :=
  let title := (schema.get? "title").getD .null
  if title.isTruthy then .ok (pascalCase title.text)
  else do .ok (pascalCase ((← Pointer.segments ref).getLastD ""))

end OpenApi.Naming
