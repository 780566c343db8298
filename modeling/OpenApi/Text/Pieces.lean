/-! # Parts of a text

A text may begin with another one or hold it somewhere. It is cut at every character that satisfies a
test; the pieces are what lies between the cuts. A line may end with a line feed, with a carriage return
or with both together.
-/
namespace OpenApi.Text

def startsWith (s beginning : String) : Bool := beginning.toList.isPrefixOf s.toList

def occurs (part : List Char) : List Char → Bool
  | [] => part.isEmpty
  | c :: rest => part.isPrefixOf (c :: rest) || occurs part rest

def contains (s part : String) : Bool := occurs part.toList s.toList

def pieces (cut : Char → Bool) : List Char → List (List Char)
  | [] => [[]]
  | c :: rest =>
    if cut c then [] :: pieces cut rest
    else match pieces cut rest with
      | [] => [[c]]
      | p :: ps => (c :: p) :: ps

theorem pieces_ne_nil (cut : Char → Bool) (cs : List Char) : pieces cut cs ≠ [] := by
  cases cs with
  | nil => simp [pieces]
  | cons c rest =>
    simp only [pieces]
    split
    · simp
    · split <;> simp

def cutAt (cut : Char → Bool) (s : String) : List String := (pieces cut s.toList).map String.ofList

def afterLast (cut : Char → Bool) (s : String) : String :=
  String.ofList ((pieces cut s.toList).getLastD [])

def unifyLineEnds : List Char → List Char
  | '\r' :: '\n' :: rest => '\n' :: unifyLineEnds rest
  | '\r' :: rest => '\n' :: unifyLineEnds rest
  | c :: rest => c :: unifyLineEnds rest
  | [] => []

end OpenApi.Text
