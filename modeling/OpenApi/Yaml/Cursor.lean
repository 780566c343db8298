/-! # Places in a text

A cursor is a place in a text with the line and the column it lies in. Lines end at a line feed,
a carriage return, both together, or one of the three further characters that end lines.
-/
namespace OpenApi.Yaml

/-- What is wrong with a text: its form, or a scalar that stands for no value. -/
inductive Flaw where
  | form
  | value
  deriving DecidableEq, Repr

abbrev Read (α : Type) := Except Flaw α

structure Cursor where
  rest : List Char
  line : Nat
  column : Nat

def isBreak (c : Char) : Bool :=
  c == '\n' || c == '\r' || c == '\u0085' || c == '\u2028' || c == '\u2029'

def isWhite (c : Char) : Bool := c == ' ' || c == '\t' || isBreak c

def endsWord (next : Option Char) : Bool := next.all isWhite

def breakText (c : Char) : Char := if c == '\u2028' || c == '\u2029' then c else '\n'

namespace Cursor

def start (text : List Char) : Cursor := ⟨text, 0, 0⟩

def peek (c : Cursor) : Option Char := c.rest.head?

def advance (c : Cursor) (n : Nat) : Cursor := ⟨c.rest.drop n, c.line, c.column + n⟩

def lineBreak? (c : Cursor) : Option (Char × Cursor) :=
  match c.rest with
  | '\r' :: '\n' :: rest => some ('\n', ⟨rest, c.line + 1, 0⟩)
  | b :: rest => if isBreak b then some (breakText b, ⟨rest, c.line + 1, 0⟩) else none
  | [] => none

def atMark (c : Cursor) (mark : String) : Bool :=
  c.column == 0 && mark.toList.isPrefixOf c.rest && endsWord (c.rest.drop 3).head?

def atEnd (c : Cursor) : Bool := c.rest.isEmpty || c.atMark "---" || c.atMark "..."

def toTokenFrom (inComment : Bool) (line column : Nat) : List Char → Cursor
  | [] => ⟨[], line, column⟩
  | c :: rest =>
    if c == '\r' && rest.head? == some '\n' then toTokenFrom inComment line column rest
    else if isBreak c then toTokenFrom false (line + 1) 0 rest
    else if inComment || c == '#' then toTokenFrom true line (column + 1) rest
    else if c == ' ' then toTokenFrom false line (column + 1) rest
    else ⟨c :: rest, line, column⟩

def toToken (c : Cursor) : Cursor := toTokenFrom false c.line c.column c.rest

def skipSpaces (c : Cursor) : Cursor := c.advance (c.rest.takeWhile (· == ' ')).length

def skipIndentation (c : Cursor) (column : Nat) : Cursor :=
  c.advance (min (c.rest.takeWhile (· == ' ')).length (column - c.column))

end Cursor

def isAllowed (c : Char) : Bool :=
  let n := c.toNat
  n == 9 || n == 10 || n == 13 || (32 ≤ n && n ≤ 126) || n == 0x85 ||
    (0xA0 ≤ n && n != 0xFFFE && n != 0xFFFF)

end OpenApi.Yaml
