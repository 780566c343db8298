import OpenApi.Yaml.Plain
/-! # Block scalars

A bar or a greater-than sign is followed by a text in lines of their own, whose indentation is
that of the first line with content. A bar keeps the line breaks; the other sign folds them. The
breaks at the end are kept, cut to one, or dropped.
-/
namespace OpenApi.Yaml

inductive Chomping where
  | clip | strip | keep
  deriving DecidableEq, Repr

structure BlockHeader where
  chomping : Chomping
  /-- How far the text is indented, if that is said. -/
  indentation : Option Nat

def chomping? (c : Char) : Option Chomping :=
  if c == '+' then some .keep else if c == '-' then some .strip else none

def indentationOf? (c : Char) : Option Nat :=
  if c.isDigit && c != '0' then some (c.toNat - 48) else none

def blockIndicators (cs : List Char) : BlockHeader × Nat :=
  match cs with
  | a :: b :: _ =>
    match chomping? a, indentationOf? b, indentationOf? a, chomping? b with
    | some ch, some n, _, _ => (⟨ch, some n⟩, 2)
    | some ch, none, _, _ => (⟨ch, none⟩, 1)
    | none, _, some n, some ch => (⟨ch, some n⟩, 2)
    | none, _, some n, none => (⟨.clip, some n⟩, 1)
    | none, _, none, _ => (⟨.clip, none⟩, 0)
  | [a] =>
    match chomping? a, indentationOf? a with
    | some ch, _ => (⟨ch, none⟩, 1)
    | none, some n => (⟨.clip, some n⟩, 1)
    | none, none => (⟨.clip, none⟩, 0)
  | [] => (⟨.clip, none⟩, 0)

/-- The header and the start of the next line. Only a comment may follow the indicators. -/
def blockHeader (c : Cursor) : Read (BlockHeader × Cursor) :=
  let (header, n) := blockIndicators c.rest
  let c := c.advance n
  if c.peek.all fun d => d == ' ' || isBreak d then
    let c := c.skipSpaces
    let c := if c.peek == some '#' then c.advance (c.rest.takeWhile fun d => !isBreak d).length else c
    match c.lineBreak? with
    | some (_, next) => .ok (header, next)
    | none => if c.rest.isEmpty then .ok (header, c) else .error .form
  else .error .form

/-- The empty lines before the text and the widest indentation among them and the text. -/
def leadingLines (widest : Nat) (c : Cursor) : Nat → List Char × Nat × Cursor
  | 0 => ([], widest, c)
  | fuel + 1 =>
    let c := c.skipSpaces
    let widest := max widest c.column
    match c.lineBreak? with
    | none => ([], widest, c)
    | some (b, next) =>
      let (more, widest, last) := leadingLines widest next fuel
      (b :: more, widest, last)

def emptyBlockLines (column : Nat) (c : Cursor) : Nat → List Char × Cursor
  | 0 => ([], c)
  | fuel + 1 =>
    let c := c.skipIndentation column
    match c.lineBreak? with
    | none => ([], c)
    | some (b, next) =>
      let (more, last) := emptyBlockLines column next fuel
      (b :: more, last)

def isLineBlank (c : Option Char) : Bool := c == some ' ' || c == some '\t'

/-- What ends a block scalar: the break of its last line, and the empty lines behind it. -/
def chomp (ch : Chomping) (last empty : List Char) : List Char :=
  match ch with
  | .strip => []
  | .clip => last
  | .keep => last ++ empty

def blockLines (folds : Bool) (ch : Chomping) (column : Nat) (empty : List Char) (c : Cursor) :
    Nat → List Char × Cursor
  | 0 => ([], c)
  | fuel + 1 =>
    let line := c.rest.takeWhile fun d => !isBreak d
    let (last, next) := match (c.advance line.length).lineBreak? with
      | some (b, next) => ([b], next)
      | none => ([], c.advance line.length)
    let (empty', next) := emptyBlockLines column next (next.rest.length + 1)
    if next.column == column && !next.rest.isEmpty then
      let joint :=
        if folds && last == ['\n'] && !isLineBlank c.peek && !isLineBlank next.peek then
          if empty'.isEmpty then [' '] else []
        else last
      let (more, end_) := blockLines folds ch column empty' next fuel
      (empty ++ line ++ joint ++ more, end_)
    else (empty ++ line ++ chomp ch last empty', next)

/-- A block scalar whose sign is at the cursor, in a collection that is indented by less than the
given column. -/
def blockScalar (folds : Bool) (least : Nat) (c : Cursor) : Read (List Char × Cursor) := do
  let (header, c) ← blockHeader (c.advance 1)
  let least := max least 1
  let fuel := c.rest.length + 1
  let (empty, column, c) := match header.indentation with
    | some n =>
      let column := least + n - 1
      let (empty, c) := emptyBlockLines column c fuel
      (empty, column, c)
    | none =>
      let (empty, widest, c) := leadingLines 0 c fuel
      (empty, max least widest, c)
  if c.column == column && !c.rest.isEmpty then
    return blockLines folds header.chomping column empty c fuel
  else return (chomp header.chomping [] empty, c)

end OpenApi.Yaml
