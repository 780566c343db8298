import OpenApi.Yaml.Cursor
/-! # Plain scalars

A scalar without quotes goes on to a colon or a comment that stands apart, in a flow collection
also to a bracket or a comma. It may run over several lines, as long as they are indented; a line
break counts as a space, and an empty line as a line break.
-/
namespace OpenApi.Yaml

def isFlowMark (c : Char) : Bool :=
  c == ',' || c == '[' || c == ']' || c == '\x7b' || c == '\x7d'

def isIndicator (c : Char) : Bool := "-?:,[]#&*!|>'\"%@\x60\x7b\x7d".toList.contains c

/-- Whether a plain scalar starts here. A dash may start one if a word follows it, and so may a
question mark or a colon outside flow collections. -/
def startsPlain (inFlow : Bool) : List Char → Bool
  | [] => false
  | c :: rest =>
    (!isWhite c && !isIndicator c) ||
      (!endsWord rest.head? && (c == '-' || (!inFlow && (c == '?' || c == ':'))))

def endsPlain (inFlow : Bool) (c : Char) (next : Option Char) : Bool :=
  isWhite c || (c == ':' && (endsWord next || (inFlow && next.any isFlowMark))) ||
    (inFlow && (c == '?' || isFlowMark c))

def plainRun (inFlow : Bool) : List Char → List Char
  | [] => []
  | c :: rest => if endsPlain inFlow c rest.head? then [] else c :: plainRun inFlow rest

def emptyLines (c : Cursor) : Nat → Option (List Char) × Cursor
  | 0 => (some [], c)
  | fuel + 1 =>
    if c.atMark "---" || c.atMark "..." then (none, c)
    else
      let c := c.skipSpaces
      match c.lineBreak? with
      | none => (some [], c)
      | some (b, next) =>
        let (more, last) := emptyLines next fuel
        (more.map (b :: ·), last)

/-- A line break as a part of a scalar: a space, unless empty lines follow. -/
def folded (b : Char) (empty : List Char) : List Char :=
  if b != '\n' then b :: empty else if empty.isEmpty then [' '] else empty

def plainGap (c : Cursor) : Option (List Char) × Cursor :=
  let spaces := c.rest.takeWhile (· == ' ')
  let next := c.advance spaces.length
  match next.lineBreak? with
  | none => (if spaces.isEmpty then none else some spaces, next)
  | some (b, next) =>
    let (empty, last) := emptyLines next (next.rest.length + 1)
    (empty.map (folded b), last)

/-- The rest of a plain scalar behind a gap. Lines must reach the given column. -/
def plainFrom (inFlow : Bool) (column : Nat) (gap : List Char) (c : Cursor) :
    Nat → List Char × Cursor
  | 0 => ([], c)
  | fuel + 1 =>
    let run := plainRun inFlow c.rest
    if run.isEmpty || c.peek == some '#' then ([], c)
    else
      let (gap', next) := plainGap (c.advance run.length)
      match gap' with
      | none => (gap ++ run, next)
      | some gap' =>
        if !inFlow && next.column < column then (gap ++ run, next)
        else
          let (more, last) := plainFrom inFlow column gap' next fuel
          (gap ++ run ++ more, last)

def plainScalar (inFlow : Bool) (column : Nat) (c : Cursor) : List Char × Cursor :=
  plainFrom inFlow column [] c (c.rest.length + 1)

end OpenApi.Yaml
