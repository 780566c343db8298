import OpenApi.Yaml.Block
import OpenApi.Yaml.Node
import OpenApi.Yaml.Quoted
/-! # Reading YAML

A text is one document: nested lists and mappings by indentation, or in brackets, with scalars as
leaves. A key stands on the line of its colon, and only where a line or an item of a list begins.
-/
namespace OpenApi.Yaml

/-- A token of one character that a word must not follow. -/
def atSign (sign : Char) (c : Cursor) : Bool :=
  match c.rest with
  | d :: rest => d == sign && endsWord rest.head?
  | [] => false

def atColon (inFlow : Bool) (line : Nat) (c : Cursor) : Bool :=
  c.line == line && (if inFlow then c.peek == some ':' else atSign ':' c)

/-- The next token of a flow collection, which the document must not end before. -/
def flowToken (c : Cursor) : Read Cursor :=
  let c := c.toToken
  if c.atEnd then .error .form else .ok c

/-- Brackets nest and items follow each other only as often as there are characters. -/
def flowFuel (c : Cursor) : Nat := 4 * c.rest.length + 8

mutual

def flowNode (inFlow : Bool) (column : Nat) (c : Cursor) : Nat → Read (Node × Cursor)
  | 0 => .error .form
  | fuel + 1 =>
    match c.rest with
    | [] => .error .form
    | d :: _ =>
      if d == '[' then do
        let (items, next) ← flowItems true (c.advance 1) fuel
        return (.list items, next)
      else if d == '\x7b' then do
        let (entries, next) ← flowEntries true (c.advance 1) fuel
        return (.mapping entries, next)
      else if d == '"' || d == '\'' then do
        let (text, next) ← quotedScalar d c
        return (.quoted text, next)
      else if startsPlain inFlow c.rest then
        let (text, next) := plainScalar inFlow column c
        .ok (.plain text, next)
      else .error .form
termination_by structural fuel => fuel

/-- The value behind a colon in a flow collection, which may be missing. -/
def flowValue (c : Cursor) : Nat → Read (Node × Cursor)
  | 0 => .error .form
  | fuel + 1 => do
    let c ← flowToken c
    if c.peek == some ',' || c.peek == some ']' || c.peek == some '\x7d' then return (.empty, c)
    else flowNode true 0 c fuel
termination_by structural fuel => fuel

def flowPair (c : Cursor) : Nat → Read (Node × Option Node × Cursor)
  | 0 => .error .form
  | fuel + 1 => do
    let (key, next) ← flowNode true 0 c fuel
    let next := next.toToken
    if atColon true c.line next then
      let (value, last) ← flowValue (next.advance 1) fuel
      return (key, some value, last)
    else return (key, none, next)
termination_by structural fuel => fuel

/-- The items of a list up to its closing bracket; a pair is a mapping of its own. -/
def flowItems (first : Bool) (c : Cursor) : Nat → Read (List Node × Cursor)
  | 0 => .error .form
  | fuel + 1 => do
    let c ← flowToken c
    if c.peek == some ']' then return ([], c.advance 1)
    else
      let c ← if first then pure c
        else if c.peek == some ',' then flowToken (c.advance 1)
        else throw .form
      if c.peek == some ']' then return ([], c.advance 1)
      let (key, value, next) ← flowPair c fuel
      let item := match value with
        | some v => .mapping [(key, v)]
        | none => key
      let (more, last) ← flowItems false next fuel
      return (item :: more, last)
termination_by structural fuel => fuel

def flowEntries (first : Bool) (c : Cursor) : Nat → Read (List (Node × Node) × Cursor)
  | 0 => .error .form
  | fuel + 1 => do
    let c ← flowToken c
    if c.peek == some '\x7d' then return ([], c.advance 1)
    else
      let c ← if first then pure c
        else if c.peek == some ',' then flowToken (c.advance 1)
        else throw .form
      if c.peek == some '\x7d' then return ([], c.advance 1)
      let (key, value, next) ← flowPair c fuel
      let (more, last) ← flowEntries false next fuel
      return ((key, value.getD .empty) :: more, last)
termination_by structural fuel => fuel

end

/-- A text that is indented by more than a collection in the given column; the document as a whole
is in no column. -/
def below (parent : Option Nat) : Nat := parent.elim 0 (· + 1)

mutual

/-- The node at the cursor. Keys and items are read only where they may begin. -/
def blockNode (parent : Option Nat) (mayBegin : Bool) (c : Cursor) : Nat → Read (Node × Cursor)
  | 0 => .error .form
  | fuel + 1 =>
    if atSign '-' c then
      if mayBegin then do
        let (items, next) ← blockItems c.column true c fuel
        return (.list items, next)
      else .error .form
    else if atSign '?' c then .error .form
    else if c.peek == some '|' || c.peek == some '>' then do
      let (text, next) ← blockScalar (c.peek == some '>') (below parent) c
      return (.quoted text, next.toToken)
    else do
      let (node, next) ← flowNode false (below parent) c (flowFuel c)
      let next := next.toToken
      if atColon false c.line next then
        if mayBegin then
          let (value, last) ← blockValue c.column (next.advance 1) fuel
          let (more, last) ← blockEntries c.column last fuel
          return (.mapping ((node, value) :: more), last)
        else .error .form
      else return (node, next)
termination_by structural fuel => fuel

/-- The value behind a colon of a mapping in the given column, and the next token behind it. A list
may stand in the column of its mapping. -/
def blockValue (column : Nat) (c : Cursor) : Nat → Read (Node × Cursor)
  | 0 => .error .form
  | fuel + 1 =>
    let next := c.toToken
    if next.atEnd then .ok (.empty, next)
    else if next.line == c.line then blockNode (some column) false next fuel
    else if column < next.column then blockNode (some column) true next fuel
    else if next.column == column && atSign '-' next then do
      let (items, last) ← blockItems column false next fuel
      return (.list items, last)
    else .ok (.empty, next)
termination_by structural fuel => fuel

def blockEntries (column : Nat) (c : Cursor) : Nat → Read (List (Node × Node) × Cursor)
  | 0 => .error .form
  | fuel + 1 =>
    if c.atEnd || c.column < column then .ok ([], c)
    else if c.column == column && !atSign '-' c && !atSign '?' c then do
      let (key, next) ← flowNode false (column + 1) c (flowFuel c)
      let next := next.toToken
      if atColon false c.line next then
        let (value, last) ← blockValue column (next.advance 1) fuel
        let (more, last) ← blockEntries column last fuel
        return ((key, value) :: more, last)
      else throw .form
    else .error .form
termination_by structural fuel => fuel

/-- The items of a list in the given column, at whose first dash the cursor is. A list that is not
indented itself ends before any other token of its column. -/
def blockItems (column : Nat) (indented : Bool) (c : Cursor) : Nat → Read (List Node × Cursor)
  | 0 => .error .form
  | fuel + 1 =>
    if c.atEnd || c.column < column then .ok ([], c)
    else if c.column == column && atSign '-' c then do
      let (item, next) ← blockItem column (c.advance 1) fuel
      let (more, last) ← blockItems column indented next fuel
      return (item :: more, last)
    else if c.column == column && !indented then .ok ([], c)
    else .error .form
termination_by structural fuel => fuel

def blockItem (column : Nat) (c : Cursor) : Nat → Read (Node × Cursor)
  | 0 => .error .form
  | fuel + 1 =>
    let next := c.toToken
    if next.atEnd then .ok (.empty, next)
    else if next.line == c.line || column < next.column then
      blockNode (some column) true next fuel
    else .ok (.empty, next)
termination_by structural fuel => fuel

end

def rootNode (c : Cursor) : Read (Node × Cursor) :=
  let fuel := 4 * c.rest.length + 20
  let first := c.toToken
  if first.atMark "---" then
    let next := (first.advance 3).toToken
    if next.atEnd then .ok (.empty, next) else blockNode none (next.line != first.line) next fuel
  else if first.rest.isEmpty then .ok (.empty, first)
  else if first.atEnd then .error .form
  else blockNode none true first fuel

/-- The text behind a document may hold marks of its end and nothing else. -/
def isOver (c : Cursor) : Nat → Bool
  | 0 => false
  | fuel + 1 =>
    let c := c.toToken
    c.rest.isEmpty || (c.atMark "..." && isOver (c.advance 3) fuel)

def read (s : String) : Read Value := do
  let text := match s.toList with
    | '\uFEFF' :: rest => rest
    | cs => cs
  if !text.all isAllowed then throw .form
  let (node, last) ← rootNode (.start text)
  if isOver last (last.rest.length + 1) then node.toValue else throw .form

end OpenApi.Yaml
