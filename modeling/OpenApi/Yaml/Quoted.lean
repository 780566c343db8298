import OpenApi.Yaml.Plain
/-! # Quoted scalars

In single quotes only the quote itself is special, and it is written twice. In double quotes a
backslash introduces an escape, or joins two lines. In both a line break counts as a space.
-/
namespace OpenApi.Yaml

def escapes : List (Char × Char) := [
  ('0', '\x00'), ('a', '\x07'), ('b', '\x08'), ('t', '\t'), ('\t', '\t'), ('n', '\n'),
  ('v', '\x0b'), ('f', '\x0c'), ('r', '\r'), ('e', '\x1b'), (' ', ' '), ('"', '"'), ('\\', '\\'),
  ('/', '/'), ('N', '\u0085'), ('_', '\u00a0'), ('L', '\u2028'), ('P', '\u2029')]

def hexLength? : Char → Option Nat
  | 'x' => some 2
  | 'u' => some 4
  | 'U' => some 8
  | _ => none

def hexDigit? (c : Char) : Option Nat :=
  if c.isDigit then some (c.toNat - 48)
  else if 'a' ≤ c ∧ c ≤ 'f' then some (c.toNat - 87)
  else if 'A' ≤ c ∧ c ≤ 'F' then some (c.toNat - 55)
  else none

/-- The character of a code. Half a surrogate pair becomes the replacement character. -/
def charOfCode (n : Nat) : Read Char :=
  if 0x10FFFF < n then .error .value
  else if 0xD800 ≤ n && n ≤ 0xDFFF then .ok '\uFFFD'
  else .ok (Char.ofNat n)

def hexCode (digits : List Char) (length : Nat) : Read Char :=
  match (digits.take length).mapM hexDigit? with
  | some ds =>
    if ds.length = length then charOfCode (ds.foldl (fun n d => 16 * n + d) 0) else .error .form
  | none => .error .form

/-- The empty lines inside quotes. A mark must not stand there. -/
def quotedLines (c : Cursor) : Nat → Read (List Char × Cursor)
  | 0 => .error .form
  | fuel + 1 =>
    if c.atMark "---" || c.atMark "..." then .error .form
    else
      let c := c.advance (c.rest.takeWhile fun d => d == ' ' || d == '\t').length
      match c.lineBreak? with
      | none => .ok ([], c)
      | some (b, next) => do
        let (more, last) ← quotedLines next fuel
        return (b :: more, last)

/-- A backslash has been read. -/
def escaped (c : Cursor) : Read (List Char × Cursor) :=
  match c.rest with
  | [] => .error .form
  | e :: rest =>
    match escapes.lookup e, hexLength? e with
    | some d, _ => .ok ([d], c.advance 1)
    | none, some n => do return ([← hexCode rest n], c.advance (n + 1))
    | none, none =>
      match c.lineBreak? with
      | some (_, next) => quotedLines next (next.rest.length + 1)
      | none => .error .form

def quotedGap (c : Cursor) : Read (List Char × Cursor) :=
  let blanks := c.rest.takeWhile fun d => d == ' ' || d == '\t'
  let next := c.advance blanks.length
  match next.lineBreak? with
  | none => .ok (blanks, next)
  | some (b, next) => do
    let (empty, last) ← quotedLines next (next.rest.length + 1)
    return (folded b empty, last)

/-- The rest of a scalar in the given quotes, whose text so far is given backwards. -/
def quotedFrom (quote : Char) (done : List Char) (c : Cursor) : Nat → Read (List Char × Cursor)
  | 0 => .error .form
  | fuel + 1 =>
    match c.rest with
    | [] => .error .form
    | d :: rest =>
      if d == quote then
        if quote == '\'' && rest.head? == some '\'' then
          quotedFrom quote ('\'' :: done) (c.advance 2) fuel
        else .ok (done.reverse, c.advance 1)
      else if d == '\\' && quote == '"' then do
        let (text, next) ← escaped (c.advance 1)
        quotedFrom quote (text.reverse ++ done) next fuel
      else if isWhite d then do
        let (text, next) ← quotedGap c
        quotedFrom quote (text.reverse ++ done) next fuel
      else quotedFrom quote (d :: done) (c.advance 1) fuel

def quotedScalar (quote : Char) (c : Cursor) : Read (List Char × Cursor) :=
  quotedFrom quote [] (c.advance 1) (c.rest.length + 1)

end OpenApi.Yaml
