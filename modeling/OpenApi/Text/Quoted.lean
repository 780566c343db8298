import OpenApi.Text.Printable
/-! # Quoted text

A text inside the text of a larger value stands between quotes. Single quotes are used unless
the text holds one and no double quote. The quote in use and the backslash are written with a
backslash, and so is what cannot be printed: tab, line feed and carriage return by a letter, all
else by its code point in two, four or eight hexadecimal digits.
-/
namespace OpenApi.Text

def hexDigits (width n : Nat) : List Char :=
  let ds := Nat.toDigits 16 n
  List.replicate (width - ds.length) '0' ++ ds

def quoteFor (hasSingle hasDouble : Bool) : Char := if hasSingle && !hasDouble then '"' else '\''

def escapeByCode (n : Nat) : List Char :=
  if n < 0x100 then '\\' :: 'x' :: hexDigits 2 n
  else if n < 0x10000 then '\\' :: 'u' :: hexDigits 4 n
  else '\\' :: 'U' :: hexDigits 8 n

def quoteChar (quote c : Char) : List Char :=
  if c == quote || c == '\\' then ['\\', c]
  else if c == '\t' then ['\\', 't']
  else if c == '\n' then ['\\', 'n']
  else if c == '\r' then ['\\', 'r']
  else if isPrintable c then [c]
  else escapeByCode c.toNat

def quoted (s : String) : String :=
  let cs := s.toList
  let quote := quoteFor (cs.contains '\'') (cs.contains '"')
  String.ofList (quote :: cs.flatMap (quoteChar quote) ++ [quote])

def quoteByte (quote : Char) (b : UInt8) : List Char :=
  let c := Char.ofNat b.toNat
  if b.toNat < 0x7F then quoteChar quote c else escapeByCode b.toNat

/-- Bytes are quoted like the characters of their codes, those beyond ASCII by number. -/
def quotedBytes (bytes : List UInt8) : String :=
  let quote := quoteFor (bytes.contains 39) (bytes.contains 34)
  String.ofList ('b' :: quote :: bytes.flatMap (quoteByte quote) ++ [quote])

end OpenApi.Text
