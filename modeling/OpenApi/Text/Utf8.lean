/-! # UTF-8

Characters as one to four bytes. Reading goes through the bytes from the front: a well-formed
sequence is a character, and the longest start of one that is not well-formed is a fault.
-/
namespace OpenApi.Text

def byte (n : Nat) : UInt8 := UInt8.ofNat n

def encodeChar (c : Char) : List UInt8 :=
  let n := c.toNat
  if n < 0x80 then [byte n]
  else if n < 0x800 then [byte (0xC0 + n / 0x40), byte (0x80 + n % 0x40)]
  else if n < 0x10000 then
    [byte (0xE0 + n / 0x1000), byte (0x80 + n / 0x40 % 0x40), byte (0x80 + n % 0x40)]
  else
    [byte (0xF0 + n / 0x40000), byte (0x80 + n / 0x1000 % 0x40), byte (0x80 + n / 0x40 % 0x40),
      byte (0x80 + n % 0x40)]

def encode (s : String) : List UInt8 := s.toList.flatMap encodeChar

inductive Utf8Problem where
  | startByte | continuationByte | endOfData
  deriving DecidableEq, Repr

def Utf8Problem.message : Utf8Problem → String
  | startByte => "invalid start byte"
  | continuationByte => "invalid continuation byte"
  | endOfData => "unexpected end of data"

/-- What stands at the front of some bytes: a character of so many bytes, or so many bytes that
are the start of none. -/
inductive Front where
  | char (c : Char) (width : Nat)
  | fault (problem : Utf8Problem) (width : Nat)

def isTail (b : Nat) : Bool := 0x80 ≤ b && b < 0xC0

/-- What a first byte asks for: how many more bytes, its own part of the code point, and the
bounds of the second byte. -/
def lead? (b : Nat) : Option (Nat × Nat × Nat × Nat) :=
  if b < 0xC2 then none
  else if b < 0xE0 then some (1, b - 0xC0, 0x80, 0xBF)
  else if b == 0xE0 then some (2, 0, 0xA0, 0xBF)
  else if b == 0xED then some (2, 0xD, 0x80, 0x9F)
  else if b < 0xF0 then some (2, b - 0xE0, 0x80, 0xBF)
  else if b == 0xF0 then some (3, 0, 0x90, 0xBF)
  else if b < 0xF4 then some (3, b - 0xF0, 0x80, 0xBF)
  else if b == 0xF4 then some (3, 4, 0x80, 0x8F)
  else none

def tails : Nat → Nat → Nat → List UInt8 → Front
  | 0, width, n, _ => .char (Char.ofNat n) width
  | _ + 1, width, _, [] => .fault .endOfData width
  | more + 1, width, n, b :: rest =>
    if isTail b.toNat then tails more (width + 1) (n * 0x40 + (b.toNat - 0x80)) rest
    else .fault .continuationByte width

def front (first : UInt8) (rest : List UInt8) : Front :=
  if first.toNat < 0x80 then .char (Char.ofNat first.toNat) 1
  else match lead? first.toNat with
    | none => .fault .startByte 1
    | some (more, n, low, high) =>
      match rest with
      | [] => .fault .endOfData 1
      | second :: after =>
        if low ≤ second.toNat && second.toNat ≤ high then
          tails (more - 1) 2 (n * 0x40 + (second.toNat - 0x80)) after
        else .fault .continuationByte 1

/-- Every fault becomes one replacement character. -/
def decodeLossy : Nat → List UInt8 → List Char
  | 0, _ => []
  | _ + 1, [] => []
  | fuel + 1, b :: rest =>
    match front b rest with
    | .char c width => c :: decodeLossy fuel ((b :: rest).drop width)
    | .fault _ width => '\uFFFD' :: decodeLossy fuel ((b :: rest).drop width)

def decodeReplacing (bytes : List UInt8) : List Char := decodeLossy bytes.length bytes

structure Utf8Fault where
  bytes : List UInt8
  start : Nat
  problem : Utf8Problem
  deriving DecidableEq, Repr

def hex2 (n : Nat) : String :=
  let ds := Nat.toDigits 16 n
  String.ofList (List.replicate (2 - ds.length) '0' ++ ds)

def Utf8Fault.message (f : Utf8Fault) : String :=
  let place := match f.bytes with
    | [b] => "byte 0x" ++ hex2 b.toNat ++ " in position " ++ toString f.start
    | bs => "bytes in position " ++ toString f.start ++ "-" ++ toString (f.start + bs.length - 1)
  "'utf-8' codec can't decode " ++ place ++ ": " ++ f.problem.message

def decodeFrom (start : Nat) : Nat → List UInt8 → Except Utf8Fault (List Char)
  | 0, _ => .ok []
  | _ + 1, [] => .ok []
  | fuel + 1, b :: rest =>
    match front b rest with
    | .char c width => (decodeFrom (start + width) fuel ((b :: rest).drop width)).map (c :: ·)
    | .fault problem width => .error ⟨(b :: rest).take width, start, problem⟩

def decode (bytes : List UInt8) : Except Utf8Fault String :=
  (decodeFrom 0 bytes.length bytes).map String.ofList

end OpenApi.Text
