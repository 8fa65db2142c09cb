/-!
# UTF-8

Files and streams hold bytes, and texts are encoded in them as UTF-8.  A sequence
of bytes is cut into pieces, each of them one encoded character or the longest
start of one that the next byte breaks off.  A sequence is well formed when all
of its pieces are characters.
-/

namespace SchemaTypes
namespace Text

/-!
## Encoding
-/

def encodeChar (c : Char) : List UInt8 :=
  let n := c.toNat
  if n < 0x80 then
    [UInt8.ofNat n]
  else if n < 0x800 then
    [UInt8.ofNat (0xC0 + n / 0x40), UInt8.ofNat (0x80 + n % 0x40)]
  else if n < 0x10000 then
    [UInt8.ofNat (0xE0 + n / 0x1000), UInt8.ofNat (0x80 + n / 0x40 % 0x40),
      UInt8.ofNat (0x80 + n % 0x40)]
  else
    [UInt8.ofNat (0xF0 + n / 0x40000), UInt8.ofNat (0x80 + n / 0x1000 % 0x40),
      UInt8.ofNat (0x80 + n / 0x40 % 0x40), UInt8.ofNat (0x80 + n % 0x40)]

def encode (s : List Char) : List UInt8 :=
  s.flatMap encodeChar

def byteLength (s : List Char) : Nat :=
  (encode s).length

/-!
## Pieces

The first byte of a character fixes how many bytes follow it, and for some first
bytes the range of the second one is narrower than that of the others.
-/

/-- The number of bytes after the first one, nothing if no character starts so. -/
def followers? (first : Nat) : Option Nat :=
  if first < 0x80 then some 0
  else if 0xC2 ≤ first && first ≤ 0xDF then some 1
  else if 0xE0 ≤ first && first ≤ 0xEF then some 2
  else if 0xF0 ≤ first && first ≤ 0xF4 then some 3
  else none

def isSecond (first second : Nat) : Bool :=
  let low := if first = 0xE0 then 0xA0 else if first = 0xF0 then 0x90 else 0x80
  let high := if first = 0xED then 0x9F else if first = 0xF4 then 0x8F else 0xBF
  low ≤ second && second ≤ high

/-- The bytes that may come third or fourth. -/
def isTail (b : Nat) : Bool :=
  0x80 ≤ b && b ≤ 0xBF

inductive Piece where
  | char (c : Char)
  /-- So many bytes start no character. -/
  | invalid (length : Nat)
  /-- The sequence ends inside a character. -/
  | incomplete
  deriving DecidableEq, Repr, Inhabited

def pieces : List UInt8 -> List Piece
  | [] => []
  | a :: rest =>
      match followers? a.toNat with
      | none => .invalid 1 :: pieces rest
      | some 0 => .char (Char.ofNat a.toNat) :: pieces rest
      | some n =>
          match rest with
          | [] => [.incomplete]
          | b :: rest =>
              if !isSecond a.toNat b.toNat then .invalid 1 :: pieces (b :: rest)
              else if n = 1 then
                .char (Char.ofNat (a.toNat % 0x20 * 0x40 + b.toNat % 0x40)) :: pieces rest
              else
                match rest with
                | [] => [.incomplete]
                | c :: rest =>
                    if !isTail c.toNat then .invalid 2 :: pieces (c :: rest)
                    else if n = 2 then
                      .char (Char.ofNat (a.toNat % 0x10 * 0x1000 + b.toNat % 0x40 * 0x40 +
                        c.toNat % 0x40)) :: pieces rest
                    else
                      match rest with
                      | [] => [.incomplete]
                      | d :: rest =>
                          if !isTail d.toNat then .invalid 3 :: pieces (d :: rest)
                          else
                            .char (Char.ofNat (a.toNat % 8 * 0x40000 + b.toNat % 0x40 * 0x1000 +
                              c.toNat % 0x40 * 0x40 + d.toNat % 0x40)) :: pieces rest

/-!
## Decoding
-/

/-- The first piece that is no character, with the number of bytes before it. -/
structure Utf8Error where
  index : Nat
  /-- The length of the piece, nothing if the sequence ends in it. -/
  length : Option Nat
  deriving DecidableEq, Repr, Inhabited

namespace Utf8Error

def message (e : Utf8Error) : String :=
  match e.length with
  | some n =>
      "invalid utf-8 sequence of " ++ toString n ++ " bytes from index " ++ toString e.index
  | none => "incomplete utf-8 byte sequence from index " ++ toString e.index

end Utf8Error

/-- The characters of the pieces that follow `index` bytes. -/
def charsFrom (index : Nat) : List Piece -> Except Utf8Error (List Char)
  | [] => .ok []
  | .char c :: rest =>
      match charsFrom (index + (encodeChar c).length) rest with
      | .ok s => .ok (c :: s)
      | .error e => .error e
  | .invalid n :: _ => .error ⟨index, some n⟩
  | .incomplete :: _ => .error ⟨index, none⟩

def decode (bytes : List UInt8) : Except Utf8Error (List Char) :=
  charsFrom 0 (pieces bytes)

/-- The text of a sequence of bytes in which a replacement character stands for
every piece that is no character. -/
def decodeLossy (bytes : List UInt8) : List Char :=
  (pieces bytes).map fun
    | .char c => c
    | _ => Char.ofNat 0xFFFD

end Text
end SchemaTypes
