import SchemaTypes.Json.Fault

/-!
# Words and texts in JSON

The readers of the parts below values: blanks, the three words, and texts with
their escapes.
-/

namespace SchemaTypes
namespace Reader

/-!
## Blanks and words
-/

def isBlank (c : Char) : Bool :=
  c == ' ' || c == '\n' || c == '\t' || c == '\r'

def skipBlanks (s : List Char) : List Char :=
  s.dropWhile isBlank

def word : List Char -> List Char -> Except Fault (List Char)
  | [], s => .ok s
  | _ :: _, [] => failBefore .endInValue []
  | w :: more, c :: rest => if c = w then word more rest else failAt .expectedWord (c :: rest)

/-!
## Escapes

An escape by number has four hexadecimal digits.  A character beyond them takes two
such escapes, a leading surrogate and a trailing one.
-/

def hexDigit? (c : Char) : Option Nat :=
  if '0' ≤ c ∧ c ≤ '9' then some (c.toNat - '0'.toNat)
  else if 'a' ≤ c ∧ c ≤ 'f' then some (c.toNat - 'a'.toNat + 10)
  else if 'A' ≤ c ∧ c ≤ 'F' then some (c.toNat - 'A'.toNat + 10)
  else none

def hexNumber? (digits : List Char) : Option Nat :=
  digits.foldl (fun n? c => do return 16 * (← n?) + (← hexDigit? c)) (some 0)

/-- A number of four hexadecimal digits.  Four bytes are taken for them at once. -/
def fourDigits (s : List Char) : Except Fault (Nat × List Char) :=
  if Text.byteLength (s.take 4) < 4 then
    failBefore .endInString []
  else
    match hexNumber? (s.take 4) with
    | some n => .ok (n, s.drop 4)
    | none => .error ⟨.invalidEscape, s, 4⟩

def isLeadingSurrogate (n : Nat) : Bool :=
  0xD800 ≤ n && n ≤ 0xDBFF

def isTrailingSurrogate (n : Nat) : Bool :=
  0xDC00 ≤ n && n ≤ 0xDFFF

/-- The character whose leading surrogate is `n`, read from its second escape. -/
def trailingSurrogate (n : Nat) : List Char -> Except Fault (Char × List Char)
  | [] => failBefore .endInString []
  | ['\\'] => failBefore .endInString []
  | '\\' :: 'u' :: rest => do
      let (m, rest) ← fourDigits rest
      if isTrailingSurrogate m then
        .ok (Char.ofNat (0x10000 + (n - 0xD800) * 0x400 + (m - 0xDC00)), rest)
      else
        failBefore .loneSurrogate rest
  | '\\' :: rest => failAt .unfinishedSurrogate rest
  | rest => failAt .unfinishedSurrogate rest

def numbered (s : List Char) : Except Fault (Char × List Char) := do
  let (n, rest) ← fourDigits s
  if isTrailingSurrogate n then failBefore .loneSurrogate rest
  else if isLeadingSurrogate n then trailingSurrogate n rest
  else .ok (Char.ofNat n, rest)

def lettered? : Char -> Option Char
  | '"' => some '"'
  | '\\' => some '\\'
  | '/' => some '/'
  | 'b' => some '\x08'
  | 'f' => some '\x0c'
  | 'n' => some '\n'
  | 'r' => some '\r'
  | 't' => some '\t'
  | _ => none

/-- The character of an escape, read after its backslash. -/
def escape : Reader Char
  | [] => failBefore .endInString []
  | 'u' :: rest => numbered rest
  | c :: rest =>
      match lettered? c with
      | some d => .ok (d, rest)
      | none => failAt .invalidEscape (c :: rest)

/-!
## Texts
-/

/-- A text of at most so many characters and escapes, read after its first quote. -/
def text : Nat -> Reader (List Char)
  | 0, _ => failBefore .endInString []
  | _ + 1, [] => failBefore .endInString []
  | _ + 1, '"' :: rest => .ok ([], rest)
  | steps + 1, '\\' :: rest => do
      let (c, rest) ← escape rest
      let (s, rest) ← text steps rest
      .ok (c :: s, rest)
  | steps + 1, c :: rest =>
      if c.toNat < 0x20 then
        failAt .controlCharacter (c :: rest)
      else do
        let (s, rest) ← text steps rest
        .ok (c :: s, rest)

end Reader
end SchemaTypes
