/-!
# Blank characters

Texts are lists of characters here.  A character is blank when it has the
Unicode property `White_Space`; trimming, splitting into words and collapsing
runs of blanks are all defined from that one class.
-/

namespace SchemaTypes
namespace Text

/-- The characters with the Unicode property `White_Space`. -/
def isBlank (c : Char) : Bool :=
  let n := c.toNat
  (9 ≤ n && n ≤ 13) || n == 0x20 || n == 0x85 || n == 0xA0 || n == 0x1680 ||
    (0x2000 ≤ n && n ≤ 0x200A) || n == 0x2028 || n == 0x2029 || n == 0x202F ||
    n == 0x205F || n == 0x3000

/-!
## Trimming

Only the two ends of a text lose their blanks; the blanks between the first
and the last visible character stay.
-/

def trimStart (s : List Char) : List Char :=
  s.dropWhile isBlank

def trimEnd (s : List Char) : List Char :=
  (s.reverse.dropWhile isBlank).reverse

def trim (s : List Char) : List Char :=
  trimEnd (trimStart s)

/-- A text is blank when no character of it is visible. -/
def allBlank (s : List Char) : Bool :=
  s.all isBlank

/-!
## Words

The words of a text are its maximal runs of visible characters.
-/

/-- The words of a text whose current word, read so far, is `word` in reverse. -/
def wordsFrom (word : List Char) : List Char -> List (List Char)
  | [] => if word.isEmpty then [] else [word.reverse]
  | c :: rest =>
      if isBlank c then
        if word.isEmpty then wordsFrom [] rest else word.reverse :: wordsFrom [] rest
      else
        wordsFrom (c :: word) rest

def words (s : List Char) : List (List Char) :=
  wordsFrom [] s

/-- Texts set one after the other with a separator between neighbours. -/
def joinWith (separator : List Char) : List (List Char) -> List Char
  | [] => []
  | [s] => s
  | s :: rest => s ++ separator ++ joinWith separator rest

/-- Every run of blanks becomes one space, and none is left at the ends. -/
def collapse (s : List Char) : List Char :=
  joinWith [' '] (words s)

/-!
## Lines

A line feed ends a line.  A carriage return directly before it belongs to the
line ending and not to the line.
-/

def lineFeeds (s : List Char) : Nat :=
  s.count '\n'

/-- Every carriage return directly before a line feed is dropped. -/
def normalizeLines : List Char -> List Char
  | [] => []
  | '\r' :: '\n' :: rest => '\n' :: normalizeLines rest
  | c :: rest => c :: normalizeLines rest

/-- Every line feed is given a carriage return. -/
def carriageReturns : List Char -> List Char
  | [] => []
  | c :: rest => if c = '\n' then '\r' :: '\n' :: carriageReturns rest else c :: carriageReturns rest

/-- Whether the first line ending of the text is a carriage return with a line feed. -/
def firstEndingIsPair : List Char -> Bool
  | [] => false
  | '\n' :: _ => false
  | '\r' :: '\n' :: _ => true
  | _ :: rest => firstEndingIsPair rest

end Text
end SchemaTypes
