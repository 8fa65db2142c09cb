/-!
# Character classes of the language

Blanks between tokens, the characters of identifiers, and digits.  The blanks
are not the characters with the property `White_Space`: U+0085 is no blank here
but part of an identifier, while U+200B, U+2060 and U+FEFF are blanks.
-/

namespace SchemaTypes
namespace TypeScript

def isSpaceSeparator (c : Char) : Bool :=
  let n := c.toNat
  n == 0x20 || n == 0xA0 || n == 0x1680 || (0x2000 ≤ n && n ≤ 0x200A) || n == 0x202F ||
    n == 0x205F || n == 0x3000

def isGap (c : Char) : Bool :=
  let n := c.toNat
  (9 ≤ n && n ≤ 13) || isSpaceSeparator c || n == 0xFEFF || n == 0x2028 || n == 0x2029 ||
    n == 0x2060 || n == 0x200B

/-- The blanks of ASCII, the only ones that are passed over in search of the
end of a statement. -/
def isPlainBlank (c : Char) : Bool :=
  let n := c.toNat
  (9 ≤ n && n ≤ 13) || n == 0x20

/-- The characters that end a comment opened by two slashes. -/
def endsLineComment (c : Char) : Bool :=
  c == '\n' || c == '\r' || c.toNat == 0x2028 || c.toNat == 0x2029

def isDigit (c : Char) : Bool :=
  '0' ≤ c && c ≤ '9'

def isOctalDigit (c : Char) : Bool :=
  '0' ≤ c && c ≤ '7'

def isHexDigit (c : Char) : Bool :=
  isDigit c || ('a' ≤ c && c ≤ 'f') || ('A' ≤ c && c ≤ 'F')

def isLetter (c : Char) : Bool :=
  ('a' ≤ c && c ≤ 'z') || ('A' ≤ c && c ≤ 'Z')

/-- The characters that end an identifier, digits apart. -/
def isReservedMark (c : Char) : Bool :=
  (":;`\"'@#.,|^&<=>+-*/\\%?!~()[]\x7b\x7d".toList).contains c

def isNameStart (c : Char) : Bool :=
  0x20 ≤ c.toNat && !isGap c && !isDigit c && !isReservedMark c

def isNamePart (c : Char) : Bool :=
  isNameStart c || isDigit c

end TypeScript
end SchemaTypes
