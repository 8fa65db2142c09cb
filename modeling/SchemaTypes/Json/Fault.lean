import SchemaTypes.Json.Shape
import SchemaTypes.Text.Utf8

/-!
# Faults in JSON texts

A reader takes the text that is left and gives a value with the text left after
it.  Where it stops for a fault it says what the problem is and in front of which
text, so that the place of the fault can be counted in the whole text.
-/

namespace SchemaTypes

inductive Problem where
  | endInValue
  | endInList
  | endInObject
  | endInString
  | expectedColon
  | expectedCommaOrBracket
  | expectedCommaOrBrace
  | expectedWord
  | expectedValue
  | keyNotString
  | invalidNumber
  | numberOutOfRange
  | invalidEscape
  | loneSurrogate
  | unfinishedSurrogate
  | controlCharacter
  | trailingComma
  | trailingCharacters
  | tooDeep
  /-- The value is none of the kind that is read. -/
  | shape (fault : ShapeFault)
  deriving DecidableEq, Repr, Inhabited

namespace Problem

def message : Problem -> String
  | endInValue => "EOF while parsing a value"
  | endInList => "EOF while parsing a list"
  | endInObject => "EOF while parsing an object"
  | endInString => "EOF while parsing a string"
  | expectedColon => "expected `:`"
  | expectedCommaOrBracket => "expected `,` or `]`"
  | expectedCommaOrBrace => "expected `,` or `\x7d`"
  | expectedWord => "expected ident"
  | expectedValue => "expected value"
  | keyNotString => "key must be a string"
  | invalidNumber => "invalid number"
  | numberOutOfRange => "number out of range"
  | invalidEscape => "invalid escape"
  | loneSurrogate => "lone leading surrogate in hex escape"
  | unfinishedSurrogate => "unexpected end of hex escape"
  | controlCharacter => "control character (\\u0000-\\u001F) found while parsing a string"
  | trailingComma => "trailing comma"
  | trailingCharacters => "trailing characters"
  | tooDeep => "recursion limit exceeded"
  | shape fault => fault.message

end Problem

/-!
## Places

A place is counted in bytes: the line, and the bytes of it that come before the
place.
-/

structure Position where
  line : Nat
  column : Nat
  deriving DecidableEq, Repr, Inhabited

namespace Position

def step (p : Position) (b : UInt8) : Position :=
  if b = 10 then ⟨p.line + 1, 0⟩ else ⟨p.line, p.column + 1⟩

def behind (bytes : List UInt8) : Position :=
  bytes.foldl step ⟨1, 0⟩

end Position

/-- A problem that lies so many bytes into the text that was left. -/
structure Fault where
  problem : Problem
  rest : List Char
  ahead : Nat
  deriving DecidableEq, Repr, Inhabited

structure SyntaxError where
  problem : Problem
  position : Position
  deriving DecidableEq, Repr, Inhabited

namespace SyntaxError

def message (e : SyntaxError) : String :=
  e.problem.message ++ " at line " ++ toString e.position.line ++ " column " ++
    toString e.position.column

end SyntaxError

namespace Fault

/-- The fault with its place in the whole text, of which it has the end. -/
def locate (text : List Char) (fault : Fault) : SyntaxError :=
  let bytes := Text.encode text
  let read := bytes.length - Text.byteLength fault.rest + fault.ahead
  ⟨fault.problem, Position.behind (bytes.take read)⟩

end Fault

/-!
## Readers
-/

/-- A reader of values at the start of the text that is left. -/
abbrev Reader (α : Type) := List Char -> Except Fault (α × List Char)

namespace Reader

/-- The problem lies in front of the text that is left. -/
def failBefore {α : Type} (problem : Problem) (rest : List Char) : Except Fault α :=
  .error ⟨problem, rest, 0⟩

/-- The problem is the next byte of the text that is left, if there is one. -/
def failAt {α : Type} (problem : Problem) (rest : List Char) : Except Fault α :=
  .error ⟨problem, rest, 1⟩

end Reader

end SchemaTypes
