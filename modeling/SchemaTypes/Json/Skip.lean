import SchemaTypes.Json.Lexeme
import SchemaTypes.Json.Numeral

/-!
# Skipping JSON values

A value that nobody asks for is skipped: its brackets have to match and its
lexemes have to be well formed, but no depth is too great, no number is out of range
and surrogates need not come in pairs.
-/

namespace SchemaTypes
namespace Skip

open Reader
open Text (isDigit)

/-!
## Lexemes
-/

/-- The text after an escape, which starts after its backslash. -/
def escape : List Char -> Except Fault (List Char)
  | [] => failBefore .endInString []
  | 'u' :: rest => do
      let (_, rest) ← fourDigits rest
      .ok rest
  | c :: rest => if (lettered? c).isSome then .ok rest else failAt .invalidEscape (c :: rest)

/-- The text after a text of at most so many characters and escapes, which starts after
its first quote. -/
def text : Nat -> List Char -> Except Fault (List Char)
  | 0, _ => failBefore .endInString []
  | _ + 1, [] => failBefore .endInString []
  | _ + 1, '"' :: rest => .ok rest
  | steps + 1, '\\' :: rest => do
      let rest ← escape rest
      text steps rest
  | steps + 1, c :: rest =>
      if c.toNat < 0x20 then failBefore .controlCharacter (c :: rest) else text steps rest

def someDigits (s : List Char) : Except Fault (List Char) :=
  if startsWithDigit s then .ok (s.dropWhile isDigit) else failAt .invalidNumber s

/-- The text after an exponent, which starts after its letter. -/
def exponent : List Char -> Except Fault (List Char)
  | '+' :: rest => someDigits rest
  | '-' :: rest => someDigits rest
  | rest => someDigits rest

def afterFraction : List Char -> Except Fault (List Char)
  | 'e' :: rest => exponent rest
  | 'E' :: rest => exponent rest
  | rest => .ok rest

def afterWhole : List Char -> Except Fault (List Char)
  | '.' :: rest => do
      let rest ← someDigits rest
      afterFraction rest
  | rest => afterFraction rest

def numeral : List Char -> Except Fault (List Char)
  | '0' :: rest =>
      if startsWithDigit rest then failAt .invalidNumber rest else afterWhole rest
  | rest => do
      let rest ← someDigits rest
      afterWhole rest

/-!
## Values

The brackets that are open are kept in a list, the innermost first.
-/

inductive Bracket where
  | list
  | map
  deriving DecidableEq, Repr, Inhabited

/-- The text in front of the next value inside a bracket, after the key of the member
if the bracket is a map. -/
def beforeValue (steps : Nat) : Bracket -> List Char -> Except Fault (List Char)
  | .list, s => .ok s
  | .map, s =>
      match skipBlanks s with
      | [] => failBefore .endInObject []
      | '"' :: rest => do
          let rest ← text steps rest
          match skipBlanks rest with
          | [] => failBefore .endInObject []
          | ':' :: rest => .ok rest
          | rest => failAt .expectedColon rest
      | rest => failAt .keyNotString rest

mutual

def value : Nat -> List Bracket -> List Char -> Except Fault (List Char)
  | 0, _, s => failBefore .endInValue s
  | steps + 1, opened, s =>
      match skipBlanks s with
      | [] => failBefore .endInValue []
      | 'n' :: rest => do
          let rest ← word "ull".toList rest
          closing steps opened rest
      | 't' :: rest => do
          let rest ← word "rue".toList rest
          closing steps opened rest
      | 'f' :: rest => do
          let rest ← word "alse".toList rest
          closing steps opened rest
      | '-' :: rest => do
          let rest ← numeral rest
          closing steps opened rest
      | '"' :: rest => do
          let rest ← text (steps + 1) rest
          closing steps opened rest
      | '[' :: rest =>
          match skipBlanks rest with
          | [] => failBefore .endInList []
          | ']' :: rest => closing steps opened rest
          | rest => value steps (.list :: opened) rest
      | '\x7b' :: rest =>
          match skipBlanks rest with
          | [] => failBefore .endInObject []
          | '\x7d' :: rest => closing steps opened rest
          | rest => do
              let rest ← beforeValue (steps + 1) .map rest
              value steps (.map :: opened) rest
      | rest =>
          if startsWithDigit rest then do
            let rest ← numeral rest
            closing steps opened rest
          else
            failAt .expectedValue rest

def closing : Nat -> List Bracket -> List Char -> Except Fault (List Char)
  | _, [], s => .ok s
  | 0, _, s => failBefore .endInValue s
  | steps + 1, .list :: opened, s =>
      match skipBlanks s with
      | [] => failBefore .endInList []
      | ',' :: rest => value steps (.list :: opened) rest
      | ']' :: rest => closing steps opened rest
      | rest => failAt .expectedCommaOrBracket rest
  | steps + 1, .map :: opened, s =>
      match skipBlanks s with
      | [] => failBefore .endInObject []
      | ',' :: rest => do
          let rest ← beforeValue (steps + 1) .map rest
          value steps (.map :: opened) rest
      | '\x7d' :: rest => closing steps opened rest
      | rest => failAt .expectedCommaOrBrace rest

end

/-- The text after a value, if at most so many characters are left. -/
def skip (length : Nat) (s : List Char) : Except Fault (List Char) :=
  value (2 * length + 1) [] s

end Skip
end SchemaTypes
