import SchemaTypes.Json.Fault
import SchemaTypes.Text.Word

/-!
# Numerals in JSON

A numeral is read into a significand below `2 ^ 64` and a power of ten.  Digits
before the point for which the significand has no room raise the power; digits
behind it are dropped.  A numeral without point, exponent or dropped digits is an
integer, unless it is a negative zero or less than `-2 ^ 63`.
-/

namespace SchemaTypes
namespace Reader

open Text (isDigit digit)

/-!
## Digits
-/

def startsWithDigit : List Char -> Bool
  | c :: _ => isDigit c
  | [] => false

def significandBound : Nat := 1 <<< 64

/-- A significand with digits added to it as long as there is room, with the number
of digits added and the text left. -/
def significandFrom (n : Nat) : List Char -> Nat × Nat × List Char
  | [] => (n, 0, [])
  | c :: rest =>
      if isDigit c && 10 * n + digit c < significandBound then
        let (m, count, left) := significandFrom (10 * n + digit c) rest
        (m, count + 1, left)
      else
        (n, 0, c :: rest)

/-!
## Fractions and exponents
-/

/-- The number of a significand and a power of ten, read up to the text left. -/
def scaled (negative : Bool) (n : Nat) (e : Int) (left : List Char) :
    Except Fault (Number × List Char) :=
  match Decimal.Binary64.ofParts? negative n e with
  | some x => .ok (.float x, left)
  | none => failBefore .numberOutOfRange left

def exponentBound : Nat := (1 <<< 31) - 1

/-- The digits of an exponent after the first ones, which give `e`.  No exponent is
given back if it passes the bound, with the text after the digit that passes it. -/
def exponentFrom (e : Nat) : List Char -> Option Nat × List Char
  | [] => (some e, [])
  | c :: rest =>
      if !isDigit c then (some e, c :: rest)
      else if exponentBound < 10 * e + digit c then (none, rest)
      else exponentFrom (10 * e + digit c) rest

def exponent (negative : Bool) (n : Nat) (e : Int) (s : List Char) :
    Except Fault (Number × List Char) :=
  let (down, s) :=
    match s with
    | '+' :: rest => (false, rest)
    | '-' :: rest => (true, rest)
    | rest => (false, rest)
  match s with
  | [] => failBefore .endInValue []
  | c :: rest =>
      if !isDigit c then failAt .invalidNumber (c :: rest)
      else
        match exponentFrom (digit c) rest with
        | (some m, left) => scaled negative n (if down then e - m else e + m) left
        | (none, left) =>
            if n ≠ 0 && !down then failBefore .numberOutOfRange left
            else scaled negative 0 0 (left.dropWhile isDigit)

/-- The number with a significand and a power of ten, up to which it is read. -/
def afterDigits (negative : Bool) (n : Nat) (e : Int) (s : List Char) :
    Except Fault (Number × List Char) :=
  match s with
  | 'e' :: rest => exponent negative n e rest
  | 'E' :: rest => exponent negative n e rest
  | left => scaled negative n e left

/-- The number with digits behind the point, read after the point. -/
def fraction (negative : Bool) (n : Nat) (e : Int) (s : List Char) :
    Except Fault (Number × List Char) :=
  let (m, count, left) := significandFrom n s
  if startsWithDigit left then
    afterDigits negative m (e - count) (left.dropWhile isDigit)
  else if count = 0 then
    match left with
    | [] => failBefore .endInValue []
    | _ => failAt .invalidNumber left
  else
    afterDigits negative m (e - count) left

/-!
## Numerals
-/

def whole (negative : Bool) (n : Nat) (left : List Char) : Except Fault (Number × List Char) :=
  if negative then
    if n = 0 || 1 <<< 63 < n then scaled true n 0 left else .ok (.integer (-n), left)
  else
    .ok (.integer n, left)

/-- The number with an integral part, up to which it is read. -/
def afterWhole (negative : Bool) (n : Nat) (s : List Char) : Except Fault (Number × List Char) :=
  let more := s.takeWhile isDigit
  match s.dropWhile isDigit with
  | '.' :: rest => fraction negative n more.length rest
  | 'e' :: rest => exponent negative n more.length rest
  | 'E' :: rest => exponent negative n more.length rest
  | left => if more.isEmpty then whole negative n left else scaled negative n more.length left

def numeral (negative : Bool) : Reader Number
  | [] => failBefore .endInValue []
  | '0' :: rest =>
      if startsWithDigit rest then failAt .invalidNumber rest else afterWhole negative 0 rest
  | c :: rest =>
      if isDigit c then
        let (n, _, left) := significandFrom (digit c) rest
        afterWhole negative n left
      else
        failAt .invalidNumber (c :: rest)

end Reader
end SchemaTypes
