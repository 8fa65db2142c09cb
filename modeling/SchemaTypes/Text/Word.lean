/-!
# Words

A word is a number below `2 ^ 64`, written as decimal digits that a plus may precede.
-/

namespace SchemaTypes
namespace Text

def isDigit (c : Char) : Bool :=
  '0' ≤ c && c ≤ '9'

def digit (c : Char) : Nat :=
  c.toNat - '0'.toNat

def numberOfDigits (s : List Char) : Nat :=
  s.foldl (fun n c => 10 * n + digit c) 0

/-- The word of decimal digits, if they are some and not too many. -/
def wordOfDigits? (s : List Char) : Option Nat :=
  if s.isEmpty || !s.all isDigit || 1 <<< 64 ≤ numberOfDigits s then none
  else some (numberOfDigits s)

def word? : List Char -> Option Nat
  | '+' :: rest => wordOfDigits? rest
  | s => wordOfDigits? s

end Text
end SchemaTypes
