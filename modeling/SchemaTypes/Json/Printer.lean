import SchemaTypes.Decimal.Shortest
import SchemaTypes.Json.Basic

/-!
# Printing JSON values

A value is printed on one line without blanks, or over several lines with each
item and member on a line of its own.
-/

namespace SchemaTypes

/-!
## Numbers and texts
-/

namespace Number

def print : Number -> List Char
  | integer n => (toString n).toList
  | float x => x.write

end Number

namespace Json

def printChar (c : Char) : List Char :=
  match c with
  | '"' => ['\\', '"']
  | '\\' => ['\\', '\\']
  | '\n' => ['\\', 'n']
  | '\r' => ['\\', 'r']
  | '\t' => ['\\', 't']
  | '\x08' => ['\\', 'b']
  | '\x0c' => ['\\', 'f']
  | c =>
      if c.toNat < 0x20 then
        ['\\', 'u', '0', '0', Nat.digitChar (c.toNat / 16), Nat.digitChar (c.toNat % 16)]
      else [c]

def printText (s : List Char) : List Char :=
  '"' :: s.flatMap printChar ++ ['"']

/-!
## Values on one line
-/

mutual

def compact : Json -> List Char
  | null => "null".toList
  | bool true => "true".toList
  | bool false => "false".toList
  | number n => n.print
  | string s => printText s
  | array items => '[' :: compactItems items ++ [']']
  | object members => '\x7b' :: compactMembers members ++ ['\x7d']

def compactItems : List Json -> List Char
  | [] => []
  | [j] => compact j
  | j :: rest => compact j ++ ',' :: compactItems rest

def compactMembers : List (List Char × Json) -> List Char
  | [] => []
  | [(k, j)] => printText k ++ ':' :: compact j
  | (k, j) :: rest => printText k ++ ':' :: compact j ++ ',' :: compactMembers rest

end

/-!
## Values over several lines
-/

def newLine (depth : Nat) : List Char :=
  '\n' :: List.replicate (2 * depth) ' '

mutual

/-- A value whose items stand one level below the given depth. -/
def pretty (depth : Nat) : Json -> List Char
  | array [] => ['[', ']']
  | array (item :: items) =>
      '[' :: newLine (depth + 1) ++ prettyItems (depth + 1) (item :: items) ++ newLine depth ++ [']']
  | object [] => ['\x7b', '\x7d']
  | object (member :: members) =>
      '\x7b' :: newLine (depth + 1) ++ prettyMembers (depth + 1) (member :: members) ++
        newLine depth ++ ['\x7d']
  | j => compact j

def prettyItems (depth : Nat) : List Json -> List Char
  | [] => []
  | [j] => pretty depth j
  | j :: rest => pretty depth j ++ ',' :: newLine depth ++ prettyItems depth rest

def prettyMembers (depth : Nat) : List (List Char × Json) -> List Char
  | [] => []
  | [(k, j)] => printText k ++ ':' :: ' ' :: pretty depth j
  | (k, j) :: rest =>
      printText k ++ ':' :: ' ' :: pretty depth j ++ ',' :: newLine depth ++ prettyMembers depth rest

end

end Json

end SchemaTypes
