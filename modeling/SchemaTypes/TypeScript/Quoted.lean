/-!
# Quotes of string literals

Formatted literals stand between double quotes.  A single-quoted literal is
rewritten: its double quotes gain a backslash, its escaped single quotes lose
theirs, and every other escape stays.
-/

namespace SchemaTypes
namespace TypeScript
namespace Quoted

/-- The inside of a single-quoted literal, as it stands between double quotes. -/
def requoteInside : List Char -> List Char
  | [] => []
  | ['\\'] => ['\\']
  | '\\' :: '\'' :: rest => '\'' :: requoteInside rest
  | '\\' :: c :: rest => '\\' :: c :: requoteInside rest
  | '"' :: rest => '\\' :: '"' :: requoteInside rest
  | c :: rest => c :: requoteInside rest

/-- A literal between double quotes; other texts stay as they are. -/
def requote (literal : List Char) : List Char :=
  match literal with
  | '\'' :: c :: rest => '"' :: requoteInside (c :: rest).dropLast ++ ['"']
  | _ => literal

end Quoted
end TypeScript
end SchemaTypes
