import SchemaTypes.Json.Printer
import SchemaTypes.Text.Visible

/-!
# Shapes of values

A value that is read as data has to have the data's shape.  Each way to miss it is
a fault, and each fault has one message.
-/

namespace SchemaTypes

/-- The kind of a value in a place for another kind. -/
inductive Found where
  | null
  | bool (b : Bool)
  | number (n : Number)
  | string (s : List Char)
  | sequence
  | map
  deriving DecidableEq, Repr, Inhabited

namespace Found

def ofJson : Json -> Found
  | .null => null
  | .bool b => bool b
  | .number n => number n
  | .string s => string s
  | .array _ => sequence
  | .object _ => map

def message : Found -> String
  | null => "null"
  | bool true => "boolean `true`"
  | bool false => "boolean `false`"
  | number (.integer n) => "integer `" ++ toString n ++ "`"
  | number (.float x) => "floating point `" ++ String.ofList x.write ++ "`"
  | string s => "string " ++ String.ofList (Text.quoted s)
  | sequence => "sequence"
  | map => "map"

end Found

inductive Wanted where
  | string
  | boolean
  | sequence
  | map
  | unit
  | stringOrMap
  | record (name : String)
  deriving DecidableEq, Repr, Inhabited

namespace Wanted

def message : Wanted -> String
  | string => "a string"
  | boolean => "a boolean"
  | sequence => "a sequence"
  | map => "a map"
  | unit => "unit"
  | stringOrMap => "string or map"
  | record name => "struct " ++ name

end Wanted

inductive ShapeFault where
  | wrongType (found : Found) (wanted : Wanted)
  /-- A choice is written as a map that has not exactly one key. -/
  | notOneKey
  | unknownChoice (name : List Char) (choices : List String)
  | missingField (name : String)
  | repeatedField (name : String)
  /-- A record of so many fields is written as a sequence that ends before a field. -/
  | tooShort (index : Nat) (record : String) (fields : Nat)
  /-- A record is written as a sequence of more values than it has fields. -/
  | tooLong (length : Nat)
  deriving DecidableEq, Repr, Inhabited

namespace ShapeFault

def between (marks : String) (s : String) : String :=
  marks ++ s ++ marks

def message : ShapeFault -> String
  | wrongType found wanted => "invalid type: " ++ found.message ++ ", expected " ++ wanted.message
  | notOneKey => "invalid value: map, expected map with a single key"
  | unknownChoice name choices =>
      "unknown variant " ++ between "`" (String.ofList name) ++ ", expected one of " ++
        ", ".intercalate (choices.map (between "`"))
  | missingField name => "missing field " ++ between "`" name
  | repeatedField name => "duplicate field " ++ between "`" name
  | tooShort index record fields =>
      "invalid length " ++ toString index ++ ", expected struct " ++ record ++ " with " ++
        toString fields ++ (if fields = 1 then " element" else " elements")
  | tooLong length => "invalid length " ++ toString length ++ ", expected fewer elements in array"

end ShapeFault

end SchemaTypes
