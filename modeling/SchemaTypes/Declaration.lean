import SchemaTypes.Datamodel.Basic
import SchemaTypes.Text.Blank
import SchemaTypes.Text.Word

/-!
# Declarations

A model is declared as an interface with its emitted fields, and an enumeration as a
constant object of its values with a type for the union of them.  The declarations of
a datamodel stand one blank line apart, models first, each in its order.
-/

namespace SchemaTypes

/-!
## Types

The scalar types have names of their own; every other type keeps its name.
-/

def declaredType (name : List Char) : List Char :=
  match String.ofList name with
  | "Decimal" => "number".toList
  | "Int" => "number".toList
  | "Float" => "number".toList
  | "BigInt" => "number".toList
  | "DateTime" => "Date".toList
  | "Boolean" => "boolean".toList
  | "Json" => "any".toList
  | "String" => "string".toList
  | _ => name

namespace Field

/-- The type of a field with the endings for optional and for repeated fields. -/
def declaredType (f : Field) : List Char :=
  SchemaTypes.declaredType f.type ++ (if f.isRequired then [] else " | null".toList) ++
    (if f.isList then "[]".toList else [])

end Field

/-!
## Keys and literals

A name that is an identifier is its own key; any other name is written as a literal.
One identifier is written as a literal where it could be read as a modifier.
-/

namespace Declaration

def literalChar (c : Char) : List Char :=
  match c with
  | '"' => ['\\', '"']
  | '\\' => ['\\', '\\']
  | '\n' => ['\\', 'n']
  | '\r' => ['\\', 'r']
  | '\t' => ['\\', 't']
  | c => [c]

def literal (s : List Char) : List Char :=
  '"' :: s.flatMap literalChar ++ ['"']

def isLetter (c : Char) : Bool :=
  ('a' ≤ c && c ≤ 'z') || ('A' ≤ c && c ≤ 'Z')

def startsIdentifier (c : Char) : Bool :=
  isLetter c || c == '_' || c == '$'

def continuesIdentifier (c : Char) : Bool :=
  startsIdentifier c || Text.isDigit c

def isIdentifier : List Char -> Bool
  | [] => false
  | c :: rest => startsIdentifier c && rest.all continuesIdentifier

def entryKey (name : List Char) : List Char :=
  if isIdentifier name then name else literal name

def memberKey (name : List Char) : List Char :=
  if name = "abstract".toList then literal name else entryKey name

end Declaration

/-!
## Models
-/

namespace Field

def declaration (f : Field) : List Char :=
  "  ".toList ++ Declaration.memberKey f.name ++ ": ".toList ++ f.declaredType ++ ";".toList

end Field

namespace Model

def declaration (m : Model) : List Char :=
  let head := "export interface ".toList ++ m.name
  match m.emittedFields with
  | [] => head ++ " \x7b\x7d".toList
  | fields =>
      head ++ " \x7b\n".toList ++ Text.joinWith ['\n'] (fields.map Field.declaration) ++ "\n\x7d".toList

end Model

/-!
## Enumerations
-/

namespace EnumValue

/-- The entry of a value, whose key and content are both its name. -/
def declaration (v : EnumValue) : List Char :=
  Declaration.entryKey v.name ++ ": ".toList ++ Declaration.literal v.name

end EnumValue

namespace Enumeration

def object (e : Enumeration) : List Char :=
  match e.values with
  | [] => "\x7b\x7d".toList
  | values =>
      "\x7b ".toList ++ Text.joinWith ", ".toList (values.map EnumValue.declaration) ++ " \x7d".toList

def declaration (e : Enumeration) : List Char :=
  "export const ".toList ++ e.name ++ " = ".toList ++ e.object ++ " as const;\nexport type ".toList ++
    e.name ++ " = (typeof ".toList ++ e.name ++ ")[keyof typeof ".toList ++ e.name ++ "];".toList

end Enumeration

/-!
## Datamodels
-/

namespace Datamodel

def declarationTexts (d : Datamodel) : List (List Char) :=
  d.models.map Model.declaration ++ d.enums.map Enumeration.declaration

def declaration (d : Datamodel) : List Char :=
  match d.declarationTexts with
  | [] => []
  | texts => Text.joinWith "\n\n".toList texts ++ ['\n']

end Datamodel

end SchemaTypes
