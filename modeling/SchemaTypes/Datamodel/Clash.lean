import SchemaTypes.Datamodel.Basic

/-!
# Clashing names

The declarations of a datamodel share one space of names, the fields of a model
another and the values of an enumeration a third.  A datamodel is checked from its
first declaration to its last, the name of a declaration before what it holds.
-/

namespace SchemaTypes

inductive Clash where
  | declaration (name : List Char)
  | field (model field : List Char)
  | enumValue (enum value : List Char)
  deriving DecidableEq, Repr, Inhabited

namespace Clash

def inQuotes (s : List Char) : String :=
  "'" ++ String.ofList s ++ "'"

def message : Clash -> String
  | declaration name => "Duplicate declaration " ++ inQuotes name
  | field m f => "Duplicate field " ++ inQuotes f ++ " in model " ++ inQuotes m
  | enumValue e v => "Duplicate value " ++ inQuotes v ++ " in enum " ++ inQuotes e

end Clash

/-!
## Repeated names
-/

/-- The first name that comes after an equal one, where the names seen before count
as earlier ones. -/
def firstRepeated (seen : List (List Char)) : List (List Char) -> Option (List Char)
  | [] => none
  | name :: rest => if name ∈ seen then some name else firstRepeated (name :: seen) rest

namespace Model

def clash? (m : Model) : Option Clash :=
  (firstRepeated [] (m.fields.map Field.name)).map (Clash.field m.name)

end Model

namespace Enumeration

def clash? (e : Enumeration) : Option Clash :=
  (firstRepeated [] (e.values.map EnumValue.name)).map (Clash.enumValue e.name)

end Enumeration

namespace Datamodel

/-- The first clash among declarations, each given with its name and the clash inside
it, after declarations with the names seen. -/
def firstClash (seen : List (List Char)) : List (List Char × Option Clash) -> Option Clash
  | [] => none
  | (name, inside) :: rest =>
      if name ∈ seen then some (.declaration name)
      else
        match inside with
        | some clash => some clash
        | none => firstClash (name :: seen) rest

/-- The declarations in order, each with its name and the clash inside it. -/
def namedClashes (d : Datamodel) : List (List Char × Option Clash) :=
  d.models.map (fun m => (m.name, m.clash?)) ++ d.enums.map (fun e => (e.name, e.clash?))

def clash? (d : Datamodel) : Option Clash :=
  firstClash [] d.namedClashes

end Datamodel

end SchemaTypes
