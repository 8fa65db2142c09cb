import SchemaTypes.Json.Shape

/-!
# Reading values as data

A record is written as an object or as the sequence of its fields.  The members of
an object are looked at in the order of their keys, and only then are fields missed;
a sequence is looked at in order and may end before the fields that have a default.
-/

namespace SchemaTypes

abbrev Decoder (α : Type) := Json -> Except ShapeFault α

namespace Decoder

def wrongType {α : Type} (j : Json) (wanted : Wanted) : Except ShapeFault α :=
  .error (.wrongType (Found.ofJson j) wanted)

/-!
## Plain values
-/

def text : Decoder (List Char)
  | .string s => .ok s
  | j => wrongType j .string

def flag : Decoder Bool
  | .bool b => .ok b
  | j => wrongType j .boolean

def null : Decoder Unit
  | .null => .ok ()
  | j => wrongType j .unit

def map : Decoder Members
  | .object o => .ok o
  | j => wrongType j .map

def list {α : Type} (item : Decoder α) : Decoder (List α)
  | .array items => items.mapM item
  | j => wrongType j .sequence

def nullable {α : Type} (d : Decoder α) : Decoder (Option α)
  | .null => .ok none
  | j => (d j).map some

/-!
## Records
-/

def record {α : Type} (name : String) (ofMembers : Members -> Except ShapeFault α)
    (ofItems : List Json -> Except ShapeFault α) : Decoder α
  | .object o => ofMembers o
  | .array items => ofItems items
  | j => wrongType j (.record name)

def member? {α : Type} (d : Decoder α) (key : String) (o : Members) : Except ShapeFault (Option α) :=
  match o.find? key.toList with
  | some j => (d j).map some
  | none => .ok none

def present {α : Type} (name : String) : Option α -> Except ShapeFault α
  | some a => .ok a
  | none => .error (.missingField name)

/-- The value at an index, which has to be there for a record of so many fields. -/
def item {α : Type} (d : Decoder α) (index : Nat) (name : String) (fields : Nat)
    (items : List Json) : Except ShapeFault α :=
  match items[index]? with
  | some j => d j
  | none => .error (.tooShort index name fields)

def item? {α : Type} (d : Decoder α) (index : Nat) (items : List Json) :
    Except ShapeFault (Option α) :=
  match items[index]? with
  | some j => (d j).map some
  | none => .ok none

def atMost (fields : Nat) (items : List Json) : Except ShapeFault Unit :=
  if items.length ≤ fields then .ok () else .error (.tooLong items.length)

end Decoder

end SchemaTypes
