/-!
# Datamodels

A datamodel lists models, which have fields, and enumerations, which have values.
Only the fields that hold values of their own are emitted; those that stand for
other models or for types without a form are not.
-/

namespace SchemaTypes

inductive FieldKind where
  | scalar
  | enum
  | relation
  | unsupported
  deriving DecidableEq, Repr, Inhabited

namespace FieldKind

def name : FieldKind -> String
  | scalar => "Scalar"
  | enum => "Enum"
  | relation => "Relation"
  | unsupported => "Unsupported"

def isEmitted : FieldKind -> Bool
  | scalar => true
  | enum => true
  | relation => false
  | unsupported => false

end FieldKind

structure Field where
  name : List Char
  kind : FieldKind
  /-- The name of a scalar type, of an enumeration or of a model. -/
  type : List Char
  isRequired : Bool := false
  isList : Bool := false
  deriving DecidableEq, Repr, Inhabited

structure Model where
  name : List Char
  fields : List Field := []
  deriving DecidableEq, Repr, Inhabited

structure EnumValue where
  name : List Char
  /-- The name of the value in the database, if it has another one there. -/
  dbName : Option (List Char) := none
  deriving DecidableEq, Repr, Inhabited

structure Enumeration where
  name : List Char
  values : List EnumValue := []
  deriving DecidableEq, Repr, Inhabited

structure Datamodel where
  models : List Model := []
  enums : List Enumeration := []
  deriving DecidableEq, Repr, Inhabited

namespace Model

def emittedFields (m : Model) : List Field :=
  m.fields.filter fun f => f.kind.isEmitted

/-- The fields that the declaration of a model leaves out, in their order. -/
def skippedFields (m : Model) : List Field :=
  m.fields.filter fun f => !f.kind.isEmitted

end Model

namespace Enumeration

def ofNames (name : List Char) (values : List (List Char)) : Enumeration :=
  { name, values := values.map fun v => { name := v } }

end Enumeration

end SchemaTypes
