import SchemaTypes.Datamodel.Basic
import SchemaTypes.Json.Decode

/-!
# Reading datamodels

Every part of a datamodel is a record.  Keys that no field has are passed over.  The
kind of a field is a choice: its name, or an object that gives null to its name.
-/

namespace SchemaTypes

open Decoder

namespace FieldKind

def choices : List String :=
  ["scalar", "enum", "object", "relation", "unsupported"]

def ofChoice? (name : List Char) : Option FieldKind :=
  match String.ofList name with
  | "scalar" => some scalar
  | "enum" => some enum
  | "object" => some relation
  | "relation" => some relation
  | "unsupported" => some unsupported
  | _ => none

def ofChoice (name : List Char) : Except ShapeFault FieldKind :=
  match ofChoice? name with
  | some kind => .ok kind
  | none => .error (.unknownChoice name choices)

def decode : Decoder FieldKind
  | .string name => ofChoice name
  | .object [(name, j)] => do
      let kind ← ofChoice name
      null j
      .ok kind
  | .object _ => .error .notOneKey
  | j => wrongType j .stringOrMap

end FieldKind

namespace Field

def ofMembers (o : Members) : Except ShapeFault Field := do
  let isList? ← member? flag "isList" o
  let isRequired? ← member? flag "isRequired" o
  let kind? ← member? FieldKind.decode "kind" o
  let name? ← member? text "name" o
  let type? ← member? text "type" o
  let name ← present "name" name?
  let kind ← present "kind" kind?
  let type ← present "type" type?
  .ok { name, kind, type, isRequired := isRequired?.getD false, isList := isList?.getD false }

def ofItems (items : List Json) : Except ShapeFault Field := do
  let name ← item text 0 "Field" 5 items
  let kind ← item FieldKind.decode 1 "Field" 5 items
  let type ← item text 2 "Field" 5 items
  let isRequired? ← item? flag 3 items
  let isList? ← item? flag 4 items
  atMost 5 items
  .ok { name, kind, type, isRequired := isRequired?.getD false, isList := isList?.getD false }

def decode : Decoder Field :=
  record "Field" ofMembers ofItems

end Field

namespace Model

def ofMembers (o : Members) : Except ShapeFault Model := do
  let fields? ← member? (list Field.decode) "fields" o
  let name? ← member? text "name" o
  let name ← present "name" name?
  .ok { name, fields := fields?.getD [] }

def ofItems (items : List Json) : Except ShapeFault Model := do
  let name ← item text 0 "Model" 2 items
  let fields? ← item? (list Field.decode) 1 items
  atMost 2 items
  .ok { name, fields := fields?.getD [] }

def decode : Decoder Model :=
  record "Model" ofMembers ofItems

end Model

namespace EnumValue

def ofMembers (o : Members) : Except ShapeFault EnumValue := do
  let dbName? ← member? (nullable text) "dbName" o
  let name? ← member? text "name" o
  let name ← present "name" name?
  .ok { name, dbName := dbName?.getD none }

def ofItems (items : List Json) : Except ShapeFault EnumValue := do
  let name ← item text 0 "EnumValue" 2 items
  let dbName? ← item? (nullable text) 1 items
  atMost 2 items
  .ok { name, dbName := dbName?.getD none }

def decode : Decoder EnumValue :=
  record "EnumValue" ofMembers ofItems

end EnumValue

namespace Enumeration

def recordName : String := "DatamodelEnum"

def ofMembers (o : Members) : Except ShapeFault Enumeration := do
  let name? ← member? text "name" o
  let values? ← member? (list EnumValue.decode) "values" o
  let name ← present "name" name?
  .ok { name, values := values?.getD [] }

def ofItems (items : List Json) : Except ShapeFault Enumeration := do
  let name ← item text 0 recordName 2 items
  let values? ← item? (list EnumValue.decode) 1 items
  atMost 2 items
  .ok { name, values := values?.getD [] }

def decode : Decoder Enumeration :=
  record recordName ofMembers ofItems

end Enumeration

namespace Datamodel

def ofMembers (o : Members) : Except ShapeFault Datamodel := do
  let enums? ← member? (list Enumeration.decode) "enums" o
  let models? ← member? (list Model.decode) "models" o
  .ok { models := models?.getD [], enums := enums?.getD [] }

def ofItems (items : List Json) : Except ShapeFault Datamodel := do
  let models? ← item? (list Model.decode) 0 items
  let enums? ← item? (list Enumeration.decode) 1 items
  atMost 2 items
  .ok { models := models?.getD [], enums := enums?.getD [] }

def decode : Decoder Datamodel :=
  record "Datamodel" ofMembers ofItems

end Datamodel

/-!
## Documents

A document is a record whose one field is a datamodel.
-/

namespace Document

def ofMembers (o : Members) : Except ShapeFault Datamodel := do
  let datamodel? ← member? Datamodel.decode "datamodel" o
  present "datamodel" datamodel?

def ofItems (items : List Json) : Except ShapeFault Datamodel := do
  let datamodel ← item Datamodel.decode 0 "Document" 1 items
  atMost 1 items
  .ok datamodel

def decode : Decoder Datamodel :=
  record "Document" ofMembers ofItems

end Document

end SchemaTypes
