import SchemaTypes.Datamodel.Decode
import SchemaTypes.Json.Parser

/-!
# Payloads

A payload is what a generation starts from: the generator block that asks for it and
the datamodel.  A text may hold a whole payload, a document or a datamodel alone.
-/

namespace SchemaTypes

open Decoder

/-- The name of a directory, which may be missing where it was to come from the
environment. -/
structure OutputValue where
  value : Option (List Char)
  deriving DecidableEq, Repr, Inhabited

namespace OutputValue

def recordName : String := "EnvValue"

def ofMembers (o : Members) : Except ShapeFault OutputValue := do
  let value? ← member? (nullable text) "value" o
  .ok ⟨value?.getD none⟩

def ofItems (items : List Json) : Except ShapeFault OutputValue := do
  let value ← item (nullable text) 0 recordName 1 items
  atMost 1 items
  .ok ⟨value⟩

def decode : Decoder OutputValue :=
  record recordName ofMembers ofItems

end OutputValue

structure GeneratorBlock where
  name : List Char := []
  output : Option OutputValue := none
  config : Members := []
  deriving Repr, Inhabited

namespace GeneratorBlock

def recordName : String := "GeneratorInfo"

def ofFields (name? : Option (List Char)) (output? : Option (Option OutputValue))
    (config? : Option Members) : GeneratorBlock :=
  { name := name?.getD [], output := output?.getD none, config := config?.getD [] }

def ofMembers (o : Members) : Except ShapeFault GeneratorBlock := do
  let config? ← member? map "config" o
  let name? ← member? text "name" o
  let output? ← member? (nullable OutputValue.decode) "output" o
  .ok (ofFields name? output? config?)

def ofItems (items : List Json) : Except ShapeFault GeneratorBlock := do
  let name? ← item? text 0 items
  let output? ← item? (nullable OutputValue.decode) 1 items
  let config? ← item? map 2 items
  atMost 3 items
  .ok (ofFields name? output? config?)

def decode : Decoder GeneratorBlock :=
  record recordName ofMembers ofItems

end GeneratorBlock

structure Payload where
  generator : GeneratorBlock := {}
  datamodel : Datamodel := {}
  deriving Repr, Inhabited

inductive ReadError where
  | notJson (e : SyntaxError)
  | shape (fault : ShapeFault)
  deriving DecidableEq, Repr, Inhabited

namespace ReadError

def message : ReadError -> String
  | notJson e => e.message
  | shape fault => fault.message

end ReadError

namespace Payload

def recordName : String := "GeneratorOptions"

def ofMembers (o : Members) : Except ShapeFault Payload := do
  let datamodel? ← member? Document.decode "dmmf" o
  let generator? ← member? GeneratorBlock.decode "generator" o
  .ok { generator := generator?.getD {}, datamodel := datamodel?.getD {} }

def ofItems (items : List Json) : Except ShapeFault Payload := do
  let generator? ← item? GeneratorBlock.decode 0 items
  let datamodel? ← item? Document.decode 1 items
  atMost 2 items
  .ok { generator := generator?.getD {}, datamodel := datamodel?.getD {} }

def decode : Decoder Payload :=
  record recordName ofMembers ofItems

/-!
## The three shapes

An object with a key of a payload is a whole payload; one with the key of a document
is a document; anything else is a datamodel.
-/

def ofJson (j : Json) : Except ShapeFault Payload :=
  if (j.member? "generator").isSome || (j.member? "dmmf").isSome then
    decode j
  else do
    let datamodel ←
      if (j.member? "datamodel").isSome then Document.decode j else Datamodel.decode j
    .ok { datamodel }

def read (s : List Char) : Except ReadError Payload :=
  match Json.parse s with
  | .error e => .error (.notJson e)
  | .ok j =>
      match ofJson j with
      | .error fault => .error (.shape fault)
      | .ok p => .ok p

end Payload

end SchemaTypes
