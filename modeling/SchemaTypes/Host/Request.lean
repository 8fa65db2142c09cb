import SchemaTypes.Json.Parser
import SchemaTypes.Json.Skip

/-!
# Requests

A request is one JSON value on a line.  It is read straight from the line, so that
every fault in it has a place.  A request is an object whose other keys are skipped,
or the sequence of its fields.
-/

namespace SchemaTypes

structure Request where
  version : Option (List Char)
  method : List Char
  params : Json
  id : Json
  deriving Repr, Inhabited

namespace Request

open Reader

def recordName : String := "RpcRequest"

def failShape {α : Type} (fault : ShapeFault) (rest : List Char) : Except Fault α :=
  failBefore (.shape fault) rest

/-!
## Values of another kind

A value of another kind than the one that is read is read up to its end if it is plain,
and up to its start if it has parts.
-/

def failKind {α : Type} (steps : Nat) (wanted : Wanted) (s : List Char) : Except Fault α :=
  match s with
  | 'n' :: rest => do
      let rest ← word "ull".toList rest
      failShape (.wrongType .null wanted) rest
  | 't' :: rest => do
      let rest ← word "rue".toList rest
      failShape (.wrongType (.bool true) wanted) rest
  | 'f' :: rest => do
      let rest ← word "alse".toList rest
      failShape (.wrongType (.bool false) wanted) rest
  | '-' :: rest => do
      let (n, rest) ← numeral true rest
      failShape (.wrongType (.number n) wanted) rest
  | '"' :: rest => do
      let (t, rest) ← text steps rest
      failShape (.wrongType (.string t) wanted) rest
  | '[' :: rest => failShape (.wrongType .sequence wanted) ('[' :: rest)
  | '\x7b' :: rest => failShape (.wrongType .map wanted) ('\x7b' :: rest)
  | rest =>
      if startsWithDigit rest then do
        let (n, rest) ← numeral false rest
        failShape (.wrongType (.number n) wanted) rest
      else
        failAt .expectedValue rest

def textValue (steps : Nat) : Reader (List Char) := fun s =>
  match skipBlanks s with
  | [] => failBefore .endInValue []
  | '"' :: rest => text steps rest
  | rest => failKind steps .string rest

def nullableText (steps : Nat) : Reader (Option (List Char)) := fun s =>
  match skipBlanks s with
  | 'n' :: rest => do
      let rest ← word "ull".toList rest
      .ok (none, rest)
  | rest => do
      let (t, rest) ← textValue steps rest
      .ok (some t, rest)

/-- Values inside a request are one level deep already. -/
def partValue (steps : Nat) : Reader Json :=
  value steps (greatestDepth - 1)

/-!
## Objects
-/

structure Parts where
  version : Option (Option (List Char)) := none
  method : Option (List Char) := none
  params : Option Json := none
  id : Option Json := none
  deriving Repr, Inhabited

/-- A field with a value, which must not have had one before.  The place of a repeated
field is behind the end of the object if that comes next. -/
def readField {α : Type} (name : String) (earlier : Option α) (read : Reader α) : Reader α :=
  fun s =>
    if earlier.isSome then
      match skipBlanks s with
      | '\x7d' :: rest => failShape (.repeatedField name) rest
      | rest => failShape (.repeatedField name) rest
    else do
      let rest ← colon s
      read rest

def readMember (steps : Nat) (p : Parts) (key : List Char) : Reader Parts := fun s =>
  match String.ofList key with
  | "jsonrpc" => do
      let (v, rest) ← readField "jsonrpc" p.version (nullableText steps) s
      .ok ({ p with version := some v }, rest)
  | "method" => do
      let (v, rest) ← readField "method" p.method (textValue steps) s
      .ok ({ p with method := some v }, rest)
  | "params" => do
      let (v, rest) ← readField "params" p.params (partValue steps) s
      .ok ({ p with params := some v }, rest)
  | "id" => do
      let (v, rest) ← readField "id" p.id (partValue steps) s
      .ok ({ p with id := some v }, rest)
  | _ => do
      let rest ← colon s
      let rest ← Skip.skip steps rest
      .ok (p, rest)

/-- A request that is an object, read after its opening brace. -/
def ofObject (steps : Nat) : Reader Request := fun s => do
  let (p, rest) ← members (readMember steps) steps true {} s
  match p.method with
  | none => failShape (.missingField "method") rest
  | some method =>
      .ok (⟨p.version.getD none, method, p.params.getD .null, p.id.getD .null⟩, rest)

/-!
## Sequences
-/

/-- A field of a sequence that may end before it.  Nothing is read behind the end. -/
def readItem {α : Type} (read : Reader α) (first : Bool) (s : List Char) :
    Except Fault (Option α × Next) := do
  match ← nextItem first s with
  | .close rest => .ok (none, .close rest)
  | .more rest =>
      let (a, rest) ← read rest
      .ok (some a, .more rest)

/-- A field after others, unless the sequence has ended. -/
def readLater {α : Type} (read : Reader α) : Next -> Except Fault (Option α × Next)
  | .close rest => .ok (none, .close rest)
  | .more rest => readItem read false rest

def sequenceEnd : Next -> Except Fault (List Char)
  | .close rest => .ok rest
  | .more rest =>
      match skipBlanks rest with
      | [] => failBefore .endInList []
      | ']' :: rest => .ok rest
      | ',' :: rest =>
          match skipBlanks rest with
          | ']' :: rest => failAt .trailingComma (']' :: rest)
          | rest => failAt .trailingCharacters rest
      | rest => failAt .trailingCharacters rest

/-- A request that is a sequence, read after its opening bracket. -/
def ofSequence (steps : Nat) : Reader Request := fun s => do
  let (version, next) ← readItem (nullableText steps) true s
  let (method, next) ← readLater (textValue steps) next
  match method, next with
  | none, .close rest => failShape (.tooShort 1 recordName 4) rest
  | none, .more rest => failShape (.tooShort 1 recordName 4) rest
  | some method, next =>
      let (params, next) ← readLater (partValue steps) next
      let (id, next) ← readLater (partValue steps) next
      let rest ← sequenceEnd next
      .ok (⟨version.getD none, method, params.getD .null, id.getD .null⟩, rest)

/-!
## Requests
-/

def reader (steps : Nat) : Reader Request := fun s =>
  match skipBlanks s with
  | [] => failBefore .endInValue []
  | '\x7b' :: rest => ofObject steps rest
  | '[' :: rest => ofSequence steps rest
  | rest => failKind steps (.record recordName) rest

def parse (line : List Char) : Except SyntaxError Request :=
  Reader.run reader line

end Request

end SchemaTypes
