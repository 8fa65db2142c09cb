import SchemaTypes.Generation

/-!
# Responses

A response is one JSON object on a line.  It carries the id of its request and either
a result or an error.
-/

namespace SchemaTypes

structure Failure where
  code : Int
  message : String
  data : Option Members := none
  deriving Repr, Inhabited

namespace Failure

def malformed (reason : String) : Failure :=
  { code := -32700, message := "Parse error: " ++ reason }

def unknownMethod (method : List Char) : Failure :=
  { code := -32601, message := "Method not found: " ++ String.ofList method }

def invalidParams (fault : ShapeFault) : Failure :=
  { code := -32000, message := "Invalid generator options: " ++ fault.message,
    data := some [("kind".toList, .ofText "params")] }

def ofGenerateError (e : GenerateError) : Failure :=
  { code := -32000, message := e.message,
    data := some
      [("configMissing".toList, .bool e.isSettingMissing), ("kind".toList, .ofText e.step)] }

end Failure

structure Response where
  id : Json
  outcome : Except Failure Json
  deriving Inhabited

namespace Response

/-- The response that a request gets, none if the program has panicked. -/
def of? (id : Json) : Except (Halt Failure) Json -> Option Response
  | .ok result => some ⟨id, .ok result⟩
  | .error (.failure f) => some ⟨id, .error f⟩
  | .error .panic => none

def isSuccess (r : Response) : Bool :=
  match r.outcome with
  | .ok _ => true
  | .error _ => false

/-- A member of an object in which the members stand in the order given. -/
def memberText (key : String) (value : List Char) : List Char :=
  Json.printText key.toList ++ ':' :: value

def objectText (members : List (List Char)) : List Char :=
  '\x7b' :: Text.joinWith [','] members ++ ['\x7d']

def failureText (f : Failure) : List Char :=
  objectText
    ([memberText "code" (Json.number (.integer f.code)).compact,
      memberText "message" (Json.ofText f.message).compact] ++
      (f.data.map fun o => memberText "data" (Json.object o).compact).toList)

def text (r : Response) : List Char :=
  objectText
    [memberText "jsonrpc" (Json.ofText "2.0").compact,
      memberText "id" r.id.compact,
      match r.outcome with
      | .ok result => memberText "result" result.compact
      | .error f => memberText "error" (failureText f)]

end Response

/-!
## The manifest

The manifest tells what the generator is called and which generators run before it.
-/

def manifest : Json :=
  .object
    [("prettyName".toList, .ofText "Prisma TypeScript Types"),
      ("requiresGenerators".toList, .array [.ofText "prisma-client-js"])]

end SchemaTypes
