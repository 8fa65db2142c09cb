import SchemaTypes.Host.Request
import SchemaTypes.Host.Response
import SchemaTypes.Log.Filter

/-!
# Serving a host

A host sends requests, each on a line, and gets one response line for each, until the
program panics.  Lines of blanks are passed over.  The events told on the way share the
stream with the responses, in the order in which they happen.
-/

namespace SchemaTypes

inductive Entry where
  | event (e : Event)
  | response (r : Response)
  deriving Inhabited

namespace Entry

def response? : Entry -> Option Response
  | event _ => none
  | response r => some r

/-- The lines of an entry, if the filter lets it through. -/
def text? (filter : LogFilter) : Entry -> Option (List Char)
  | event e => if filter.tells e then some e.text else none
  | response r => some r.text

end Entry

namespace Host

def tell (level : Level) (message : String) (values : List (String × List Char)) : Event :=
  { level, target := "prisma_ts_cli::host", message, values }

variable {m : Type -> Type} [Monad m] [TypeScript.Recovery]

/-!
## Requests
-/

def generate (disk : Disk m) (params : Json) : m (Told (Except (Halt Failure) Json)) := do
  match Payload.decode params with
  | .error fault => return ⟨[], .error (.failure (.invalidParams fault))⟩
  | .ok p =>
      let told ← p.generate disk
      match told.answer with
      | .ok _ => return ⟨told.events, .ok .null⟩
      | .error halt => return ⟨told.events, .error (halt.map .ofGenerateError)⟩

def outcome (disk : Disk m) (r : Request) : m (Told (Except (Halt Failure) Json)) :=
  match String.ofList r.method with
  | "getManifest" => return ⟨[], .ok (.object [("manifest".toList, manifest)])⟩
  | "generate" => generate disk r.params
  | _ => return ⟨[], .error (.failure (.unknownMethod r.method))⟩

def failureEvents (r : Request) : Except (Halt Failure) Json -> List Event
  | .error (.failure f) =>
      [tell .error "Request failed"
        [("method", r.method), ("id", r.id.compact), ("code", (toString f.code).toList),
          ("error_message", f.message.toList)]]
  | _ => []

/-- The answer to a request, without a response if the program panics. -/
def answerRequest (disk : Disk m) (r : Request) : m (Told (Option Response)) := do
  let told ← outcome disk r
  let start := tell .debug "Handling request" [("method", r.method), ("id", r.id.compact)]
  return ⟨start :: told.events ++ failureEvents r told.answer, Response.of? r.id told.answer⟩

/-!
## Lines
-/

/-- The answer to a line that is no request, for the reason given. -/
def refuse (message : String) (reason : String) : Told (Option Response) :=
  ⟨[tell .error message [("error", reason.toList)]], some ⟨.null, .error (.malformed reason)⟩⟩

def answerText (disk : Disk m) (line : List Char) : m (Told (Option Response)) :=
  match Request.parse line with
  | .ok r => answerRequest disk r
  | .error e => return refuse "Malformed request" e.message

def answerLine (disk : Disk m) (line : List UInt8) : m (Option (Told (Option Response))) :=
  match Text.decode line with
  | .error e => return some (refuse "Request is not valid UTF-8" e.message)
  | .ok s =>
      if Text.allBlank s then return none
      else do
        let told ← answerText disk s
        return some told

/-!
## Streams
-/

/-- The lines of a stream, each with the line feed that ends it. -/
def lines : List UInt8 -> List (List UInt8)
  | [] => []
  | b :: rest =>
      if b = 10 then [b] :: lines rest
      else
        match lines rest with
        | [] => [[b]]
        | line :: more => (b :: line) :: more

/-- What a host is sent.  A program that has panicked at a line has read no further. -/
structure Served where
  entries : List Entry
  panicked : Bool
  deriving Inhabited

/-- An answer as entries of the stream, the response last. -/
def entries (told : Told (Option Response)) : List Entry :=
  told.events.map .event ++ told.answer.toList.map .response

def served : Option (Told (Option Response)) -> Served
  | none => ⟨[], false⟩
  | some told => ⟨entries told, told.answer.isNone⟩

/-- The answers to lines, in their order, up to one at which the program panics. -/
def answerLines (disk : Disk m) : List (List UInt8) -> m Served
  | [] => return ⟨[], false⟩
  | line :: rest => do
      let first := served (← answerLine disk line)
      if first.panicked then return first
      else
        let more ← answerLines disk rest
        return ⟨first.entries ++ more.entries, more.panicked⟩

def opening : Event := tell .debug "Waiting for generator requests" []

def closing : Event := tell .debug "Host closed the request stream" []

/-- All that is sent to a host that sends the given bytes. -/
def serve (disk : Disk m) (bytes : List UInt8) : m Served := do
  let answers ← answerLines disk (lines bytes)
  let ending := if answers.panicked then [] else [.event closing]
  return ⟨.event opening :: answers.entries ++ ending, answers.panicked⟩

end Host

end SchemaTypes
