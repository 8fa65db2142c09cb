import SchemaTypes.Datamodel.Clash
import SchemaTypes.Declaration
import SchemaTypes.Output
import SchemaTypes.Settings

/-!
# Generations

A generation takes the settings of a payload, checks its datamodel, formats the
declarations and writes them, and stops at the first of these steps that fails or in
which the program panics.  It tells the steps that it has taken.
-/

namespace SchemaTypes

inductive GenerateError where
  | settings (e : SettingsError)
  | datamodel (clash : Clash)
  | format (e : FormatError)
  | write (e : WriteError)
  deriving DecidableEq, Repr, Inhabited

namespace GenerateError

def message : GenerateError -> String
  | settings e => "Invalid generator configuration: " ++ e.message
  | datamodel clash => "Invalid datamodel: " ++ clash.message
  | format e => "Failed to format output: " ++ e.message
  | write e => "Failed to write output: " ++ e.message

/-- Whether the generation failed because a setting was not given. -/
def isSettingMissing : GenerateError -> Bool
  | settings .missingOutput => true
  | _ => false

def step : GenerateError -> String
  | settings _ => "config"
  | datamodel _ => "validation"
  | format _ => "format"
  | write _ => "write"

end GenerateError

structure Generated where
  path : Path
  content : List Char
  /-- The number of models. -/
  models : Nat
  /-- The number of enumerations. -/
  enums : Nat
  deriving DecidableEq, Repr, Inhabited

namespace Settings

def generate [TypeScript.Recovery] (s : Settings) (d : Datamodel) :
    Except (Halt GenerateError) Generated :=
  match d.clash? with
  | some clash => .error (.failure (.datamodel clash))
  | none =>
      match SchemaTypes.format s.format d.declaration with
      | .error halt => .error (halt.map .format)
      | .ok content =>
          .ok { path := s.outputPath, content, models := d.models.length, enums := d.enums.length }

end Settings

/-!
## Events
-/

namespace Model

/-- The fields left out are told, and then the interface. -/
def events (m : Model) : List Event :=
  m.skippedFields.map (fun f =>
    { level := .trace, target := "prisma_ts::emitter", message := "Skipping non-scalar field",
      values := [("model", m.name), ("field", f.name), ("kind", f.kind.name.toList)] }) ++
  [{ level := .debug, target := "prisma_ts::emitter", message := "Rendered interface",
     values := [("model", m.name), ("fields", Event.number m.emittedFields.length)] }]

end Model

namespace Enumeration

def event (e : Enumeration) : Event :=
  { level := .debug, target := "prisma_ts::emitter", message := "Rendered enum",
    values := [("name", e.name), ("values", Event.number e.values.length)] }

end Enumeration

namespace Datamodel

/-- A datamodel with a clash is not declared, so that nothing is told of it. -/
def events (d : Datamodel) : List Event :=
  match d.clash? with
  | some _ => []
  | none => d.models.flatMap Model.events ++ d.enums.map Enumeration.event

end Datamodel

namespace Payload

def events (p : Payload) (o : Overrides) : List Event :=
  (p.ignoredKeys o).map fun key =>
    { level := .warn, target := "prisma_ts::config", message := "Ignoring unknown config key",
      values := [("generator", p.generator.name), ("key", key)] }

end Payload

namespace Generated

/-- What is told when the generated declarations have been written or kept. -/
def event (g : Generated) (result : WriteResult) : Event :=
  { level := .info, target := "prisma_ts::generator", message := "Generated TypeScript types",
    values :=
      [("path", g.path), ("bytes", Event.number (Text.byteLength g.content)),
        ("models", Event.number g.models), ("enums", Event.number g.enums),
        ("written", (toString result.isWritten).toList)] }

end Generated

/-!
## Writing what is generated

The answer of a step stands beside the events that it tells.
-/

structure Told (α : Type) where
  events : List Event
  answer : α
  deriving DecidableEq, Repr, Inhabited

namespace Settings

variable {m : Type -> Type} [Monad m] [TypeScript.Recovery]

/-- The declarations of a datamodel are generated and then written or kept. -/
def write (s : Settings) (disk : Disk m) (keep : Bool) (d : Datamodel) :
    m (Told (Except (Halt GenerateError) WriteResult)) := do
  match s.generate d with
  | .error halt => return ⟨d.events, .error halt⟩
  | .ok g =>
      match ← disk.output keep g.path g.content with
      | .error e => return ⟨d.events, .error (.failure (.write e))⟩
      | .ok result => return ⟨d.events ++ result.events ++ [g.event result], .ok result⟩

end Settings

namespace Payload

variable {m : Type -> Type} [Monad m] [TypeScript.Recovery]

def generate (p : Payload) (disk : Disk m) :
    m (Told (Except (Halt GenerateError) WriteResult)) := do
  match p.settings {} with
  | .error e => return ⟨p.events {}, .error (.failure (.settings e))⟩
  | .ok s =>
      let told ← s.write disk false p.datamodel
      return ⟨p.events {} ++ told.events, told.answer⟩

end Payload

end SchemaTypes
