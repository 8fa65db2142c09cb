import SchemaTypes.Cli.Arguments
import SchemaTypes.Cli.Error
import SchemaTypes.Host.Service

/-!
# Running commands

A command prints what it does, tells its events and ends with a code.  It stops at the
first step that fails or in which the program panics, and what it has printed by then stays
printed.
-/

namespace SchemaTypes

/-- What a command leaves on the error stream. -/
inductive Notice where
  | entry (e : Entry)
  | failure (e : CommandError)
  | usage
  | panic
  deriving Inhabited

namespace Notice

def usageText : List Char :=
  "Usage: prisma-ts [generate|manifest|check|help] [OPTIONS]".toList

def panicText : List Char :=
  "capacity overflow".toList

/-- The lines of a notice, if the filter lets it through. -/
def text? (filter : LogFilter) : Notice -> Option (List Char)
  | entry e => e.text? filter
  | failure e => some ("Error: ".toList ++ e.message.toList)
  | usage => some usageText
  | panic => some panicText

end Notice

structure Run where
  code : Nat
  printed : List Char
  notices : List Notice
  deriving Inhabited

namespace Run

def told (events : List Event) : List Notice :=
  events.map fun e => .entry (.event e)

def ok (printed : List Char) (events : List Event) : Run :=
  ⟨0, printed, told events⟩

def fail (printed : List Char) (events : List Event) (e : CommandError) : Run :=
  ⟨e.exitCode, printed, told events ++ [.failure e]⟩

def panicCode : Nat := 101

def panic (printed : List Char) (events : List Event) : Run :=
  ⟨panicCode, printed, told events ++ [.panic]⟩

/-- The run of a command whose generation has no result. -/
def halt (printed : List Char) (events : List Event) : Halt GenerateError -> Run
  | .failure e => fail printed events (.generate e)
  | .panic => panic printed events

def ofServed (s : Host.Served) : Run :=
  let notices := s.entries.map Notice.entry
  if s.panicked then ⟨panicCode, [], notices ++ [.panic]⟩ else ⟨0, [], notices⟩

end Run

/-- Whether a file holds what would be generated, up to the blanks around it. -/
def isUpToDate (existing generated : List Char) : Bool :=
  Text.trim existing == Text.trim generated

namespace Command

variable {m : Type -> Type} [Monad m] [TypeScript.Recovery]

/-!
## Inputs
-/

def load (disk : Disk m) (path : Path) : m (Except CommandError Payload) := do
  match ← disk.readText path with
  | .error fault => return .error (.disk fault)
  | .ok s =>
      match Payload.read s with
      | .error e => return .error (.input path e)
      | .ok p => return .ok p

/-!
## Generating
-/

def loading : List Char := "Loading DMMF...\n".toList

def foundText (d : Datamodel) : List Char :=
  "  Found ".toList ++ Event.number d.models.length ++ " model(s) and ".toList ++
    Event.number d.enums.length ++ " enum(s)\n".toList

def generating : List Char := "Generating TypeScript types...\n".toList

def rule : List Char :=
  List.replicate 60 '─' ++ ['\n']

def resultText : WriteResult -> List Char
  | .written path bytes =>
      "✓ Written ".toList ++ Event.number bytes ++ " bytes to ".toList ++ path ++ ['\n']
  | .preview path content =>
      "[dry-run] Would write to ".toList ++ path ++ ":\n".toList ++ rule ++ content ++ ['\n'] ++ rule

def runGenerate (disk : Disk m) (input : Path) (o : Overrides) (preview : Bool) : m Run := do
  match ← load disk input with
  | .error e => return .fail loading [] e
  | .ok p =>
      let loaded := loading ++ foundText p.datamodel
      match p.settings o with
      | .error e => return .fail loaded (p.events o) (.generate (.settings e))
      | .ok s =>
          let started := loaded ++ generating
          let told ← s.write disk preview p.datamodel
          let events := p.events o ++ told.events
          match told.answer with
          | .error halt => return .halt started events halt
          | .ok result => return .ok (started ++ resultText result) events

/-!
## Checking
-/

def checking : List Char := "Checking generated types...\n".toList

def directoryOf (path : Path) : Path :=
  match Path.parent? path with
  | some (c :: rest) => c :: rest
  | _ => ['.']

def checkAgainst (output : Path) (existing : List Char) (p : Payload) : Run :=
  let o : Overrides := { output := some (directoryOf output) }
  match p.settings o with
  | .error e => .fail checking (p.events o) (.generate (.settings e))
  | .ok s =>
      let events := p.events o ++ p.datamodel.events
      match s.generate p.datamodel with
      | .error halt => .halt checking events halt
      | .ok g =>
          if isUpToDate existing g.content then
            .ok (checking ++ "✓ Types are up-to-date\n".toList) events
          else
            .fail
              (checking ++ "✗ Types are out of date\n  Run 'prisma generate' to update\n".toList)
              events (.check .outOfDate)

def runCheck (disk : Disk m) (output input : Path) : m Run := do
  if ← disk.pathExists output then
    match ← disk.readText output with
    | .error fault => return .fail checking [] (.disk fault)
    | .ok existing =>
        match ← load disk input with
        | .error e => return .fail checking [] e
        | .ok p => return checkAgainst output existing p
  else
    return .fail checking [] (.check (.notGenerated output))

/-!
## All commands
-/

/-- The run of a command that gets the given bytes to read. -/
def run (disk : Disk m) (stdin : List UInt8) : Command -> m Run
  | host => do
      let answers ← Host.serve disk stdin
      return .ofServed answers
  | generate input o preview => runGenerate disk input o preview
  | manifest => return .ok (SchemaTypes.manifest.pretty 0 ++ ['\n']) []
  | check output input => runCheck disk output input

end Command

namespace Invocation

variable {m : Type -> Type} [Monad m] [TypeScript.Recovery]

def versionText : List Char := "prisma-ts 0.1.0\n".toList

def run (disk : Disk m) (stdin : List UInt8) : Invocation -> m Run
  | command c => c.run disk stdin
  | version => return .ok versionText []
  | help => return .ok (Notice.usageText ++ ['\n']) []
  | misuse => return ⟨2, [], [.usage]⟩

end Invocation

end SchemaTypes
