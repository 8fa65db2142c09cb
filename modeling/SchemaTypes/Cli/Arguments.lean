import SchemaTypes.Settings

/-!
# Command lines

A command line names a command and its options.  An option has a long name and may
have a short one of one letter; its value is the next argument or is attached to the
name.  No option is given twice, and an argument that starts with a dash is no value.
-/

namespace SchemaTypes

inductive Command where
  /-- Serve a host. -/
  | host
  | generate (input : Path) (overrides : Overrides) (preview : Bool)
  | manifest
  | check (output input : Path)
  deriving DecidableEq, Repr, Inhabited

inductive Invocation where
  | command (c : Command)
  | version
  | help
  /-- The arguments make no sense. -/
  | misuse
  deriving DecidableEq, Repr, Inhabited

/-!
## Options
-/

inductive OptionKind where
  /-- A path, which is not empty. -/
  | path
  | text
  | word
  /-- The option has no value. -/
  | flag
  deriving DecidableEq, Repr, Inhabited

structure OptionSpec where
  long : String
  short : Option Char
  kind : OptionKind
  deriving DecidableEq, Repr, Inhabited

namespace OptionKind

def accepts (kind : OptionKind) (value : List Char) : Bool :=
  match kind with
  | path => !value.isEmpty
  | text => true
  | word => (Text.word? value).isSome
  | flag => false

end OptionKind

/-- The values given for options by their long names; a flag is given an empty one. -/
abbrev Given := List (String × List Char)

namespace Given

def value? (given : Given) (long : String) : Option (List Char) :=
  given.lookup long

def add? (given : Given) (long : String) (value : List Char) : Option Given :=
  match given.value? long with
  | some _ => none
  | none => some ((long, value) :: given)

end Given

inductive Reading where
  | given (values : Given)
  | help
  | misuse
  deriving DecidableEq, Repr, Inhabited

namespace Reading

def isValue : List Char -> Bool
  | ['-'] => true
  | '-' :: _ => false
  | _ => true

/-- A long option as its name and the value attached to it. -/
def splitLong (s : List Char) : List Char × Option (List Char) :=
  let name := s.takeWhile (· != '=')
  match s.drop name.length with
  | _ :: value => (name, some value)
  | [] => (name, none)

/-- The value attached to a short option, which may follow an equals sign. -/
def shortValue : List Char -> Option (List Char)
  | [] => none
  | '=' :: value => some value
  | value => some value

/-- An option with the value attached to it, if there is one.  An option that needs a
value and has none attached takes the first of the arguments that follow. -/
def option? (spec : OptionSpec) (attached : Option (List Char)) (rest : List (List Char)) :
    Option (List Char × List (List Char)) :=
  match spec.kind, attached with
  | .flag, none => some ([], rest)
  | .flag, some _ => none
  | kind, some value => if kind.accepts value then some (value, rest) else none
  | kind, none =>
      match rest with
      | value :: rest => if isValue value && kind.accepts value then some (value, rest) else none
      | [] => none

/-- The options among arguments, in at most so many steps. -/
def readFrom (specs : List OptionSpec) : Nat -> Given -> List (List Char) -> Reading
  | _, values, [] => .given values
  | 0, _, _ => .misuse
  | steps + 1, values, arg :: rest =>
      let take (spec? : Option OptionSpec) (attached : Option (List Char)) : Reading :=
        let next? := do
          let spec ← spec?
          let (value, rest) ← option? spec attached rest
          let values ← values.add? spec.long value
          some (values, rest)
        match next? with
        | some (values, rest) => readFrom specs steps values rest
        | none => .misuse
      match arg with
      | ['-', '-'] => if rest.isEmpty then .given values else .misuse
      | '-' :: '-' :: long =>
          let (name, attached) := splitLong long
          if name = "help".toList then
            if attached.isNone then .help else .misuse
          else
            take (specs.find? fun spec => spec.long.toList == name) attached
      | '-' :: 'h' :: _ => .help
      | '-' :: c :: more => take (specs.find? fun spec => spec.short == some c) (shortValue more)
      | _ => .misuse

def read (specs : List OptionSpec) (args : List (List Char)) : Reading :=
  readFrom specs (args.length + 1) [] args

def invocation (reading : Reading) (command : Given -> Option Command) : Invocation :=
  match reading with
  | given values =>
      match command values with
      | some c => .command c
      | none => .misuse
  | help => .help
  | misuse => .misuse

end Reading

/-!
## Commands
-/

namespace Command

def inputOption : OptionSpec := ⟨"dmmf", some 'd', .path⟩

def generateOptions : List OptionSpec :=
  [inputOption, ⟨"output", some 'o', .path⟩, ⟨"file-name", none, .text⟩,
    ⟨"print-width", none, .word⟩, ⟨"dry-run", none, .flag⟩]

def generateOf (values : Given) : Option Command := do
  let input ← values.value? "dmmf"
  let overrides : Overrides :=
    { output := values.value? "output"
      fileName := values.value? "file-name"
      printWidth := (values.value? "print-width").bind Text.word? }
  some (.generate input overrides (values.value? "dry-run").isSome)

def checkOptions : List OptionSpec :=
  [⟨"path", some 'p', .path⟩, inputOption]

def checkOf (values : Given) : Option Command := do
  let output ← values.value? "path"
  let input ← values.value? "dmmf"
  some (.check output input)

end Command

namespace Invocation

def helpTopics : List (List Char) :=
  ["generate".toList, "manifest".toList, "check".toList, "help".toList]

def ofCommand (name : List Char) (rest : List (List Char)) : Invocation :=
  match String.ofList name with
  | "generate" => (Reading.read Command.generateOptions rest).invocation Command.generateOf
  | "manifest" => (Reading.read [] rest).invocation fun _ => some .manifest
  | "check" => (Reading.read Command.checkOptions rest).invocation Command.checkOf
  | "help" =>
      match rest with
      | [] => .help
      | [topic] => if helpTopics.contains topic then .help else .misuse
      | _ => .misuse
  | _ => .misuse

/-- The invocation of a command line, without the name of the program. -/
def parse : List (List Char) -> Invocation
  | [] => .command .host
  | arg :: rest =>
      match arg with
      | ['-', '-'] => if rest.isEmpty then .command .host else .misuse
      | '-' :: '-' :: long =>
          match String.ofList long with
          | "help" => .help
          | "version" => .version
          | _ => .misuse
      | '-' :: 'h' :: _ => .help
      | '-' :: 'V' :: _ => .version
      | name => ofCommand name rest

end Invocation

end SchemaTypes
