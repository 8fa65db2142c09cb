import SchemaTypes.Format
import SchemaTypes.Path
import SchemaTypes.Payload
import SchemaTypes.Text.Word

/-!
# Settings

The settings of a generation come from the generator block of its payload, and
overrides given by the caller take their place.  The keys of the block are taken in
their order; a key that means nothing is passed over.
-/

namespace SchemaTypes

structure Settings where
  directory : Path
  fileName : List Char := "index.ts".toList
  format : FormatOptions := {}
  deriving DecidableEq, Repr, Inhabited

structure Overrides where
  output : Option Path := none
  fileName : Option (List Char) := none
  printWidth : Option Nat := none
  deriving DecidableEq, Repr, Inhabited

/-!
## Errors
-/

/-- What is wrong with a value, which is given as it is printed. -/
inductive InvalidValue where
  | notString (printed : List Char)
  | notPositive (printed : List Char)
  | notLineEnding (name : List Char)
  | notPlainName (name : List Char)
  deriving DecidableEq, Repr, Inhabited

namespace InvalidValue

def message : InvalidValue -> String
  | notString printed => "expected a string, got " ++ String.ofList printed
  | notPositive printed => "expected a positive integer, got " ++ String.ofList printed
  | notLineEnding name => EndOfLine.unknownName (String.ofList name)
  | notPlainName name => "'" ++ String.ofList name ++ "' is not a plain file name"

end InvalidValue

inductive SettingsError where
  | missingOutput
  | invalidValue (key : List Char) (fault : InvalidValue)
  deriving DecidableEq, Repr, Inhabited

namespace SettingsError

def message : SettingsError -> String
  | missingOutput => "No output directory specified"
  | invalidValue key fault =>
      "Invalid configuration value for '" ++ String.ofList key ++ "': " ++ fault.message

end SettingsError

/-!
## Values
-/

/-- The number of a value that is an integer or a text of digits between blanks. -/
def wordOfJson? : Json -> Option Nat
  | .number (.integer n) => if 0 ≤ n then some n.toNat else none
  | .string s => Text.word? (Text.trim s)
  | _ => none

def stringValue (key : List Char) : Json -> Except SettingsError (List Char)
  | .string s => .ok s
  | j => .error (.invalidValue key (.notString j.compact))

def positiveValue (key : List Char) (j : Json) : Except SettingsError Nat :=
  match wordOfJson? j with
  | some (n + 1) => .ok (n + 1)
  | _ => .error (.invalidValue key (.notPositive j.compact))

def lineEndingValue (key : List Char) (j : Json) : Except SettingsError EndOfLine := do
  let name ← stringValue key j
  match EndOfLine.ofName? (String.ofList name) with
  | some e => .ok e
  | none => .error (.invalidValue key (.notLineEnding name))

/-!
## Resolving
-/

namespace Settings

def isKnownKey (key : List Char) : Bool :=
  ["fileName", "printWidth", "tabWidth", "endOfLine"].any fun k => k.toList == key

def takeKey (s : Settings) (key : List Char) (j : Json) : Except SettingsError Settings :=
  match String.ofList key with
  | "fileName" => do
      let fileName ← stringValue key j
      .ok { s with fileName }
  | "printWidth" => do
      let printWidth ← positiveValue key j
      .ok { s with format := { s.format with printWidth } }
  | "tabWidth" => do
      let tabWidth ← positiveValue key j
      .ok { s with format := { s.format with tabWidth } }
  | "endOfLine" => do
      let endOfLine ← lineEndingValue key j
      .ok { s with format := { s.format with endOfLine } }
  | _ => .ok s

def takeKeys (s : Settings) : Members -> Except SettingsError Settings
  | [] => .ok s
  | (key, j) :: rest => do
      let s ← s.takeKey key j
      s.takeKeys rest

def override (s : Settings) (o : Overrides) : Settings :=
  { s with
    fileName := o.fileName.getD s.fileName
    format := { s.format with printWidth := o.printWidth.getD s.format.printWidth } }

def checkFileName (s : Settings) : Except SettingsError Settings :=
  if Path.isPlainName s.fileName then .ok s
  else .error (.invalidValue "fileName".toList (.notPlainName s.fileName))

end Settings

namespace Payload

/-- The output directory, if one is given that has a name. -/
def directory? (p : Payload) (o : Overrides) : Option Path :=
  let given := o.output <|> (p.generator.output.bind OutputValue.value)
  given.filter fun path => !path.isEmpty

def settings (p : Payload) (o : Overrides) : Except SettingsError Settings :=
  match p.directory? o with
  | none => .error .missingOutput
  | some directory => do
      let s ← Settings.takeKeys { directory } p.generator.config
      (s.override o).checkFileName

def ignoredFrom (s : Settings) : Members -> List (List Char)
  | [] => []
  | (key, j) :: rest =>
      match s.takeKey key j with
      | .error _ => []
      | .ok s =>
          if Settings.isKnownKey key then ignoredFrom s rest else key :: ignoredFrom s rest

/-- The keys that are passed over while the settings are taken. -/
def ignoredKeys (p : Payload) (o : Overrides) : List (List Char) :=
  match p.directory? o with
  | none => []
  | some directory => ignoredFrom { directory } p.generator.config

end Payload

namespace Settings

def outputPath (s : Settings) : Path :=
  Path.join s.directory s.fileName

end Settings

end SchemaTypes
