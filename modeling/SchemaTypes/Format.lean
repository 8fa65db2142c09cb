import SchemaTypes.TypeScript.Grammar.Statements
import SchemaTypes.TypeScript.Printer
import SchemaTypes.TypeScript.Recovery

/-!
# Formatting sources

A source is formatted by reading it as a program and printing the program.  The
options give the width of lines, the width of an indentation level and the line
ending of the output.
-/

namespace SchemaTypes

/-!
## Line endings
-/

inductive EndOfLine where
  | lf
  | crlf
  /-- The first line ending of the source. -/
  | auto
  deriving DecidableEq, Repr, Inhabited

namespace EndOfLine

def name : EndOfLine -> String
  | lf => "lf"
  | crlf => "crlf"
  | auto => "auto"

/-- The line ending of a name, whose letters may be large or small. -/
def ofName? (s : String) : Option EndOfLine :=
  [lf, crlf, auto].find? fun e => e.name.toList == s.toList.map Char.toLower

/-- What is said about a name that no line ending has. -/
def unknownName (s : String) : String :=
  "expected lf, crlf or auto, got '" ++ String.ofList (s.toList.map Char.toLower) ++ "'"

/-- Whether lines end in a pair of a carriage return and a line feed. -/
def isPair (e : EndOfLine) (source : List Char) : Bool :=
  match e with
  | lf => false
  | crlf => true
  | auto => Text.firstEndingIsPair source

end EndOfLine

/-!
## Options
-/

structure FormatOptions where
  printWidth : Nat := 100
  tabWidth : Nat := 2
  endOfLine : EndOfLine := .auto
  deriving DecidableEq, Repr, Inhabited

/-!
## Failures and panics
-/

/-- Why a step has no result: it fails, or the program panics and ends there. -/
inductive Halt (ε : Type) where
  | failure (e : ε)
  | panic
  deriving DecidableEq, Repr, Inhabited

namespace Halt

def map {ε δ : Type} (f : ε -> δ) : Halt ε -> Halt δ
  | failure e => failure (f e)
  | panic => panic

end Halt

/-- The fault of a source that is no program, with its line and column counted from one. -/
structure FormatError where
  line : Nat
  column : Nat
  reason : String
  deriving DecidableEq, Repr, Inhabited

namespace FormatError

/-- The fault at a place whose row and column count from zero. -/
def atPlace (row column : Nat) (reason : String) : FormatError :=
  ⟨row + 1, column + 1, reason⟩

def message (e : FormatError) : String :=
  "Syntax error at " ++ toString e.line ++ ":" ++ toString e.column ++ ": " ++ e.reason

end FormatError

namespace FormatOptions

/-- The most characters of ASCII that a text can hold. -/
def longestText : Nat := (1 <<< 63) - 1

def canIndent (o : FormatOptions) (lines : List TypeScript.Line) : Bool :=
  lines.all fun l => o.tabWidth * l.depth ≤ longestText

end FormatOptions

/-!
## Formatting
-/

variable [TypeScript.Recovery]

def syntaxError (source : List Char) : FormatError :=
  let fault := (TypeScript.Recovery.tree source).fault
  .atPlace fault.row fault.column (fault.reason source)

/-- The formatted text of a source.  The program panics where it would have to indent a line
by more than a text can hold. -/
def format (o : FormatOptions) (source : List Char) : Except (Halt FormatError) (List Char) :=
  let plain := Text.normalizeLines source
  if Text.allBlank plain then
    .ok []
  else
    match TypeScript.Program.parse? plain with
    | none => .error (.failure (syntaxError plain))
    | some program =>
        let lines := program.print o.printWidth
        if o.canIndent lines then
          let text := TypeScript.Line.renderAll o.tabWidth lines
          .ok (if o.endOfLine.isPair source then Text.carriageReturns text else text)
        else
          .error .panic

end SchemaTypes
