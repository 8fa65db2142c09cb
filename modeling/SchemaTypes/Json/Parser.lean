import SchemaTypes.Json.Lexeme
import SchemaTypes.Json.Numeral

/-!
# Reading JSON values

Arrays and objects are read with a reader of what they hold, so that the readers of
values nest only as deep as they are told to.  A text is one value between blanks.
-/

namespace SchemaTypes
namespace Reader

/-- What comes next inside brackets: something to read, or the text behind them. -/
inductive Next where
  | more (rest : List Char)
  | close (rest : List Char)
  deriving DecidableEq, Repr, Inhabited

/-!
## Arrays

An array is read after its opening bracket.  Its first item has no comma before it.
-/

def nextItem (first : Bool) (s : List Char) : Except Fault Next :=
  match skipBlanks s with
  | [] => failBefore .endInList []
  | ']' :: rest => .ok (.close rest)
  | c :: rest =>
      if first then .ok (.more (c :: rest))
      else if c = ',' then
        match skipBlanks rest with
        | [] => failBefore .endInValue []
        | ']' :: rest => failAt .trailingComma (']' :: rest)
        | rest => .ok (.more rest)
      else failAt .expectedCommaOrBracket (c :: rest)

def items {α : Type} (item : Reader α) : Nat -> Bool -> Reader (List α)
  | 0, _, s => failBefore .endInList s
  | steps + 1, first, s => do
      match ← nextItem first s with
      | .close rest => .ok ([], rest)
      | .more rest =>
          let (x, rest) ← item rest
          let (xs, rest) ← items item steps false rest
          .ok (x :: xs, rest)

/-!
## Objects

An object is read after its opening brace.  What its members give is gathered in a
state, by a step that gets the key and reads on from the colon.
-/

/-- The inside of the next key of an object, or its end. -/
def nextKey (first : Bool) (s : List Char) : Except Fault Next :=
  match skipBlanks s with
  | [] => failBefore .endInObject []
  | '\x7d' :: rest => .ok (.close rest)
  | c :: rest =>
      if first then
        if c = '"' then .ok (.more rest) else failAt .keyNotString (c :: rest)
      else if c = ',' then
        match skipBlanks rest with
        | [] => failBefore .endInValue []
        | '"' :: rest => .ok (.more rest)
        | '\x7d' :: rest => failAt .trailingComma ('\x7d' :: rest)
        | rest => failAt .keyNotString rest
      else failAt .expectedCommaOrBrace (c :: rest)

def colon (s : List Char) : Except Fault (List Char) :=
  match skipBlanks s with
  | [] => failBefore .endInObject []
  | ':' :: rest => .ok rest
  | rest => failAt .expectedColon rest

/-- The members up to the end of an object, in at most so many steps, with keys of as
many characters. -/
def members {σ : Type} (step : σ -> List Char -> Reader σ) : Nat -> Bool -> σ -> Reader σ
  | 0, _, _, s => failBefore .endInObject s
  | steps + 1, first, state, s => do
      match ← nextKey first s with
      | .close rest => .ok (state, rest)
      | .more rest =>
          let (key, rest) ← text (steps + 1) rest
          let (state, rest) ← step state key rest
          members step steps false state rest

/-!
## Values
-/

/-- A member with its value set among the members read before it. -/
def memberInto (value : Reader Json) (o : Members) (key : List Char) : Reader Members := fun s => do
  let rest ← colon s
  let (j, rest) ← value rest
  .ok (o.put key j, rest)

/-- A value in which the given reader reads what arrays and objects hold, if they are
not too deep.  Nothing in it takes more steps than are given. -/
def valueWith (steps : Nat) (nested? : Option (Reader Json)) : Reader Json := fun s =>
  match skipBlanks s with
  | [] => failBefore .endInValue []
  | 'n' :: rest => do
      let rest ← word "ull".toList rest
      .ok (.null, rest)
  | 't' :: rest => do
      let rest ← word "rue".toList rest
      .ok (.bool true, rest)
  | 'f' :: rest => do
      let rest ← word "alse".toList rest
      .ok (.bool false, rest)
  | '-' :: rest => do
      let (n, rest) ← numeral true rest
      .ok (.number n, rest)
  | '"' :: rest => do
      let (t, rest) ← text steps rest
      .ok (.string t, rest)
  | '[' :: rest =>
      match nested? with
      | none => failAt .tooDeep ('[' :: rest)
      | some nested => do
          let (xs, rest) ← items nested steps true rest
          .ok (.array xs, rest)
  | '\x7b' :: rest =>
      match nested? with
      | none => failAt .tooDeep ('\x7b' :: rest)
      | some nested => do
          let (o, rest) ← members (memberInto nested) steps true [] rest
          .ok (.object o, rest)
  | rest =>
      if startsWithDigit rest then do
        let (n, rest) ← numeral false rest
        .ok (.number n, rest)
      else
        failAt .expectedValue rest

/-- A value with arrays and objects within each other up to a depth. -/
def value (steps : Nat) : Nat -> Reader Json
  | 0 => valueWith steps none
  | depth + 1 => valueWith steps (some (value steps depth))

/-- Arrays and objects lie within each other at most so deep. -/
def greatestDepth : Nat := 127

def only {α : Type} (read : Reader α) (s : List Char) : Except Fault α := do
  let (a, rest) ← read s
  match skipBlanks rest with
  | [] => .ok a
  | rest => failAt .trailingCharacters rest

/-- A whole text read as one value by a reader that may take a step for each of its
characters and one more.  A fault is given with its place. -/
def run {α : Type} (read : Nat -> Reader α) (s : List Char) : Except SyntaxError α :=
  match only (read (s.length + 1)) s with
  | .ok a => .ok a
  | .error fault => .error (fault.locate s)

end Reader

namespace Json

def parse (s : List Char) : Except SyntaxError Json :=
  Reader.run (fun steps => Reader.value steps Reader.greatestDepth) s

end Json

end SchemaTypes
