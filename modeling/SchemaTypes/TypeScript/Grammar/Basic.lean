import SchemaTypes.TypeScript.Syntax
import SchemaTypes.TypeScript.Semicolon

/-!
# Parsers

A parser reads a value from the front of a list of tokens and leaves the rest,
or fails.  Alternatives start again from the same place.  The rules of types,
expressions and statements refer to one another; a `Grammar` bundles the three
rules that close these circles, so that each rule is defined over a grammar for
the constructs nested in it.
-/

namespace SchemaTypes
namespace TypeScript

abbrev Parser (α : Type) := StateT (List Token) Option α

structure Grammar where
  type : Context -> Parser TypeTree
  expression : Context -> Parser Expression
  statement : Parser Statement

namespace Parser

/-!
## Single tokens
-/

def peek : Parser Token := do
  match ← get with
  | t :: _ => return t
  | [] => failure

def second : Parser (Option Token) := do
  match ← get with
  | _ :: t :: _ => return some t
  | _ => return none

/-- The next token, which is read.  The end of the source is never read. -/
def advance : Parser Token := do
  match ← get with
  | t :: rest => if t.kind == .endOfSource then failure else set rest; return t
  | [] => failure

def atMark (c : Char) : Parser Bool := return (← peek).isMark c

def atWord (w : String) : Parser Bool := return (← peek).isWord w

def atKind (k : TokenKind) : Parser Bool := return (← peek).kind == k

def require (b : Bool) : Parser Unit := if b then pure () else failure

def mark (c : Char) : Parser Token := do
  require (← atMark c)
  advance

def word (w : String) : Parser Token := do
  require (← atWord w)
  advance

def kind (k : TokenKind) : Parser Token := do
  require (← atKind k)
  advance

def startsWithMarks (ts : List Token) : List Char -> Bool
  | [] => true
  | [c] => ts.head?.any (·.isMark c)
  | c :: more =>
      match ts with
      | t :: n :: rest => t.isMark c && n.glued && startsWithMarks (n :: rest) more
      | _ => false

def atMarks (op : String) : Parser Bool := return startsWithMarks (← get) op.toList

def marks (op : String) : Parser Unit := do
  require (← atMarks op)
  modify (·.drop op.length)

def mark? (c : Char) : Parser Bool := do
  if ← atMark c then
    let _ ← advance
    return true
  else
    return false

def word? (w : String) : Parser Bool := do
  if ← atWord w then
    let _ ← advance
    return true
  else
    return false

def either? (p q : Parser Bool) : Parser Bool := do
  if ← p then return true else q

def spread? : Parser Bool := do
  if (← peek).text == "...".toList then
    let _ ← advance
    return true
  else
    return false

def comments : Parser (List Comment) := return (← peek).comments

/-!
## Combinations
-/

variable {α β : Type}

def optional? (p : Parser α) : Parser (Option α) := (some <$> p) <|> pure none

def manyFrom (p : Parser α) : Nat -> Parser (List α)
  | 0 => return []
  | fuel + 1 => do
      match ← optional? p with
      | some a => return a :: (← manyFrom p fuel)
      | none => return []

def many (p : Parser α) : Parser (List α) := do
  manyFrom p (← get).length

def separated (separator : Parser β) (p : Parser α) : Parser (List α) := do
  let first ← p
  let more ← many (do let _ ← separator; p)
  return first :: more

def withText (p : Parser α) : Parser (α × List Char) := do
  let start ← get
  let a ← p
  return (a, Token.textUpTo start (← get))

def textOf (p : Parser α) : Parser (List Char) := do
  return (← withText p).2

/-- The rows on which the tokens that `p` reads start and end, with its result. -/
def asItem (p : Parser α) : Parser (Item α) := do
  let start ← get
  let a ← p
  return .node ((start.head?.map Token.row).getD 0) (Token.endRowUpTo start (← get)) a

/-!
## Words

Any word may name a member; names that stand for themselves exclude some words.
-/

def reservedWords : List String :=
  ["break", "case", "catch", "class", "const", "continue", "debugger", "default", "delete", "do",
    "else", "export", "extends", "false", "finally", "for", "function", "if", "import", "in",
    "instanceof", "new", "null", "return", "super", "switch", "this", "throw", "true", "try",
    "typeof", "var", "void", "while", "with"]

/-- Reserved words that still name a value where an operand stands. -/
def reservedInOperands : List String := reservedWords.filter fun w => w != "export" && w != "new"

/-- Words that open an operand of another kind and so name no value. -/
def nonValueWords : List String := ["await", "yield", "using"] ++ reservedInOperands

def wordOutside (excluded : List String) : Parser Token := do
  let t ← peek
  require (t.kind == .word && !excluded.any t.isWord)
  advance

/-- A name of a type, a function or a module. -/
def identifier : Parser Token := wordOutside reservedWords

def valueName : Parser Token := wordOutside nonValueWords

/-- A name bound by `const`, `let` or `var`. -/
def bindingName : Parser Token := wordOutside ("enum" :: reservedWords)

/-- The name of a member, computed names apart. -/
def plainName : Parser PropertyName := do
  let t ← peek
  require ([TokenKind.word, .string, .number, .privateName].contains t.kind)
  let _ ← advance
  return ⟨t.text, t.kind == .string⟩

def propertyName (g : Grammar) : Parser PropertyName := do
  if ← atMark '[' then
    let s ← textOf do
      let _ ← mark '['
      let _ ← g.expression .operand
      mark ']'
    return ⟨s, false⟩
  else
    plainName

/-!
## Ends of statements
-/

def endsHere (context : Context) : Parser Bool := return context.endsBefore (← get)

/-- The end of a statement where no semicolon is written, with the comments that
still belong to the statement. -/
def automaticSemicolon (operators : Bool) : Parser (List Comment) := do
  let ts ← get
  match automaticSemicolon? operators ts with
  | some rest =>
      set rest
      return (Token.gapRead ts.head? rest).filterMap Trivia.comment?
  | none => failure

/-- The end of a statement: a semicolon, or a place where none is needed. -/
def semicolon (operators : Bool) : Parser Unit := do
  unless ← mark? ';' do
    let _ ← automaticSemicolon operators

end Parser

end TypeScript
end SchemaTypes
