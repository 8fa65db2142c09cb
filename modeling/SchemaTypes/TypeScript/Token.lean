import SchemaTypes.Text.Blank

/-!
# Tokens

A source is read as a list of tokens.  Each token carries the gap in front of
it: the blanks and comments between it and the token before.  Gaps and texts
set one after the other give back the source, so a piece of source can be
copied exactly from the tokens it was read into.
-/

namespace SchemaTypes
namespace TypeScript

/-!
## Gaps

Only a line feed starts a new row.  Comments remember the row they start on,
because the layout of the output depends on it.
-/

structure Comment where
  text : List Char
  row : Nat
  deriving DecidableEq, Repr, Inhabited

namespace Comment

def endRow (c : Comment) : Nat :=
  c.row + Text.lineFeeds c.text

end Comment

inductive Trivia where
  | blank (text : List Char)
  | comment (comment : Comment)
  deriving DecidableEq, Repr, Inhabited

namespace Trivia

def text : Trivia -> List Char
  | blank s => s
  | comment c => c.text

def comment? : Trivia -> Option Comment
  | blank _ => none
  | comment c => some c

end Trivia

/-!
## Kinds of tokens

Marks are single characters, apart from `...`, `++` and `--`: which characters
form one operator depends on the place, so the grammar joins them.  A template
without substitutions is one token; otherwise its pieces surround the tokens of
the substitutions.
-/

inductive TokenKind where
  | word
  | privateName
  | number
  | string
  | template
  | templateHead
  | templateMiddle
  | templateTail
  | regex
  | mark
  | interpreterLine
  | endOfSource
  deriving DecidableEq, Repr, Inhabited

structure Token where
  gap : List Trivia
  kind : TokenKind
  text : List Char
  /-- The row on which the text starts. -/
  row : Nat
  deriving DecidableEq, Repr, Inhabited

namespace Token

def endRow (t : Token) : Nat :=
  t.row + Text.lineFeeds t.text

def gapText (t : Token) : List Char :=
  t.gap.flatMap Trivia.text

def comments (t : Token) : List Comment :=
  t.gap.filterMap Trivia.comment?

def glued (t : Token) : Bool :=
  t.gap.isEmpty

def isWord (t : Token) (w : String) : Bool :=
  t.kind == .word && t.text == w.toList

def isMark (t : Token) (c : Char) : Bool :=
  t.kind == .mark && t.text == [c]

def source (ts : List Token) : List Char :=
  ts.flatMap fun t => t.gapText ++ t.text

/-!
## Pieces of a source

A piece is what was read between two places.  The place behind it may lie inside
a gap, whose front then belongs to the piece.
-/

def gapRead (next? : Option Token) (rest : List Token) : List Trivia :=
  match next?, rest with
  | some t, r :: _ => t.gap.take (t.gap.length - r.gap.length)
  | _, _ => []

/-- The text from the first token of `ts` to the place in front of `rest`, without
the gap before the first token. -/
def textUpTo (ts rest : List Token) : List Char :=
  let n := ts.length - rest.length
  let tail := (gapRead ts[n]? rest).flatMap Trivia.text
  match ts.take n with
  | [] => tail
  | t :: more => t.text ++ source more ++ tail

/-- The row of the place in front of `rest`, which was reached from `ts`. -/
def endRowUpTo (ts rest : List Token) : Nat :=
  let n := ts.length - rest.length
  match (gapRead ts[n]? rest).filterMap Trivia.comment? |>.getLast? with
  | some c => c.endRow
  | none => ((ts.take n).getLast?.map endRow).getD 0

end Token

end TypeScript
end SchemaTypes
