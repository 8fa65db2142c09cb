import SchemaTypes.TypeScript.Token
import SchemaTypes.TypeScript.Character

/-!
# Automatic semicolons

A statement or a member may end without a semicolon at a line feed, at a closing
brace and at the end of the source.  Whether it does is decided by the gap after
its last token and by the token that follows, not by whether the statement could
go on.  Only the blanks of ASCII are passed over on the way.
-/

namespace SchemaTypes
namespace TypeScript

structure Context where
  /-- A statement or member may end here without a semicolon. -/
  ending : Bool
  /-- The operators of expressions may follow. -/
  operators : Bool
  deriving DecidableEq, Repr, Inhabited

namespace Context

/-- Inside brackets, where nothing ends by itself. -/
def enclosed : Context := ⟨false, false⟩

def typeEnding : Context := ⟨true, false⟩

def expressionEnding : Context := ⟨true, true⟩

/-- An expression, or a type next to the operators of one, inside brackets. -/
def operand : Context := ⟨false, true⟩

end Context

namespace Semicolon

/-- Words that start with the letters of an operator and go on without a letter
count as that operator. -/
def readsAsOperator (w : List Char) : Bool :=
  match w with
  | 'i' :: 'n' :: rest =>
      let goesOn (s : List Char) : Bool := (s.head?.map isLetter).getD false
      !goesOn rest || ("stanceof".toList.isPrefixOf rest && !goesOn (rest.drop 8))
  | _ => false

/-- Whether a token on a later row starts something new. -/
def startsAnew (operators : Bool) (ts : List Token) : Bool :=
  match ts with
  | [] => true
  | t :: more =>
      match t.text with
      | [] => true
      | c :: rest =>
          if "`,.;*%><=?^|&/:".toList.contains c then false
          else if c == '(' || c == '[' then !operators
          else if c == '+' || c == '-' then rest.head? == some c
          else if c == '!' then
            match more with
            | n :: _ => !(n.glued && n.isMark '=')
            | [] => true
          else if t.kind == .word then !readsAsOperator t.text
          else true

/-- Whether the statement ends, once a line feed was passed. -/
def endsAfterLineFeed (operators : Bool) (ts : List Token) : List Trivia -> Bool
  | [] => startsAnew operators ts
  | .blank s :: more => if s.all isPlainBlank then endsAfterLineFeed operators ts more else true
  | .comment _ :: more => endsAfterLineFeed operators ts more

def endsOnRow (operators : Bool) (ts : List Token) : Bool :=
  match ts with
  | [] => true
  | t :: more =>
      if t.kind == .endOfSource then true
      else if t.isMark '\x7d' then
        match more with
        | n :: _ =>
            if n.gapText.all isPlainBlank && n.text.head? == some ':' then operators else true
        | [] => true
      else false

/-- The end of a statement in a gap: what of the gap lies behind it, or nothing
if the statement goes on. -/
def inGap? (operators : Bool) (ts : List Token) : List Trivia -> Option (List Trivia)
  | [] => if endsOnRow operators ts then some [] else none
  | .comment _ :: more => inGap? operators ts more
  | .blank s :: more =>
      match s.dropWhile (fun c => isPlainBlank c && c != '\n') with
      | '\n' :: rest =>
          if endsAfterLineFeed operators ts (.blank rest :: more) then some (.blank s :: more)
          else none
      | _ :: _ =>
          match more with
          | .comment _ :: more => inGap? operators ts more
          | _ => none
      | [] =>
          match more with
          | [] => if endsOnRow operators ts then some [.blank s] else none
          | _ => inGap? operators ts more

end Semicolon

/-- What lies behind the statement that ends in front of the tokens, if one ends
there without a semicolon: comments on its last row still belong to it. -/
def automaticSemicolon? (operators : Bool) (ts : List Token) : Option (List Token) :=
  match ts with
  | [] => some []
  | t :: more => (Semicolon.inGap? operators ts t.gap).map fun gap => { t with gap } :: more

/-- Whether the place in front of the tokens ends the statement or member that
`context` allows to end. -/
def Context.endsBefore (context : Context) (ts : List Token) : Bool :=
  context.ending && (automaticSemicolon? context.operators ts).isSome

end TypeScript
end SchemaTypes
