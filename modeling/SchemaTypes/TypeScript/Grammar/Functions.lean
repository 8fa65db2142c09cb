import SchemaTypes.TypeScript.Grammar.Types

/-!
# Functions and classes

Blocks, functions, arrow functions, methods and class bodies.  They have no
layout of their own, so their rules only decide what belongs to the program.
-/

namespace SchemaTypes
namespace TypeScript
namespace Parser

/-- A braced list of statements.  The end of the statement that a block finishes
may come directly behind it. -/
def block (g : Grammar) (operators : Bool) : Parser Unit := do
  let _ ← mark '\x7b'
  let _ ← many g.statement
  let _ ← mark '\x7d'
  let _ ← optional? (automaticSemicolon operators)

/-!
## Functions
-/

def functionExpression (g : Grammar) : Parser Unit := do
  let _ ← word? "async"
  let _ ← word "function"
  let _ ← mark? '*'
  if (← atKind .word) && !(← atMark '(') then
    let _ ← identifier
  callSignature g .enclosed
  block g true

def arrowBody (g : Grammar) (context : Context) : Parser Unit := do
  marks "=>"
  if ← atMark '\x7b' then
    block g true
  else
    let _ ← g.expression context

/-- An arrow function with its parameters between parentheses. -/
def parenthesizedArrow (g : Grammar) (context : Context) : Parser Unit := do
  let _ ← optional? (do let _ ← word "async"; require ((← atMark '(') || (← atMark '<')))
  callSignature g .enclosed
  arrowBody g context

def arrowFunction (g : Grammar) (context : Context) : Parser Unit := do
  let ts ← get
  let plain : Parser Unit := do
    let _ ← valueName
    arrowBody g context
  let behindName := startsWithMarks ts.tail "=>".toList
  let t ← peek
  if t.kind == .word && behindName then
    plain
  else if t.isWord "async" then
    let _ ← optional? (do
      let _ ← word "async"
      require ((← atKind .word) && startsWithMarks (← get).tail "=>".toList))
    if (← peek).isWord "async" then parenthesizedArrow g context else plain
  else
    require (t.isMark '<' || t.isMark '(')
    if t.isMark '(' then
      let behind := behindBracket 0 ts
      require (startsWithMarks behind "=>".toList || startsWithMarks behind [':'])
    parenthesizedArrow g context

/-!
## Methods
-/

/-- Whether a word in front of a method or field is a modifier and not its name. -/
def atMethodModifier (ws : List String) : Parser Bool := do
  match ← get with
  | t :: n :: _ =>
      return ws.any t.isWord &&
        ([TokenKind.word, .string, .number, .privateName].contains n.kind || n.isMark '[' ||
          n.isMark '*')
  | _ => return false

def methodModifiers (ws : List String) : Parser Unit := do
  let _ ← many do
    require (← atMethodModifier ws)
    advance

def methodDefinition (g : Grammar) : Parser Unit := do
  methodModifiers ["public", "private", "protected", "static", "override", "readonly", "async",
    "get", "set"]
  let _ ← mark? '*'
  let _ ← propertyName g
  let _ ← mark? '?'
  callSignature g .enclosed
  block g false

/-!
## Classes
-/

def fieldRest (g : Grammar) : Parser Unit := do
  unless ← mark? '!' do
    let _ ← mark? '?'
  let annotated ← atMark ':'
  if annotated then
    let _ ← declaredType g .typeEnding
  let valued ← atMark '='
  if valued then
    let _ ← mark '='
    let _ ← g.expression .expressionEnding
  unless ← mark? ',' do
    semicolon valued

def classMember (g : Grammar) : Parser Unit := do
  let modifiers := ["declare", "public", "private", "protected", "static", "override", "readonly",
    "abstract", "async", "accessor", "get", "set"]
  if ← mark? ';' then
    return
  else if (← atWord "static") && (← second).any (·.isMark '\x7b') then
    let _ ← advance
    block g false
  else
    let _ ← many (decorator g)
    methodModifiers modifiers
    let _ ← mark? '*'
    if ← atIndexSignature then
      indexSignatureRest g
      unless ← mark? ',' do
        semicolon false
    else
      let _ ← propertyName g
      let method : Parser Unit := do
        let _ ← mark? '?'
        callSignature g .typeEnding
        if ← atMark '\x7b' then
          block g false
          let _ ← mark? ';'
        else
          unless ← mark? ',' do
            semicolon false
      method <|> fieldRest g

def classBody (g : Grammar) : Parser Unit := do
  let _ ← mark '\x7b'
  let _ ← many (classMember g)
  let _ ← mark '\x7d'

/-- A class that is extended: a name with type arguments, or any expression. -/
def parentClass (g : Grammar) : Parser Unit := do
  let member : Parser Unit := do
    let _ ← mark '.'
    nameBehindDot
  let applied : Parser Unit := do
    let _ ← valueName
    let _ ← many (member <|> callArguments g)
    let _ ← typeArguments g
    require ((← atMark '\x7b') || (← atMark ',') || (← atWord "implements"))
  let any : Parser Unit := do
    let _ ← g.expression .operand
  applied <|> any

/-- The type parameters, the heritage and the body of a class. -/
def classRest (g : Grammar) : Parser Unit := do
  if ← atMark '<' then
    typeParameters g
  if ← word? "extends" then
    let _ ← separated (mark ',') (parentClass g)
  if ← word? "implements" then
    let _ ← separated (mark ',') (g.type .enclosed)
  classBody g

def className : Parser Token := wordOutside ("implements" :: reservedWords)

def classExpression (g : Grammar) : Parser Unit := do
  let _ ← many (decorator g)
  let _ ← word "class"
  let _ ← optional? className
  classRest g

end Parser
end TypeScript
end SchemaTypes
