import SchemaTypes.TypeScript.Grammar.Basic

/-!
# Parameters and arguments

The lists between angle brackets and between parentheses that types, functions
and calls share, and the patterns that parameters and declarations bind.
-/

namespace SchemaTypes
namespace TypeScript
namespace Parser

/-!
## Type parameters, type arguments and arguments
-/

def typeParameter (g : Grammar) : Parser Unit := do
  if ← atWord "const" then
    let _ ← advance
  let _ ← identifier
  if ← either? (word? "extends") (mark? ':') then
    let _ ← g.type .enclosed
  if ← mark? '=' then
    let _ ← g.type .enclosed

def typeParameters (g : Grammar) : Parser Unit := do
  let _ ← mark '<'
  let _ ← separated (mark ',') (typeParameter g)
  let _ ← mark? ','
  let _ ← mark '>'

/-- The comments in front of the next token, each in place of a type. -/
def commentTypes : Parser (List TypeTree) := return (← comments).map TypeTree.ofComment

def typeArgument (g : Grammar) : Parser (List TypeTree) := do
  let before ← commentTypes
  return before ++ [← g.type .enclosed]

def furtherTypeArgument (g : Grammar) : Parser (List TypeTree) := do
  let before ← commentTypes
  let _ ← mark ','
  return before ++ (← typeArgument g)

def typeArguments (g : Grammar) : Parser (List TypeTree) := do
  let _ ← mark '<'
  let first ← typeArgument g
  let more ← many (furtherTypeArgument g)
  let before ← commentTypes
  let trailing ← mark? ','
  let behind ← if trailing then commentTypes else pure []
  let _ ← mark '>'
  return first ++ more.flatten ++ before ++ behind

/-- The type after a colon.  A comment in front of it takes its place, and a type
that is no part gives way to the text of both. -/
def declaredType (g : Grammar) (context : Context) : Parser TypeTree := do
  let (parts, s) ← withText do
    let _ ← mark ':'
    let before ← commentTypes
    return before ++ (← g.type context).parts
  return parts.head?.getD (.text s)

def callArguments (g : Grammar) : Parser Unit := do
  let argument : Parser Unit := do
    let _ ← spread?
    let _ ← g.expression .operand
  let _ ← mark '('
  let _ ← optional? argument
  let _ ← many do
    let _ ← mark ','
    optional? argument
  let _ ← mark ')'

/-!
## Patterns
-/

/-- The value a parameter or an entry of a pattern takes by default. -/
def initializer (g : Grammar) : Parser Unit := do
  let _ ← mark '='
  let _ ← g.expression .operand

/-- A name or a pattern of names; `binding` reads a plain name. -/
def patternFrom (g : Grammar) (binding : Parser Token) : Nat -> Parser Unit
  | 0 => failure
  | fuel + 1 => do
      let pattern := patternFrom g binding fuel
      let withDefault : Parser Unit := do
        pattern
        if ← atMark '=' then initializer g
      let entry : Parser Unit := do
        if ← spread? then
          pattern
        else
          let t ← peek
          let _ ← propertyName g
          if ← mark? ':' then
            withDefault
          else
            require (t.kind == .word)
            if ← atMark '=' then initializer g
      let element : Parser Unit := do
        if ← spread? then
          pattern
        else
          withDefault
      if ← mark? '\x7b' then
        let _ ← optional? entry
        let _ ← many do
          let _ ← mark ','
          optional? entry
        let _ ← mark '\x7d'
      else if ← mark? '[' then
        let _ ← optional? element
        let _ ← many do
          let _ ← mark ','
          optional? element
        let _ ← mark ']'
      else
        let _ ← binding

def pattern (g : Grammar) (binding : Parser Token) : Parser Unit := do
  patternFrom g binding (← get).length

/-!
## Parameters
-/

def atParameterModifier (words : List String) : Parser Bool := do
  let t ← peek
  if words.any t.isWord then
    match ← second with
    | some n => return n.kind == .word || n.isMark '\x7b' || n.isMark '['
    | none => return false
  else
    return false

def decorator (g : Grammar) : Parser Unit := do
  let path : Parser Unit := do
    let _ ← identifier
    let _ ← many do
      let _ ← mark '.'
      kind .word
    if (← atMark '(') || (← atMark '<') then
      if ← atMark '<' then
        let _ ← typeArguments g
      callArguments g
  let _ ← mark '@'
  if ← mark? '(' then
    path
    let _ ← mark ')'
  else
    path

def parameter (g : Grammar) : Parser Unit := do
  let _ ← many (decorator g)
  if ← atParameterModifier ["public", "private", "protected"] then
    let _ ← advance
  if ← atParameterModifier ["override"] then
    let _ ← advance
  if ← atParameterModifier ["readonly"] then
    let _ ← advance
  let _ ← spread?
  if ← atWord "this" then
    let _ ← advance
  else
    pattern g identifier
  let _ ← mark? '?'
  if ← atMark ':' then
    let _ ← declaredType g .enclosed
  if ← atMark '=' then
    initializer g

def formalParameters (g : Grammar) : Parser Unit := do
  let _ ← mark '('
  let first ← optional? (parameter g)
  if first.isSome then
    let _ ← many do
      let _ ← mark ','
      parameter g
    let _ ← mark? ','
  let _ ← mark ')'

/-- The type of a function's result: a type, or what the call asserts of a name. -/
def returnType (g : Grammar) (context : Context) : Parser Unit := do
  let subject : Parser Token := do
    if ← atWord "this" then advance else identifier
  let predicate : Parser Unit := do
    let _ ← subject
    require (!(← endsHere context))
    let _ ← word "is"
    let _ ← g.type context
  let assertion : Parser Unit := do
    let _ ← word "asserts"
    require (!(← endsHere context))
    predicate <|> (do let _ ← subject)
  assertion <|> predicate <|> (do let _ ← g.type context)

/-- Type parameters, parameters and the type of the result. -/
def callSignature (g : Grammar) (context : Context) : Parser Unit := do
  if ← atMark '<' then
    typeParameters g
  formalParameters g
  if ← atMark ':' then
    let _ ← mark ':'
    returnType g context

end Parser
end TypeScript
end SchemaTypes
