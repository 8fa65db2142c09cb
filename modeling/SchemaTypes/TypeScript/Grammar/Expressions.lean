import SchemaTypes.TypeScript.Grammar.Functions

/-!
# Expressions

Operators of all precedences are read in one row of operands, since only two
things depend on how they nest: an ascription holds everything to its left, and
every other combination is kept as text.  A rule answers nothing where the
expression is kept as text.
-/

namespace SchemaTypes
namespace TypeScript
namespace Parser

def commentExpressions : Parser (List Expression) :=
  return (← comments).map fun c => .text c.text

def orText (start : List Token) : Option Expression -> Parser Expression
  | some e => return e
  | none => return .text (Token.textUpTo start (← get))

/-!
## Literals
-/

def commaAndComment : Parser Bool := do
  let commented := !(← comments).isEmpty
  let _ ← mark ','
  return commented

/-- What stands between two commas, if anything, and whether a comment stands in front of
it. -/
def slot {α : Type} (entry : Parser α) : Parser (Bool × Option α) := do
  let commented := !(← comments).isEmpty
  match ← optional? entry with
  | some a => return (commented, some a)
  | none => return (false, none)

def furtherSlot {α : Type} (entry : Parser α) : Parser (Bool × Option α) := do
  let before ← commaAndComment
  let (commented, entry) ← slot entry
  return (before || commented, entry)

/-- The entries between two brackets, with a hole where one is missing in front of a
comma; nothing if a comment stands between them. -/
def listBetween {α : Type} (open? close : Char) (hole : α) (entry : Parser α) :
    Parser (Option (List α)) := do
  let _ ← mark open?
  let first ← slot entry
  let more ← many (furtherSlot entry)
  let slots := first :: more
  let commented := slots.any (·.1) || !(← comments).isEmpty
  let _ ← mark close
  -- what is missing in front of the closing bracket is no entry
  let last := (slots.getLast?.bind (·.2)).toList
  let entries := slots.dropLast.map (fun s => s.2.getD hole) ++ last
  return if commented then none else some entries

def spreadExpression (g : Grammar) : Parser Unit := do
  require (← spread?)
  let _ ← g.expression .operand

def pairEntry (g : Grammar) : Parser Entry := do
  let key ← propertyName g
  let _ ← mark ':'
  return .pair key (← g.expression .operand)

def objectEntry (g : Grammar) : Parser Entry := do
  let shorthand : Parser Unit := do
    let _ ← wordOutside reservedInOperands
    require ((← atMark ',') || (← atMark '\x7d'))
  if (← peek).text == "...".toList then
    return .text (← textOf (spreadExpression g))
  else
    pairEntry g <|> (.text <$> textOf shorthand) <|> (.text <$> textOf (methodDefinition g))

def objectLiteral (g : Grammar) : Parser (Option Expression) := do
  return (← listBetween '\x7b' '\x7d' .hole (objectEntry g)).map .object

def arrayElement (g : Grammar) : Parser Expression := do
  if (← peek).text == "...".toList then
    return .text (← textOf (spreadExpression g))
  else
    g.expression .operand

def arrayLiteral (g : Grammar) : Parser (Option Expression) := do
  return (← listBetween '[' ']' .hole (arrayElement g)).map .array

def sequence (g : Grammar) (context : Context) : Parser (Option Expression) := do
  let first ← g.expression context
  let more ← many do
    let _ ← mark ','
    g.expression context
  return if more.isEmpty then some first else none

/-- An expression between parentheses, perhaps with a type behind it. -/
def parenthesizedExpression (g : Grammar) : Parser (Option Expression) := do
  let _ ← mark '('
  let before ← commentExpressions
  let start ← get
  let inner ← orText start (← sequence g .operand)
  let declared ← if ← atMark ':' then some <$> declaredType g .enclosed else pure none
  let _ ← mark ')'
  return (before ++ [inner]).head?.map fun e => .parenthesized e declared

def templateLiteral (g : Grammar) : Parser Unit := do
  if ← atKind .template then
    let _ ← advance
  else
    let substitution : Parser Unit := do
      let start ← get
      let _ ← orText start (← sequence g .operand)
    let _ ← kind .templateHead
    substitution
    let _ ← many do
      let _ ← kind .templateMiddle
      substitution
    let _ ← kind .templateTail

/-!
## Operands
-/

/-- An operand without operators around it. -/
def primaryExpression (g : Grammar) : Parser (Option Expression) := do
  let t ← peek
  let text (p : Parser Unit) : Parser (Option Expression) := do p; return none
  match t.kind with
  | .string =>
      let _ ← advance
      return some (.string t.text)
  | .number => text (do let _ ← advance)
  | .regex => text (do let _ ← advance)
  | .privateName => text (do let _ ← advance)
  | .template => text (templateLiteral g)
  | .templateHead => text (templateLiteral g)
  | .mark =>
      if t.isMark '(' then parenthesizedExpression g
      else if t.isMark '\x7b' then objectLiteral g
      else if t.isMark '[' then arrayLiteral g
      else if t.isMark '@' then text (classExpression g)
      else failure
  | .word =>
      let next ← second
      if t.isWord "function" then text (functionExpression g)
      else if t.isWord "async" && next.any (·.isWord "function") then text (functionExpression g)
      else if t.isWord "class" then text (classExpression g)
      else if ["this", "super", "true", "false", "null"].any t.isWord then
        text (do let _ ← advance)
      else if t.isWord "import" then
        text do
          let _ ← advance
          require ((← atMark '(') || (← atMark '.'))
      else if t.isWord "new" && next.any (·.isMark '.') then
        text do
          let _ ← advance
          let _ ← mark '.'
          let _ ← word "target"
      else
        text (do let _ ← valueName)
  | _ => failure

/-- One step behind an operand: a member, an index, a call, a template or a
postfix operator.  The answer tells whether the result can be assigned to. -/
def step (g : Grammar) (context : Context) : Parser Bool := do
  let t ← peek
  let target (p : Parser Unit) : Parser Bool := do p; return true
  let value (p : Parser Unit) : Parser Bool := do p; return false
  let index : Parser Unit := do
    let start ← get
    let _ ← mark '['
    let _ ← orText start (← sequence g .operand)
    let _ ← mark ']'
  if t.isMark '.' then
    let _ ← advance
    target nameBehindDot
  else if ← atMarks "?." then
    marks "?."
    if ← atMark '(' then value (callArguments g)
    else if ← atMark '<' then
      let _ ← typeArguments g
      value (callArguments g)
    else if ← atMark '[' then target index
    else target nameBehindDot
  else if t.isMark '[' then target index
  else if t.isMark '(' then value (callArguments g)
  else if t.kind == .template || t.kind == .templateHead then value (templateLiteral g)
  else if t.isMark '<' then
    let _ ← typeArguments g
    let n ← peek
    require (n.isMark '(' || n.kind == .template || n.kind == .templateHead ||
      n.kind == .endOfSource || ";),]\x7d.".toList.any n.isMark || (← endsHere context))
    return false
  else if t.isMark '!' then
    require (!(← atMarks "!=") && !(← endsHere context))
    target (do let _ ← advance)
  else if t.text == "++".toList || t.text == "--".toList then
    require (!(← endsHere context))
    value (do let _ ← advance)
  else failure

/-- A prefix operator; the answer tells whether it is `await`. -/
def prefixOperator (g : Grammar) : Parser Bool := do
  let t ← peek
  let next ← second
  if t.isWord "await" then
    let _ ← advance
    return true
  else if ["typeof", "void", "delete"].any t.isWord then
    let _ ← advance
    return false
  else if t.isWord "new" && next.any (fun n =>
      n.kind != .endOfSource && (n.kind != .mark || "([\x7b@".toList.any n.isMark)) then
    let _ ← advance
    return false
  else if t.isMark '<' then
    let _ ← typeArguments g
    return false
  else
    require ("!~+-".toList.any t.isMark || t.text == "++".toList || t.text == "--".toList)
    let _ ← advance
    return false

def ascribedType (g : Grammar) (context : Context) : Parser TypeTree := do
  let before ← commentTypes
  let t ← g.type ⟨context.ending, true⟩
  return (before ++ [t]).head?.getD t

def atWordOperator (context : Context) (w : String) : Parser Bool := do
  return (← atWord w) && !(← endsHere context)

/-- Whether an operand that starts with these tokens and has no steps behind it can
be assigned to. -/
def opensTarget (t : Token) (next : Option Token) : Bool :=
  if t.kind == .word then
    !(["this", "super", "true", "false", "null", "function", "class", "import"].any t.isWord ||
      (t.isWord "async" && next.any (·.isWord "function")) ||
      (t.isWord "new" && next.any (·.isMark '.')))
  else
    "([\x7b".toList.any t.isMark

/-- An operand without operators in front of it; the flag tells whether it can be
assigned to. -/
def closedOperand (g : Grammar) (context : Context) : Parser (Bool × Option Expression) := do
  let target := opensTarget (← peek) (← second)
  let primary ← primaryExpression g
  let steps ← many (step g context)
  return (steps.getLast?.getD target, if steps.isEmpty then primary else none)

def yieldExpression (g : Grammar) (context : Context) : Parser Unit := do
  let _ ← word "yield"
  if ← mark? '*' then
    let _ ← g.expression context
  else if !(← endsHere context) then
    let _ ← optional? (g.expression context)

/-- An assignment whose target is disposed of at the end of its block. -/
def usingAssignment (g : Grammar) (context : Context) : Parser Unit := do
  let _ ← word "using"
  let (target, _) ← closedOperand g context
  require target
  let _ ← mark '='
  let _ ← g.expression context

def openOperand (g : Grammar) (context : Context) : Parser Unit := do
  if ← atWord "yield" then yieldExpression g context
  else if ← atWord "using" then usingAssignment g context
  else arrowFunction g context

def prefixedOperand (g : Grammar) (context : Context) : Parser Unit := do
  let first ← prefixOperator g
  let prefixes := first :: (← many (prefixOperator g))
  let _ ← (do openOperand g context) <|> (do let _ ← closedOperand g context)
  if prefixes.contains true then
    let _ ← many do
      require ((← atWordOperator context "as") || (← atWordOperator context "satisfies"))
      let _ ← advance
      ascribedType g context

/-- An operand of operators, with its prefix and postfix operators; the flag tells
whether it can be assigned to. -/
def operandExpression (g : Grammar) (context : Context) : Parser (Bool × Option Expression) := do
  let text (p : Parser Unit) : Parser (Bool × Option Expression) := do p; return (false, none)
  text (openOperand g context) <|> text (prefixedOperand g context) <|> closedOperand g context

/-!
## Operators
-/

def binaryOperators : List String :=
  [">>>", "===", "!==", "**", "??", "&&", "||", "==", "!=", "<<", ">>", "<=", ">=", "<", ">",
    "|", "^", "&", "+", "-", "*", "/", "%"]

/-- The operators that assign what another operator yields. -/
def updateOperators : List String :=
  [">>>=", "**=", "&&=", "||=", "??=", ">>=", "<<=", "+=", "-=", "*=", "/=", "%=", "^=", "&=", "|="]

def operatorAmong (ops : List String) : Parser String := do
  let ts ← get
  match ops.find? (fun op => startsWithMarks ts op.toList) with
  | some op => return op
  | none => failure

def binaryOperator (context : Context) : Parser Unit := do
  if (← atWordOperator context "in") || (← atWordOperator context "instanceof") then
    let _ ← advance
  else
    let ts ← get
    require (!(updateOperators.any fun op => startsWithMarks ts op.toList))
    marks (← operatorAmong binaryOperators)

/-- What is assigned behind an operand, if an assignment stands here. -/
def assigned (g : Grammar) (context : Context) : Parser Unit := do
  require (!(← atMarks "=>"))
  marks (← operatorAmong (updateOperators ++ ["="]))
  let _ ← g.expression context

/-- The operators and operands behind an operand; `target` tells whether the operand
can be assigned to. -/
def operatorsFrom (g : Grammar) (context : Context) (start : List Token) :
    Nat -> Bool -> Option Expression -> Parser (Option Expression)
  | 0, _, left => return left
  | fuel + 1, target, left => do
      if (← if target then optional? (assigned g context) else pure none).isSome then
        return none
      else if ← atWordOperator context "as" then
        let value ← orText start left
        let _ ← advance
        let type ← ascribedType g context
        operatorsFrom g context start fuel false (some (.ascription value type))
      else if ← atWordOperator context "satisfies" then
        let _ ← advance
        let _ ← ascribedType g context
        operatorsFrom g context start fuel false none
      else
        match ← optional? (binaryOperator context) with
        | some () =>
            let (target, _) ← operandExpression g context
            operatorsFrom g context start fuel target none
        | none => return left

def operation (g : Grammar) (context : Context) (operand : Parser (Bool × Option Expression)) :
    Parser (Option Expression) := do
  let start ← get
  let (target, first) ← operand
  operatorsFrom g context start start.length target first

def expression (g : Grammar) (context : Context) : Parser Expression := do
  let start ← get
  let left ← operation g context (operandExpression g context)
  let e ←
    if (← atMark '?') && !(← atMarks "?.") && !(← atMarks "??") then do
      let _ ← advance
      let chosen : Parser Unit := do
        let _ ← g.expression .operand
        let _ ← mark ':'
      let parenthesized : Parser Unit := do
        require (← atMark '(')
        let _ ← operation g .operand (closedOperand g .operand)
        let _ ← mark ':'
      chosen <|> parenthesized
      let _ ← g.expression context
      pure none
    else
      pure left
  orText start e

end Parser
end TypeScript
end SchemaTypes
