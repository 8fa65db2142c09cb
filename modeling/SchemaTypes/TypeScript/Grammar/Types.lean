import SchemaTypes.TypeScript.Grammar.Members

/-!
# Types

From the loosest to the tightest: conditional types, unions, intersections,
prefixed types, and indexing behind a primary type.  Function types and
`readonly` take everything to their right.  A comment between the parts of a type
counts as a part; one behind its last token does not.
-/

namespace SchemaTypes
namespace TypeScript
namespace Parser

/-!
## Looking ahead
-/

def behindBracket : Nat -> List Token -> List Token
  | _, [] => []
  | depth, t :: rest =>
      let opens := t.isMark '(' || t.isMark '[' || t.isMark '\x7b' || t.kind == .templateHead
      let closes := t.isMark ')' || t.isMark ']' || t.isMark '\x7d' || t.kind == .templateTail
      if opens then behindBracket (depth + 1) rest
      else if closes then
        if depth ≤ 1 then rest else behindBracket (depth - 1) rest
      else behindBracket depth rest

/-- Whether a parenthesis opens the parameters of a function type. -/
def atFunctionParameters : Parser Bool := do
  return startsWithMarks (behindBracket 0 (← get)) "=>".toList

/-!
## Primary types
-/

def nonTypeWords : List String :=
  ["abstract", "infer", "keyof", "readonly", "unique"] ++ reservedWords

def nonQueryWords : List String :=
  ["any", "async", "await", "boolean", "declare", "get", "let", "module", "namespace", "number",
    "object", "override", "private", "protected", "public", "readonly", "set", "static", "string",
    "symbol", "type", "undefined", "using", "yield"] ++ reservedWords

def literalWords : List String := ["true", "false", "null", "this", "void"]

/-- Types with a name of their own, which takes no arguments and no further name. -/
def predefinedWords : List String :=
  ["any", "number", "boolean", "string", "symbol", "void", "unknown", "never", "object",
    "undefined", "null", "true", "false", "this"]

def textType (p : Parser Unit) : Parser TypeTree := .text <$> textOf p

def parenthesizedType (g : Grammar) : Parser TypeTree := do
  let (parts, s) ← withText do
    let _ ← mark '('
    let before ← commentTypes
    let inner ← g.type .enclosed
    let behind ← commentTypes
    let _ ← mark ')'
    return before ++ inner.parts ++ behind
  return match parts with
    | first :: _ => .parenthesized first
    | [] => .text s

def functionType (g : Grammar) (context : Context) : Parser Unit := do
  if ← atMark '<' then
    typeParameters g
  formalParameters g
  marks "=>"
  returnType g context

def tupleMember (g : Grammar) : Parser Unit := do
  let label : Parser Unit := do
    let _ ← identifier
    let _ ← mark? '?'
    let _ ← mark ':'
    let _ ← g.type .enclosed
  let rest : Parser Unit := do
    require (← spread?)
    label <|> (do let _ ← g.type .enclosed)
  let plain : Parser Unit := do
    let _ ← g.type .enclosed
    let _ ← mark? '?'
  rest <|> label <|> plain

def tupleType (g : Grammar) : Parser Unit := do
  let _ ← mark '['
  let _ ← optional? (separated (mark ',') (tupleMember g))
  let _ ← mark? ','
  let _ ← mark ']'

/-- The pieces of a template type and the types between them.  Escapes are not
allowed in it, nor are types that take everything to their right. -/
def templateType (g : Grammar) : Parser Unit := do
  let substitution : Parser Unit := do
    let t ← peek
    require (!t.isMark '<' && !t.isWord "readonly")
    require (!(t.isMark '(' && (← atFunctionParameters)))
    let _ ← g.type .enclosed
  let piece (k : TokenKind) : Parser Unit := do
    let t ← kind k
    require (!t.text.contains '\\')
  if ← atKind .template then
    piece .template
  else
    piece .templateHead
    substitution
    let _ ← many do
      piece .templateMiddle
      substitution
    piece .templateTail

def pathRest : Parser Unit := do
  let _ ← many do
    let _ ← mark '.'
    identifier

def nameBehindDot : Parser Unit := do
  require ([TokenKind.word, .privateName].contains (← peek).kind)
  let _ ← advance

def importType (g : Grammar) : Parser Unit := do
  let _ ← word "import"
  let call : Parser Unit := callArguments g
  let name : Parser Unit := do
    let _ ← mark '.'
    nameBehindDot
  let first ← many (call <|> name)
  require (!first.isEmpty)

def queryIndex : Parser Unit := do
  let _ ← mark '['
  let t ← peek
  require (t.kind == .string || t.kind == .number || predefinedWords.any t.isWord)
  let _ ← advance
  let _ ← mark ']'

def queryStep (g : Grammar) (context : Context) : Parser Unit := do
  if ← atMarks "?." then
    marks "?."
    if ← atMark '[' then queryIndex else nameBehindDot
  else if ← mark? '.' then
    nameBehindDot
  else
    require (!(← endsHere context))
    callArguments g

/-- What `typeof` asks for: a path with calls in it, or a name with indices. -/
def typeQuery (g : Grammar) (context : Context) : Parser Unit := do
  if ← atWord "import" then
    importType g
  else
    unless ← word? "this" do
      let _ ← wordOutside nonQueryWords
    let steps ← many (queryStep g context)
    if steps.isEmpty then
      let _ ← many (do require (!(← endsHere context)); queryIndex)
    if (← atMark '<') && !(← endsHere context) then
      let _ ← optional? (typeArguments g)

/-- A name, perhaps with a path and arguments. -/
def namedType (g : Grammar) : Parser TypeTree := do
  let (t, s) ← withText do
    let t ← wordOutside nonTypeWords
    if !predefinedWords.any t.isWord then
      pathRest
    return t
  if (← atMark '<') && !predefinedWords.any t.isWord then
    return .generic s (← typeArguments g)
  else
    return .text s

def primaryType (g : Grammar) (context : Context) : Parser TypeTree := do
  let t ← peek
  match t.kind with
  | .string =>
      let _ ← advance
      return .string t.text
  | .number =>
      let _ ← advance
      return .text t.text
  | .template => textType (templateType g)
  | .templateHead => textType (templateType g)
  | .mark =>
      if t.isMark '(' then parenthesizedType g
      else if t.isMark '\x7b' then textType (do let _ ← objectMembers g)
      else if t.isMark '[' then textType (tupleType g)
      else if t.isMark '*' then textType (do let _ ← advance)
      else if t.isMark '-' || t.isMark '+' then
        textType do
          let _ ← advance
          let _ ← kind .number
      else failure
  | .word =>
      if t.isWord "const" then
        let _ ← advance
        return .constant
      else if literalWords.any t.isWord then
        textType (do let _ ← advance)
      else if t.isWord "unique" then
        textType do
          let _ ← advance
          let _ ← word "symbol"
      else if t.isWord "typeof" then
        let (parts, _) ← withText do
          let _ ← advance
          let before := (← comments).map Comment.text
          return before ++ [← textOf (typeQuery g context)]
        return .typeOf (parts.head?.getD [])
      else
        namedType g
  | _ => failure

def indexedFrom (g : Grammar) (context : Context) (start : List Token) :
    Nat -> TypeTree -> Parser TypeTree
  | 0, object => return object
  | fuel + 1, object => do
      if (← atMark '[') && !(← endsHere context) then
        let before ← commentTypes
        let _ ← advance
        let inside ← commentTypes
        if ← atMark ']' then
          let _ ← advance
          let s := Token.textUpTo start (← get)
          let parts := object.parts ++ before ++ inside
          indexedFrom g context start fuel (parts.head?.elim (.text s) .array)
        else
          let index ← g.type .enclosed
          let behind ← commentTypes
          let _ ← mark ']'
          let s := Token.textUpTo start (← get)
          indexedFrom g context start fuel <|
            match object.parts ++ before ++ inside ++ index.parts ++ behind with
            | [object, index] => .lookup object index
            | _ => .text s
      else
        return object

def indexedType (g : Grammar) (context : Context) : Parser TypeTree := do
  let start ← get
  let object ← primaryType g context
  indexedFrom g context start start.length object

/-!
## Operators
-/

def atTypeOperator (context : Context) (c : Char) : Parser Bool := do
  let ts ← get
  let doubled := startsWithMarks ts [c, c]
  return startsWithMarks ts [c] && !(context.operators && doubled) &&
    !startsWithMarks ts ['|', '\x7d']

mutual

def operandType (g : Grammar) (context : Context) : Nat -> Parser TypeTree
  | 0 => failure
  | fuel + 1 => do
      let t ← peek
      if t.isMark '|' || t.isMark '&' then
        prefixedBy g context fuel
      else if t.isMark '<' then
        textType (functionType g context)
      else if t.isMark '(' && (← atFunctionParameters) then
        textType (functionType g context)
      else if t.isMark '?' then
        textType do
          let _ ← advance
          let _ ← g.type context
      else if t.isWord "readonly" then
        textType do
          let _ ← advance
          let _ ← g.type context
      else if t.isWord "infer" then
        textType do
          let _ ← advance
          let _ ← identifier
          if (← atWord "extends") && !(← endsHere context) then
            let _ ← advance
            let _ ← g.type context
      else if t.isWord "import" then
        textType (importType g)
      else if t.isWord "new" || t.isWord "abstract" then
        textType do
          let _ ← word? "abstract"
          let _ ← word "new"
          if ← atMark '<' then
            typeParameters g
          formalParameters g
          marks "=>"
          let _ ← operandType g context fuel
      else if t.isWord "keyof" then
        let (parts, s) ← withText do
          let _ ← advance
          let before ← commentTypes
          let t ← peek
          let operand ←
            if t.isWord "keyof" || t.isMark '|' || t.isMark '&' then operandType g context fuel
            else indexedType g context
          return before ++ operand.parts
        return parts.head?.elim (.text s) .keyOf
      else
        indexedType g context

def prefixedBy (g : Grammar) (context : Context) : Nat -> Parser TypeTree
  | 0 => failure
  | fuel + 1 => do
      if ← mark? '&' then
        let before ← commentTypes
        return .intersection (before ++ [← operandType g context fuel])
      else
        let _ ← mark '|'
        let before ← commentTypes
        let operand ← intersectionType g context fuel
        return .union (before ++ operand.unionMembers)

/-- A type without a union at its top, apart from one with a leading bar. -/
def intersectionType (g : Grammar) (context : Context) : Nat -> Parser TypeTree
  | 0 => failure
  | fuel + 1 => do
      let first ← operandType g context fuel
      intersectionFrom g context fuel first

def intersectionFrom (g : Grammar) (context : Context) : Nat -> TypeTree -> Parser TypeTree
  | 0, _ => failure
  | fuel + 1, left => do
      if ← atTypeOperator context '&' then
        let before ← commentTypes
        let _ ← advance
        let between ← commentTypes
        let right ← operandType g context fuel
        intersectionFrom g context fuel
          (.intersection (left :: before ++ between ++ [right]))
      else
        return left

end

def unionFrom (g : Grammar) (context : Context) : Nat -> TypeTree -> Parser TypeTree
  | 0, _ => failure
  | fuel + 1, left => do
      if ← atTypeOperator context '|' then
        let before ← commentTypes
        let _ ← advance
        let between ← commentTypes
        let right ← intersectionType g context fuel
        unionFrom g context fuel
          (.union (left.unionMembers ++ before ++ between ++ right.unionMembers))
      else
        return left

def unionType (g : Grammar) (context : Context) : Parser TypeTree := do
  let fuel := 3 * (← get).length
  let first ← intersectionType g context fuel
  unionFrom g context fuel first

def type (g : Grammar) (context : Context) : Parser TypeTree := do
  let start ← get
  let left ← unionType g context
  if (← atWord "extends") && !(← endsHere context) then
    let _ ← advance
    let _ ← unionType g .enclosed
    let _ ← mark '?'
    let _ ← g.type .enclosed
    let _ ← mark ':'
    let _ ← g.type context
    return .text (Token.textUpTo start (← get))
  else
    return left

end Parser
end TypeScript
end SchemaTypes
