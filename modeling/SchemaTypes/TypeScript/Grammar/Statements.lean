import SchemaTypes.TypeScript.Grammar.Expressions
import SchemaTypes.TypeScript.Lexer

/-!
# Statements

Interfaces, type aliases and `const` and `let` declarations have structure, also
behind `export`.  Every other statement is read to its end and kept as text.
-/

namespace SchemaTypes
namespace TypeScript
namespace Parser

def textStatement (p : Parser Unit) : Parser Statement := .text <$> textOf p

/-- Whether a word that could also be a name opens a declaration: the next token
fits and stands on the same row. -/
def opensDeclaration (w : String) (fits : Token -> Bool) : Parser Bool := do
  let ts ← get
  match ts with
  | t :: n :: _ => return t.isWord w && fits n && !(Context.expressionEnding.endsBefore ts.tail)
  | _ => return false

def isWordToken (t : Token) : Bool := t.kind == .word

/-!
## Declarations with structure
-/

def interfaceDeclaration (g : Grammar) : Parser Statement := do
  let _ ← word "interface"
  let name ← identifier
  let parameters ← if ← atMark '<' then textOf (typeParameters g) else pure []
  let parent : Parser Unit := do
    let _ ← identifier
    pathRest
    if ← atMark '<' then
      let _ ← typeArguments g
  let parents ←
    if ← atWord "extends" then
      some <$> textOf (do
        let _ ← advance
        let _ ← separated (mark ',') parent)
    else
      pure none
  let (exact, members) ← objectMembers g
  return .interface none name.text parameters parents exact members

def aliasDeclaration (g : Grammar) : Parser Statement := do
  let _ ← word "type"
  let name ← identifier
  let parameters ← if ← atMark '<' then textOf (typeParameters g) else pure []
  let _ ← mark '='
  let value ← g.type .typeEnding
  semicolon false
  return .typeAlias none name.text parameters value

def definiteMark : Parser Bool := do
  if ← endsHere .typeEnding then return false else mark? '!'

/-- The type of a declarator, which has to follow an exclamation mark. -/
def declaratorType (g : Grammar) (definite : Bool) : Parser (Option TypeTree) := do
  if definite || (← atMark ':') then some <$> declaredType g .typeEnding else return none

/-- The value of a declarator, which never follows an exclamation mark. -/
def declaratorValue (g : Grammar) (definite : Bool) : Parser (Option Expression) := do
  if !definite && (← atMark '=') then
    let _ ← mark '='
    some <$> g.expression .expressionEnding
  else
    return none

def declarator (g : Grammar) : Parser Declarator := do
  let name ← textOf (pattern g bindingName)
  let definite ← definiteMark
  let declared ← declaratorType g definite
  let value ← declaratorValue g definite
  return ⟨name, definite, declared, value⟩

/-- The declarations behind a keyword, up to the end of the statement. -/
def declarators (g : Grammar) : Parser (List Declarator) := do
  let ds ← separated (mark ',') (declarator g)
  semicolon ((ds.getLast?.map (·.value.isSome)).getD false)
  return ds

def lexicalDeclaration (g : Grammar) : Parser Statement := do
  let keyword ← advance
  require (keyword.isWord "const" || keyword.isWord "let")
  return .lexical none keyword.text (← declarators g)

/-!
## Other declarations
-/

def functionDeclaration (g : Grammar) : Parser Unit := do
  let _ ← word? "async"
  let _ ← word "function"
  let _ ← mark? '*'
  let _ ← identifier
  callSignature g .typeEnding
  if ← atMark '\x7b' then
    block g false
  else
    semicolon false

def classDeclaration (g : Grammar) : Parser Unit := do
  let _ ← many (decorator g)
  let _ ← word? "abstract"
  let _ ← word "class"
  let _ ← className
  classRest g
  let _ ← optional? (automaticSemicolon false)

def enumDeclaration (g : Grammar) : Parser Unit := do
  let entry : Parser Unit := do
    let _ ← propertyName g
    if ← atMark '=' then
      initializer g
  let _ ← word? "const"
  let _ ← word "enum"
  let _ ← identifier
  let _ ← mark '\x7b'
  let _ ← optional? (separated (mark ',') entry)
  let _ ← mark? ','
  let _ ← mark '\x7d'

def moduleDeclaration (g : Grammar) : Parser Unit := do
  let _ ← advance
  if ← atKind .string then
    let _ ← advance
  else
    let _ ← identifier
    pathRest
  if ← atMark '\x7b' then
    block g false

def importAlias : Parser Unit := do
  let _ ← identifier
  let _ ← mark '='
  let _ ← identifier
  pathRest
  semicolon false

/-- A declaration; `behindWord` tells whether it stands behind `export` or `declare`, where
its first word cannot be a name. -/
def declaration (g : Grammar) (behindWord : Bool) : Nat -> Parser Statement
  | 0 => failure
  | fuel + 1 => do
      let t ← peek
      let opens (w : String) (fits : Token -> Bool) : Parser Bool := do
        if behindWord then return t.isWord w else opensDeclaration w fits
      if t.isWord "interface" then interfaceDeclaration g
      else if ← opens "type" isWordToken then aliasDeclaration g
      else if t.isWord "const" && (← second).any (·.isWord "enum") then
        textStatement (enumDeclaration g)
      else if t.isWord "const" then lexicalDeclaration g
      else if ← opens "let" (fun n => isWordToken n || n.isMark '\x7b' || n.isMark '[') then
        lexicalDeclaration g
      else if t.isWord "var" then
        textStatement do
          let _ ← advance
          let _ ← declarators g
      else if t.isWord "enum" then textStatement (enumDeclaration g)
      else if t.isWord "function" then textStatement (functionDeclaration g)
      else if t.isWord "async" && (← second).any (·.isWord "function") then
        textStatement (functionDeclaration g)
      else if t.isWord "class" || t.isWord "abstract" || t.isMark '@' then
        textStatement (classDeclaration g)
      else if (← opens "namespace" isWordToken) ||
          (← opens "module" fun n => isWordToken n || n.kind == .string) then
        textStatement (moduleDeclaration g)
      else if t.isWord "import" then
        textStatement do
          let _ ← advance
          importAlias
      else if ← opens "declare" isWordToken then
        textStatement do
          let _ ← advance
          if ← atWord "global" then
            let _ ← advance
            block g false
          else
            let _ ← declaration g true fuel
      else failure

/-!
## Modules
-/

def moduleName : Parser Unit := do
  if ← atKind .string then
    let _ ← advance
  else
    let _ ← kind .word

/-- The names between braces of an import or an export. -/
def moduleNames : Parser Unit := do
  let renamed : Parser Unit := do
    moduleName
    if ← word? "as" then
      moduleName
  let entry : Parser Unit := do
    let typed : Parser Unit := do
      require ((← atWord "type") || (← atWord "typeof"))
      let _ ← advance
      require (!(← atWord "as"))
      renamed
    typed <|> renamed
  let _ ← mark '\x7b'
  let _ ← optional? (separated (mark ',') entry)
  let _ ← mark? ','
  let _ ← mark '\x7d'

/-- The module that names come from, with its attributes. -/
def moduleSource (g : Grammar) : Parser Unit := do
  let _ ← kind .string
  if (← atWord "with") && !(← endsHere .typeEnding) then
    let _ ← advance
    let _ ← objectLiteral g

def fromClause (g : Grammar) : Parser Unit := do
  let _ ← word "from"
  moduleSource g

def importStatement (g : Grammar) : Parser Unit := do
  let names : Parser Unit := do
    if ← mark? '*' then
      let _ ← word "as"
      let _ ← identifier
    else
      moduleNames
  let clause : Parser Unit := do
    if (← atMark '\x7b') || (← atMark '*') then
      names
    else
      let _ ← identifier
      if ← mark? ',' then
        names
  let required : Parser Unit := do
    let _ ← identifier
    let _ ← mark '='
    let _ ← word "require"
    let _ ← mark '('
    let _ ← kind .string
    let _ ← mark ')'
    semicolon false
  let plain : Parser Unit := do
    if ← atKind .string then
      moduleSource g
    else
      clause
      fromClause g
    semicolon false
  let _ ← word "import"
  let typed : Parser Unit := do
    require ((← atWord "type") || (← atWord "typeof"))
    let _ ← advance
    required <|> plain
  typed <|> required <|> importAlias <|> plain

/-- What stands behind `export`, its end included: a declaration, or anything else that is
kept as text. -/
def exported (g : Grammar) (decorated : Bool) : Parser (Export × Option Statement) := do
  let text (p : Parser Unit) : Parser (Export × Option Statement) := do p; return (default, none)
  let declared (byDefault : Bool) (fuel : Nat) : Parser (Export × Option Statement) :=
    return (⟨decorated, byDefault⟩, some (← declaration g true fuel))
  let fuel := (← get).length
  if ← atMark '*' then
    text do
      let _ ← advance
      if ← word? "as" then
        moduleName
      fromClause g
      semicolon false
  else if (← atMark '\x7b') ||
      ((← atWord "type") && (← second).any (·.isMark '\x7b')) then
    text do
      let _ ← word? "type"
      moduleNames
      if (← atWord "from") && !(← endsHere .typeEnding) then
        fromClause g
      semicolon false
  else if ← mark? '=' then
    text do
      let _ ← g.expression .expressionEnding
      semicolon true
  else if (← atWord "as") && (← second).any (·.isWord "namespace") then
    text do
      let _ ← advance
      let _ ← advance
      let _ ← identifier
      semicolon false
  else if ← word? "default" then
    declared true fuel <|>
      text do
        let _ ← g.expression .expressionEnding
        semicolon true
  else
    declared false fuel

def exportStatement (g : Grammar) : Parser Statement := do
  let start ← get
  let decorators ← many (decorator g)
  let _ ← word "export"
  match ← exported g !decorators.isEmpty with
  | (e, some (.interface _ name parameters parents exact members)) =>
      return .interface (some e) name parameters parents exact members
  | (e, some (.typeAlias _ name parameters value)) => return .typeAlias (some e) name parameters value
  | (e, some (.lexical _ keyword declarators)) => return .lexical (some e) keyword declarators
  | _ => return .text (Token.textUpTo start (← get))

/-!
## Control flow
-/

def condition (g : Grammar) : Parser Unit := do
  let _ ← parenthesizedExpression g

def nested (g : Grammar) : Parser Unit := do
  let _ ← g.statement

def ifStatement (g : Grammar) : Parser Unit := do
  let _ ← word "if"
  condition g
  nested g
  if ← word? "else" then
    nested g

/-- The parts of a `for` loop between its parentheses. -/
def forHeader (g : Grammar) : Parser Unit := do
  let value : Parser Unit := do
    let _ ← sequence g .operand
  let each : Parser Unit := do
    if ["const", "let", "var"].any (← peek).isWord then
      let _ ← advance
      pattern g bindingName
    else
      let _ ← operandExpression g .operand
    require ((← atWord "of") || (← atWord "in"))
    let _ ← advance
    value
  let counted : Parser Unit := do
    if ["const", "let", "var"].any (← peek).isWord then
      let _ ← advance
      let _ ← separated (mark ',') (declarator g)
    else
      let _ ← optional? value
    let _ ← mark ';'
    let _ ← optional? value
    let _ ← mark ';'
    let _ ← optional? value
  each <|> counted

def forStatement (g : Grammar) : Parser Unit := do
  let _ ← word "for"
  let _ ← word? "await"
  let _ ← mark '('
  forHeader g
  let _ ← mark ')'
  nested g

def doStatement (g : Grammar) : Parser Unit := do
  let _ ← word "do"
  nested g
  let _ ← word "while"
  condition g
  let _ ← optional? (semicolon false)

def switchStatement (g : Grammar) : Parser Unit := do
  let branch : Parser Unit := do
    if ← word? "case" then
      let _ ← sequence g .operand
    else
      let _ ← word "default"
    let _ ← mark ':'
    let _ ← many g.statement
  let _ ← word "switch"
  condition g
  let _ ← mark '\x7b'
  let _ ← many branch
  let _ ← mark '\x7d'

def tryStatement (g : Grammar) : Parser Unit := do
  let _ ← word "try"
  block g false
  if ← word? "catch" then
    if ← mark? '(' then
      pattern g identifier
      if ← atMark ':' then
        let _ ← declaredType g .enclosed
      let _ ← mark ')'
    block g false
  if ← word? "finally" then
    block g false

/-- A statement that ends with an expression, which may be missing. -/
def jumpStatement (g : Grammar) : Parser Unit := do
  let _ ← advance
  if (← endsHere .typeEnding) || (← atMark ';') then
    semicolon false
  else
    let _ ← sequence g .expressionEnding
    semicolon true

def labelJump : Parser Unit := do
  let _ ← advance
  if !(← endsHere .typeEnding) && !(← atMark ';') then
    let _ ← identifier
  semicolon false

def expressionStatement (g : Grammar) : Parser Unit := do
  let _ ← sequence g .expressionEnding
  semicolon true

/-!
## Any statement
-/

def otherStatement (g : Grammar) : Parser Unit := do
  let t ← peek
  let n ← second
  if t.isMark ';' then
    let _ ← advance
  else if t.isMark '\x7b' then block g false
  else if t.isWord "if" then ifStatement g
  else if t.isWord "for" then forStatement g
  else if t.isWord "while" || t.isWord "with" then
    let _ ← advance
    condition g
    nested g
  else if t.isWord "do" then doStatement g
  else if t.isWord "switch" then switchStatement g
  else if t.isWord "try" then tryStatement g
  else if t.isWord "return" || t.isWord "throw" then jumpStatement g
  else if t.isWord "break" || t.isWord "continue" then labelJump
  else if t.isWord "debugger" then
    let _ ← advance
    semicolon false
  else if t.isWord "import" then importStatement g <|> expressionStatement g
  else if t.kind == .word && (← second).any (·.isMark ':') then
    let _ ← identifier
    let _ ← mark ':'
    nested g
  else if ["interface", "enum", "abstract"].any t.isWord then failure
  else if t.isWord "class" && n.any isWordToken && !n.any (·.isWord "extends") then failure
  else if t.isWord "function" && n.any isWordToken then failure
  else expressionStatement g

def statement (g : Grammar) : Parser Statement := do
  if ← opensDeclaration "export" (fun n => !n.isMark '.' && !n.isMark ':') then
    exportStatement g
  else if ← atMark '@' then
    exportStatement g <|> declaration g false (← get).length <|> textStatement (otherStatement g)
  else
    declaration g false (← get).length <|> textStatement (otherStatement g)

end Parser

/-!
## Programs
-/

namespace Grammar

/-- The rules for constructs nested in one another less deep than a bound. -/
def upTo : Nat -> Grammar
  | 0 => ⟨fun _ => failure, fun _ => failure, failure⟩
  | depth + 1 =>
      let g := upTo depth
      ⟨Parser.type g, Parser.expression g, Parser.statement g⟩

end Grammar

namespace Program

/-- The comments in front of the next token and the item behind them. -/
def items {α : Type} (p : Parser α) : Parser (List (Item α)) := do
  let before := (← Parser.comments).map Item.comment
  return before ++ [← Parser.asItem p]

def parser (g : Grammar) : Parser Program := do
  let interpreter ← Parser.optional? (items (Parser.textStatement do
    let _ ← Parser.kind .interpreterLine))
  let statements ← Parser.many (items g.statement)
  let behind ← Parser.comments
  Parser.require (← Parser.atKind .endOfSource)
  return interpreter.getD [] ++ statements.flatten ++ behind.map Item.comment

def parse? (source : List Char) : Option Program := do
  let ts ← tokens? source
  let (program, _) ← (parser (Grammar.upTo (2 * ts.length + 2))).run ts
  return program

end Program
end TypeScript
end SchemaTypes
