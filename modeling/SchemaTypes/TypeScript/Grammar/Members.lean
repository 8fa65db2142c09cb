import SchemaTypes.TypeScript.Grammar.Parameters

/-!
# Members of object types

The body of an interface and an object type hold the same members: properties,
methods, accessors and signatures, separated by semicolons, commas or line ends.
Comments stand between members as items of their own; a comment inside a property
counts as one of its modifiers.
-/

namespace SchemaTypes
namespace TypeScript
namespace Parser

/-!
## Parts of members
-/

/-- The comments in front of the next token, each at the place of a modifier. -/
def commentPieces : Parser (List MemberPiece) := return (← comments).map (.modifier ·.text)

/-- Whether the next token is a modifier of the member and not its name. -/
def atModifier (w : String) : Parser Bool := do
  let ts ← get
  match ts with
  | t :: n :: _ =>
      return t.isWord w &&
        ([TokenKind.word, .string, .number, .privateName].contains n.kind || n.isMark '[' ||
          n.isMark '*') &&
        !(Context.typeEnding.endsBefore ts.tail)
  | _ => return false

/-- The modifier among `ws` that is next, with the comments in front of it. -/
def modifierPieces (ws : List String) : Parser (List MemberPiece) := do
  let found ← ws.anyM atModifier
  if found then
    let before ← commentPieces
    return before ++ [.modifier (← advance).text]
  else
    return []

/-- The part of an index signature after its opening bracket. -/
def indexSignatureRest (g : Grammar) : Parser Unit := do
  let _ ← mark '['
  let _ ← kind .word
  if ← word? "in" then
    let _ ← g.type .enclosed
    if ← word? "as" then
      let _ ← g.type .enclosed
  else
    let _ ← mark ':'
    let _ ← g.type .enclosed
  let _ ← mark ']'
  if (← atMarks "-?") || (← atMarks "+?") then
    let _ ← advance
    let _ ← advance
  else
    let _ ← mark? '?'
  let _ ← mark ':'
  let _ ← g.type .typeEnding

/-- Whether a bracket opens an index signature and not a computed name. -/
def atIndexSignature : Parser Bool := do
  match ← get with
  | open? :: name :: next :: _ =>
      return open?.isMark '[' && name.kind == .word && (next.isMark ':' || next.isWord "in")
  | _ => return false

def indexSignature (g : Grammar) : Parser Unit := do
  if ← either? (mark? '-') (mark? '+') then
    let _ ← word "readonly"
  else
    let _ ← word? "readonly"
  require (← atIndexSignature)
  indexSignatureRest g

/-!
## Members
-/

def constructSignature (g : Grammar) : Parser Unit := do
  let _ ← word? "abstract"
  let _ ← word "new"
  require (!(← endsHere .typeEnding))
  if ← atMark '<' then
    typeParameters g
  formalParameters g
  if ← atMark ':' then
    let _ ← declaredType g .typeEnding

def modifiers : List (List String) -> Parser (List MemberPiece)
  | [] => return []
  | ws :: more => do
      let pieces ← modifierPieces ws
      return pieces ++ (← modifiers more)

/-- Words in front of the name of a property, one of every list at most, in this order. -/
def propertyModifiers : List (List String) :=
  [["public", "private", "protected"], ["static"], ["override"], ["readonly"]]

/-- A question mark behind a name, with the comments in front of it. -/
def optionalPieces : Parser (List MemberPiece) := do
  if (← atMark '?') && !(← endsHere .typeEnding) then
    let before ← commentPieces
    let _ ← advance
    return before ++ [.optional]
  else
    return []

/-- The type of a property, with the comments in front of it. -/
def declaredPieces (g : Grammar) : Parser (List MemberPiece) := do
  if (← atMark ':') && !(← endsHere .typeEnding) then
    let before ← commentPieces
    return before ++ [.declared (← declaredType g .typeEnding)]
  else
    return []

def namedPieces (g : Grammar) : Parser (List MemberPiece × Bool) := do
  let modified ← modifiers propertyModifiers
  let asynchronous ← modifierPieces ["async"]
  let accessor ← modifierPieces ["get", "set"]
  let generator ← mark? '*'
  let before ← commentPieces
  require (!modified.isEmpty || !(← atWord "abstract"))
  let name ← propertyName g
  let optional ← optionalPieces
  let call := (← atMark '(') || (← atMark '<')
  if call && !(← endsHere .typeEnding) then
    callSignature g .typeEnding
    return ([], true)
  else
    require (asynchronous.isEmpty && accessor.isEmpty && !generator)
    let declared ← declaredPieces g
    return (modified ++ before ++ .name name :: optional ++ declared, false)

/-- A property or a method, with the pieces of the property it may be. -/
def namedMember (g : Grammar) : Parser Member := do
  let outside := (← comments).length
  let ((pieces, isMethod), s) ← withText (namedPieces g)
  if isMethod then return .text s else return .property (pieces.drop outside)

def member (g : Grammar) : Parser Member := do
  let verbatim (p : Parser Unit) : Parser Member := .text <$> textOf p
  let t ← peek
  let n ← second
  let followedBy (c : Char) : Bool := n.any (·.isMark c)
  let endsAfter : Bool := Context.typeEnding.endsBefore (← get).tail
  if t.isMark '(' || t.isMark '<' then
    verbatim (callSignature g .typeEnding)
  else if t.isMark '-' || t.isMark '+' || (← atIndexSignature) then
    verbatim (indexSignature g)
  else if t.isWord "readonly" && followedBy '[' && !endsAfter then
    verbatim (indexSignature g) <|> namedMember g
  else if t.isWord "abstract" ||
      (t.isWord "new" && (followedBy '(' || followedBy '<') && !endsAfter) then
    verbatim (constructSignature g)
  else if t.isWord "export" && n.any (fun n => n.kind == .word || n.isMark '\x7b' || n.isMark '*') &&
      !endsAfter then
    verbatim (do let _ ← g.statement)
  else
    namedMember g

/-!
## Bodies
-/

def commentItems : Parser (List (Item Member)) := return (← comments).map .comment

/-- The end of a body behind its last member; `exact` tells whether a bar stands behind
the opening brace. -/
def closeMembers (exact : Bool) : Parser (Bool × List (Item Member)) := do
  let items ← commentItems
  if ← atMark '|' then
    marks "|\x7d"
    return (true, items)
  else
    let _ ← mark '\x7d'
    return (exact, items)

/-- What ends a member, with the comments that still belong to its row. -/
def memberEnd : Parser (List (Item Member)) := do
  let items ← commentItems
  if ← either? (mark? ',') (mark? ';') then
    return items
  else
    return (← automaticSemicolon false).map .comment

def memberItems (g : Grammar) : Parser (List (Item Member)) := do
  let items ← commentItems
  return items ++ [← asItem (member g)]

def furtherMember (g : Grammar) : Parser (List (Item Member)) := do
  let between ← memberEnd
  return between ++ (← memberItems g)

/-- The members between braces, with the comments between them, and whether a brace has
a bar on its inside. -/
def objectMembers (g : Grammar) : Parser (Bool × List (Item Member)) := do
  let _ ← mark '\x7b'
  let exact := (← atMark '|') && (← peek).glued
  if exact then
    let _ ← mark '|'
  let filled : Parser (Bool × List (Item Member)) := do
    let before ← commentItems
    let leading ← if ← either? (mark? ',') (mark? ';') then pure before else pure []
    let first ← memberItems g
    let more ← many (furtherMember g)
    let trailing := (← optional? memberEnd).getD []
    let (exact, behind) ← closeMembers exact
    return (exact, leading ++ first ++ more.flatten ++ trailing ++ behind)
  closeMembers exact <|> filled

end Parser
end TypeScript
end SchemaTypes
