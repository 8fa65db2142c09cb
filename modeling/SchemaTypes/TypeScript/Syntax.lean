import SchemaTypes.TypeScript.Token

/-!
# Syntax trees

A tree keeps what the layout of a program depends on.  Interfaces, type aliases,
`const` and `let` declarations, the types in them and a few forms of expression
have structure; every other construct is kept as the text it was written with.
-/

namespace SchemaTypes
namespace TypeScript

/-!
## Types

A comment inside a type stands where a type could stand, so it is kept as the
text of one.
-/

inductive TypeTree where
  | union (members : List TypeTree)
  | intersection (parts : List TypeTree)
  | array (element : TypeTree)
  | parenthesized (inner : TypeTree)
  | lookup (object index : TypeTree)
  | keyOf (operand : TypeTree)
  | typeOf (query : List Char)
  | string (literal : List Char)
  | generic (name : List Char) (arguments : List TypeTree)
  /-- The word `const`, which is printed only where it is the whole type. -/
  | constant
  /-- Any other type as it was written. -/
  | text (text : List Char)
  deriving Repr, Inhabited

namespace TypeTree

def unionMembers : TypeTree -> List TypeTree
  | union members => members
  | t => [t]

def isConstant : TypeTree -> Bool
  | constant => true
  | _ => false

/-- The type as a part of another one that has no place for a constant. -/
def parts (t : TypeTree) : List TypeTree :=
  if t.isConstant then [] else [t]

def isUnion : TypeTree -> Bool
  | union _ => true
  | _ => false

def ofComment (c : Comment) : TypeTree :=
  text c.text

end TypeTree

/-!
## Expressions

Between the commas of a list there may be nothing, which is kept as a hole.
-/

/-- The name of a member or entry; quoted names are string literals. -/
structure PropertyName where
  text : List Char
  quoted : Bool
  deriving DecidableEq, Repr, Inhabited

mutual

inductive Expression where
  | object (entries : List Entry)
  | array (elements : List Expression)
  | string (literal : List Char)
  /-- An expression between parentheses, perhaps with a type behind it. -/
  | parenthesized (inner : Expression) (declared : Option TypeTree)
  /-- A value with the type it is taken as. -/
  | ascription (value : Expression) (target : TypeTree)
  | hole
  /-- Any other expression as it was written. -/
  | text (text : List Char)

inductive Entry where
  | pair (key : PropertyName) (value : Expression)
  | hole
  /-- Any other entry as it was written. -/
  | text (text : List Char)

end

instance : Inhabited Expression := ⟨.text []⟩
instance : Inhabited Entry := ⟨.text []⟩

/-!
## Statements

Statements and the members of an interface are laid out by the rows they stood
on, so each keeps its first and last row.
-/

inductive Item (α : Type) where
  | comment (comment : Comment)
  | node (row endRow : Nat) (value : α)

namespace Item

def row {α : Type} : Item α -> Nat
  | comment c => c.row
  | node row _ _ => row

def endRow {α : Type} : Item α -> Nat
  | comment c => c.endRow
  | node _ endRow _ => endRow

end Item

inductive MemberPiece where
  /-- A modifier, or a comment at the place of one. -/
  | modifier (text : List Char)
  | name (name : PropertyName)
  | optional
  | declared (type : TypeTree)

inductive Member where
  | property (pieces : List MemberPiece)
  /-- Any other member as it was written. -/
  | text (text : List Char)

structure Declarator where
  /-- The declared name or pattern as it was written. -/
  name : List Char
  /-- An exclamation mark stands behind the name. -/
  definite : Bool
  declared : Option TypeTree
  value : Option Expression

structure Export where
  /-- Decorators stand in front of it. -/
  decorated : Bool
  byDefault : Bool
  deriving DecidableEq, Repr, Inhabited

inductive Statement where
  /-- The braces of an interface with exact members have bars on their inside. -/
  | interface (exported : Option Export) (name parameters : List Char)
      (parents : Option (List Char)) (exact : Bool) (members : List (Item Member))
  | typeAlias (exported : Option Export) (name parameters : List Char) (value : TypeTree)
  | lexical (exported : Option Export) (keyword : List Char) (declarators : List Declarator)
  /-- Any other statement as it was written. -/
  | text (text : List Char)

abbrev Program := List (Item Statement)

end TypeScript
end SchemaTypes
