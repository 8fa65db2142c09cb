import SchemaTypes.TypeScript.Syntax
import SchemaTypes.TypeScript.Layout
import SchemaTypes.TypeScript.Quoted

/-!
# Printing programs

One style for what has structure: semicolons behind declarations and members,
double quotes, objects on one line while the statement fits, unions of an alias
on lines of their own when they do not, and at most one blank line between items.
What is kept as text is printed as it is.
-/

namespace SchemaTypes
namespace TypeScript

namespace PropertyName

def print (n : PropertyName) : List Char :=
  if n.quoted then Quoted.requote n.text else n.text

end PropertyName

/-!
## Types
-/

namespace TypeTree

mutual

/-- A type on one line.  A constant is printed by itself but not among other types. -/
def print : TypeTree -> List Char
  | union members => Text.joinWith " | ".toList (printAll members)
  | intersection parts => Text.joinWith " & ".toList (printAll parts)
  | array element => print element ++ "[]".toList
  | parenthesized inner => '(' :: print inner ++ [')']
  | lookup object index => print object ++ '[' :: print index ++ [']']
  | keyOf operand => "keyof ".toList ++ print operand
  | typeOf query => "typeof ".toList ++ Text.collapse query
  | string literal => Quoted.requote literal
  | generic name arguments =>
      name ++ '<' :: Text.joinWith ", ".toList (printAll arguments) ++ ['>']
  | constant => "const".toList
  | text s => Text.collapse s

def printAll : List TypeTree -> List (List Char)
  | [] => []
  | t :: rest => if t.isConstant then printAll rest else print t :: printAll rest

end

end TypeTree

/-!
## Expressions

An object is broken only where the declaration it belongs to is: through
parentheses and ascriptions, but not inside another object or an array.  Holes and
the types behind parenthesized expressions are not printed.
-/

mutual

def Expression.print : Expression -> List Char
  | .object entries =>
      match Entry.printAll entries with
      | [] => "\x7b\x7d".toList
      | parts => "\x7b ".toList ++ Text.joinWith ", ".toList parts ++ " \x7d".toList
  | .array elements => '[' :: Text.joinWith ", ".toList (Expression.printAll elements) ++ [']']
  | .string literal => Quoted.requote literal
  | .parenthesized inner _ => '(' :: Expression.print inner ++ [')']
  | .ascription value target => Expression.print value ++ " as ".toList ++ target.print
  | .hole => []
  | .text s => Text.trim s

def Expression.printAll : List Expression -> List (List Char)
  | [] => []
  | .hole :: rest => Expression.printAll rest
  | e :: rest => Expression.print e :: Expression.printAll rest

def Entry.print : Entry -> List Char
  | .pair key value => key.print ++ ": ".toList ++ Expression.print value
  | .hole => []
  | .text s => Text.collapse s

def Entry.printAll : List Entry -> List (List Char)
  | [] => []
  | .hole :: rest => Entry.printAll rest
  | e :: rest => Entry.print e :: Entry.printAll rest

end

namespace Expression

def printBroken (depth : Nat) : Expression -> List Line
  | object entries =>
      match Entry.printAll entries with
      | [] => [⟨depth, "\x7b\x7d".toList⟩]
      | parts =>
          ⟨depth, ['\x7b']⟩ :: (parts.map fun s => ⟨depth + 1, s ++ [',']⟩) ++ [⟨depth, ['\x7d']⟩]
  | parenthesized inner _ => Line.append (Line.before depth ['('] (printBroken depth inner)) [')']
  | ascription value target =>
      Line.append (printBroken depth value) (" as ".toList ++ target.print)
  | e => [⟨depth, e.print⟩]

end Expression

/-!
## Items
-/

namespace Item

variable {α : Type}

/-- The lines of the items behind one that ended on the row `last?`, appended to
the lines so far. -/
def layoutFrom (depth : Nat) (print : α -> List Line) (last? : Option Nat) (lines : List Line) :
    List (Item α) -> List Line
  | [] => lines
  | item :: rest =>
      let own : List Line :=
        match item with
        | comment c => [⟨depth, Text.trim c.text⟩]
        | node _ _ a => print a
      let next : List Line :=
        match item, last? with
        | comment c, some last =>
            if c.row = last then Line.append lines (' ' :: Text.trim c.text)
            else if last + 1 < c.row then lines ++ Line.blank :: own
            else lines ++ own
        | _, some last => if last + 1 < item.row then lines ++ Line.blank :: own else lines ++ own
        | _, none => lines ++ own
      layoutFrom depth print (some item.endRow) next rest

/-- Items one below the other.  A comment that started on the row where the item
in front of it ended stays on that row; one blank line stands where the source
left rows free. -/
def layout (depth : Nat) (print : α -> List Line) (items : List (Item α)) : List Line :=
  layoutFrom depth print none [] items

end Item

/-!
## Members
-/

namespace MemberPiece

def print : MemberPiece -> List Char
  | modifier s => s ++ [' ']
  | name n => n.print
  | optional => ['?']
  | declared t => ": ".toList ++ t.print

end MemberPiece

namespace Member

def dropSeparators (s : List Char) : List Char :=
  (s.reverse.dropWhile fun c => c == ';' || c == ',').reverse

def print : Member -> List Char
  | property pieces => pieces.flatMap MemberPiece.print
  | text s => dropSeparators (Text.collapse s)

end Member

/-!
## Statements
-/

namespace Declarator

def head (d : Declarator) : List Char :=
  Text.collapse d.name ++ (d.declared.elim [] fun t => ": ".toList ++ t.print)

def print (d : Declarator) : List Char :=
  d.head ++ d.value.elim [] fun e => " = ".toList ++ e.print

def printBroken (depth : Nat) (d : Declarator) : List Line :=
  match d.value with
  | some e => Line.before depth (d.head ++ " = ".toList) (e.printBroken depth)
  | none => [⟨depth, d.head⟩]

end Declarator

namespace Statement

def lead (exported : Option Export) : List Char :=
  if exported.isSome then "export ".toList else []

def aliasHeader (exported : Option Export) (name parameters : List Char) : List Char :=
  lead exported ++ "type ".toList ++ name ++ Text.collapse parameters

def flatAlias (exported : Option Export) (name parameters : List Char) (value : TypeTree) :
    List Char :=
  aliasHeader exported name parameters ++ " = ".toList ++ value.print ++ [';']

def lexicalHeader (exported : Option Export) (keyword : List Char) : List Char :=
  lead exported ++ keyword ++ [' ']

def flatLexical (exported : Option Export) (keyword : List Char) (declarators : List Declarator) :
    List Char :=
  lexicalHeader exported keyword ++ Text.joinWith ", ".toList (declarators.map Declarator.print) ++
    [';']

def print (printWidth : Nat) : Statement -> List Line
  | interface exported name parameters parents _ members =>
      let header := lead exported ++ "interface ".toList ++ name ++ Text.collapse parameters ++
        parents.elim [] (' ' :: Text.collapse ·)
      match members with
      | [] => [⟨0, header ++ " \x7b\x7d".toList⟩]
      | _ =>
          ⟨0, header ++ " \x7b".toList⟩ ::
            Item.layout 1 (fun m => [⟨1, m.print ++ [';']⟩]) members ++ [⟨0, ['\x7d']⟩]
  | typeAlias exported name parameters value =>
      let flat := flatAlias exported name parameters value
      match value with
      | .union members =>
          if flat.length ≤ printWidth then [⟨0, flat⟩]
          else
            Line.append
              (⟨0, aliasHeader exported name parameters ++ " =".toList⟩ ::
                (TypeTree.printAll members).map fun s => ⟨1, "| ".toList ++ s⟩) [';']
      | _ => [⟨0, flat⟩]
  | lexical exported keyword declarators =>
      let flat := flatLexical exported keyword declarators
      if flat.length ≤ printWidth || !flat.contains '\x7b' then [⟨0, flat⟩]
      else
        Line.append
          (Line.before 0 (lexicalHeader exported keyword)
            (Line.glueWith ", ".toList (declarators.map (Declarator.printBroken 0)))) [';']
  | text s => [⟨0, Text.trim s⟩]

end Statement

namespace Program

def print (printWidth : Nat) (program : Program) : List Line :=
  Item.layout 0 (Statement.print printWidth) program

end Program

end TypeScript
end SchemaTypes
