import SchemaTypes.TypeScript.Printer

/-!
# Equations of printing

What the printed text of each construct is made of.
-/

namespace SchemaTypes
namespace TypeScript

/-!
## Types
-/

namespace TypeTree

variable (t inner object index operand element : TypeTree) (ts : List TypeTree)
  (s name : List Char)

@[simp] theorem print_union :
    print (union ts) = Text.joinWith " | ".toList (printAll ts) :=
  rfl

@[simp] theorem print_intersection :
    print (intersection ts) = Text.joinWith " & ".toList (printAll ts) :=
  rfl

@[simp] theorem print_array : print (array element) = print element ++ "[]".toList :=
  rfl

@[simp] theorem print_parenthesized : print (parenthesized inner) = '(' :: print inner ++ [')'] :=
  rfl

@[simp] theorem print_lookup :
    print (lookup object index) = print object ++ '[' :: print index ++ [']'] :=
  rfl

@[simp] theorem print_keyOf : print (keyOf operand) = "keyof ".toList ++ print operand :=
  rfl

@[simp] theorem print_typeOf : print (typeOf s) = "typeof ".toList ++ Text.collapse s :=
  rfl

@[simp] theorem print_string : print (string s) = Quoted.requote s :=
  rfl

@[simp] theorem print_generic :
    print (generic name ts) =
      name ++ '<' :: Text.joinWith ", ".toList (printAll ts) ++ ['>'] :=
  rfl

@[simp] theorem print_constant : print constant = "const".toList :=
  rfl

@[simp] theorem print_text : print (text s) = Text.collapse s :=
  rfl

@[simp] theorem printAll_nil : printAll [] = [] :=
  rfl

theorem printAll_cons :
    printAll (t :: ts) = if t.isConstant then printAll ts else print t :: printAll ts :=
  rfl

@[simp] theorem printAll_cons_of_not_constant {t : TypeTree} (h : t.isConstant = false)
    (ts : List TypeTree) : printAll (t :: ts) = print t :: printAll ts := by
  rw [printAll_cons, h]
  rfl

end TypeTree

/-!
## Expressions
-/

namespace Expression

variable (e inner value : Expression) (es : List Expression) (entries : List Entry)
  (declared : Option TypeTree) (target : TypeTree) (s : List Char) (depth : Nat)

@[simp] theorem print_object :
    print (object entries) =
      match Entry.printAll entries with
      | [] => "\x7b\x7d".toList
      | parts => "\x7b ".toList ++ Text.joinWith ", ".toList parts ++ " \x7d".toList :=
  rfl

@[simp] theorem print_array :
    print (array es) = '[' :: Text.joinWith ", ".toList (printAll es) ++ [']'] :=
  rfl

@[simp] theorem print_string : print (string s) = Quoted.requote s :=
  rfl

@[simp] theorem print_parenthesized :
    print (parenthesized inner declared) = '(' :: print inner ++ [')'] :=
  rfl

@[simp] theorem print_ascription :
    print (ascription value target) = print value ++ " as ".toList ++ target.print :=
  rfl

@[simp] theorem print_text : print (text s) = Text.trim s :=
  rfl

@[simp] theorem printAll_nil : printAll [] = [] :=
  rfl

theorem printAll_cons (h : e ≠ hole) : printAll (e :: es) = print e :: printAll es := by
  cases e <;> first | rfl | exact absurd rfl h

end Expression

namespace Entry

variable (key : PropertyName) (value : Expression) (e : Entry) (es : List Entry) (s : List Char)

@[simp] theorem print_pair : print (pair key value) = key.print ++ ": ".toList ++ value.print :=
  rfl

@[simp] theorem print_text : print (text s) = Text.collapse s :=
  rfl

@[simp] theorem printAll_nil : printAll [] = [] :=
  rfl

theorem printAll_cons (h : e ≠ hole) : printAll (e :: es) = print e :: printAll es := by
  cases e <;> first | rfl | exact absurd rfl h

end Entry

end TypeScript
end SchemaTypes
