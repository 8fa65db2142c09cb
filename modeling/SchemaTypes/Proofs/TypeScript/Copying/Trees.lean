import SchemaTypes.Proofs.TypeScript.Copying.Basic

/-!
# Texts of trees

The characters that a tree was written with are those of the texts it is made of.  Of
the comments only those that stand between the members of an interface are kept as such.
-/

namespace SchemaTypes
namespace TypeScript

variable {p : Char -> Prop} {q : Comment -> Prop}

/-!
## Texts of trees
-/

namespace TypeTree

mutual

/-- The characters that a type was written with, its operators and brackets apart. -/
def chars : TypeTree -> List Char
  | union members => charsAll members
  | intersection parts => charsAll parts
  | array element => chars element
  | parenthesized inner => chars inner
  | lookup object index => chars object ++ chars index
  | keyOf operand => chars operand
  | typeOf query => query
  | string literal => literal
  | generic name arguments => name ++ charsAll arguments
  | constant => []
  | text s => s

def charsAll : List TypeTree -> List Char
  | [] => []
  | t :: rest => chars t ++ charsAll rest

end

theorem charsAll_eq (ts : List TypeTree) : charsAll ts = ts.flatMap chars := by
  induction ts with
  | nil => rfl
  | cons t rest ih => rw [charsAll, ih, List.flatMap_cons]

end TypeTree

mutual

/-- The characters that an expression was written with, its operators and brackets apart. -/
def Expression.chars : Expression -> List Char
  | .object entries => Entry.charsAll entries
  | .array elements => Expression.charsAll elements
  | .string literal => literal
  | .parenthesized inner declared => Expression.chars inner ++ declared.elim [] TypeTree.chars
  | .ascription value target => Expression.chars value ++ target.chars
  | .hole => []
  | .text s => s

def Expression.charsAll : List Expression -> List Char
  | [] => []
  | e :: rest => Expression.chars e ++ Expression.charsAll rest

def Entry.chars : Entry -> List Char
  | .pair key value => key.text ++ Expression.chars value
  | .hole => []
  | .text s => s

def Entry.charsAll : List Entry -> List Char
  | [] => []
  | e :: rest => Entry.chars e ++ Entry.charsAll rest

end

theorem Expression.charsAll_eq (es : List Expression) :
    Expression.charsAll es = es.flatMap Expression.chars := by
  induction es with
  | nil => rfl
  | cons e rest ih => rw [Expression.charsAll, ih, List.flatMap_cons]

theorem Entry.charsAll_eq (es : List Entry) : Entry.charsAll es = es.flatMap Entry.chars := by
  induction es with
  | nil => rfl
  | cons e rest ih => rw [Entry.charsAll, ih, List.flatMap_cons]

namespace HasTexts

instance typeTree : HasTexts TypeTree := ⟨TypeTree.chars, fun _ => []⟩

instance memberPiece : HasTexts MemberPiece where
  chars
    | .modifier s => s
    | .name n => n.text
    | .optional => []
    | .declared t => t.chars
  comments _ := []

instance member : HasTexts Member where
  chars
    | .property pieces => chars pieces
    | .text s => s
  comments _ := []

instance expression : HasTexts Expression := ⟨Expression.chars, fun _ => []⟩

instance entry : HasTexts Entry := ⟨Entry.chars, fun _ => []⟩

instance declarator : HasTexts Declarator := ⟨fun d => chars (d.name, d.declared, d.value), fun _ => []⟩

instance «export» : HasTexts Export := ⟨fun _ => [], fun _ => []⟩

instance statement : HasTexts Statement where
  chars
    | .interface _ name parameters parents _ members => chars (name, parameters, parents, members)
    | .typeAlias _ name parameters value => chars (name, parameters, value)
    | .lexical _ keyword declarators => chars (keyword, declarators)
    | .text s => s
  comments
    | .interface _ _ _ _ _ members => comments members
    | _ => []

end HasTexts

namespace Holds

theorem type_iff {t : TypeTree} : Holds p q t <-> forall c, c ∈ t.chars -> p c :=
  ⟨fun h => h.chars, fun h => ⟨h, nofun⟩⟩

theorem types_iff {ts : List TypeTree} :
    Holds p q ts <-> forall c, c ∈ TypeTree.charsAll ts -> p c := by
  rw [TypeTree.charsAll_eq]
  refine ⟨fun h => h.chars, fun h => ⟨h, fun c hc => ?_⟩⟩
  obtain ⟨_, _, hc⟩ := List.mem_flatMap.mp hc
  cases hc

section Types

variable {t object index : TypeTree} {ts : List TypeTree} {s : List Char}

instance union [h : Holds p q ts] : Holds p q (TypeTree.union ts) := type_iff.mpr (types_iff.mp h)

instance intersection [h : Holds p q ts] : Holds p q (TypeTree.intersection ts) :=
  type_iff.mpr (types_iff.mp h)

instance array [h : Holds p q t] : Holds p q (TypeTree.array t) := type_iff.mpr h.chars

instance parenthesizedType [h : Holds p q t] : Holds p q (TypeTree.parenthesized t) :=
  type_iff.mpr h.chars

instance lookup [ho : Holds p q object] [hi : Holds p q index] :
    Holds p q (TypeTree.lookup object index) :=
  type_iff.mpr (List.forall_mem_append.mpr ⟨ho.chars, hi.chars⟩)

instance keyOf [h : Holds p q t] : Holds p q (TypeTree.keyOf t) := type_iff.mpr h.chars

instance typeOf [h : Holds p q s] : Holds p q (TypeTree.typeOf s) := type_iff.mpr (text_iff.mp h)

instance stringType [h : Holds p q s] : Holds p q (TypeTree.string s) :=
  type_iff.mpr (text_iff.mp h)

instance generic [hs : Holds p q s] [hts : Holds p q ts] : Holds p q (TypeTree.generic s ts) :=
  type_iff.mpr (List.forall_mem_append.mpr ⟨text_iff.mp hs, types_iff.mp hts⟩)

instance constant : Holds p q TypeTree.constant := ⟨nofun, nofun⟩

instance textType [h : Holds p q s] : Holds p q (TypeTree.text s) := type_iff.mpr (text_iff.mp h)

instance ofComment {c : Comment} [h : Holds p q c] : Holds p q (TypeTree.ofComment c) :=
  type_iff.mpr h.chars

instance parts [h : Holds p q t] : Holds p q t.parts := by
  unfold TypeTree.parts
  infer_instance

instance unionMembers [h : Holds p q t] : Holds p q t.unionMembers := by
  unfold TypeTree.unionMembers
  split
  · exact types_iff.mpr h.chars
  · infer_instance

end Types

section Members

variable {s : List Char} {n : PropertyName} {t : TypeTree} {pieces : List MemberPiece}

instance modifier [h : Holds p q s] : Holds p q (MemberPiece.modifier s) :=
  ⟨text_iff.mp h, nofun⟩

instance memberName [h : Holds p q n] : Holds p q (MemberPiece.name n) := ⟨h.chars, nofun⟩

instance optional : Holds p q MemberPiece.optional := ⟨nofun, nofun⟩

instance declared [h : Holds p q t] : Holds p q (MemberPiece.declared t) := ⟨h.chars, nofun⟩

instance property [h : Holds p q pieces] : Holds p q (Member.property pieces) := ⟨h.chars, nofun⟩

instance textMember [h : Holds p q s] : Holds p q (Member.text s) := ⟨text_iff.mp h, nofun⟩

end Members

section Expressions

variable {e e' : Expression} {es : List Expression} {entries : List Entry} {key : PropertyName}
  {declared : Option TypeTree} {t : TypeTree} {s : List Char}

theorem expression_iff : Holds p q e <-> forall c, c ∈ e.chars -> p c :=
  ⟨fun h => h.chars, fun h => ⟨h, nofun⟩⟩

instance object [h : Holds p q entries] : Holds p q (Expression.object entries) := by
  refine expression_iff.mpr ?_
  rw [Expression.chars, Entry.charsAll_eq]
  exact h.chars

instance arrayExpression [h : Holds p q es] : Holds p q (Expression.array es) := by
  refine expression_iff.mpr ?_
  rw [Expression.chars, Expression.charsAll_eq]
  exact h.chars

instance stringExpression [h : Holds p q s] : Holds p q (Expression.string s) :=
  expression_iff.mpr (text_iff.mp h)

instance parenthesized [he : Holds p q e] [ht : Holds p q declared] :
    Holds p q (Expression.parenthesized e declared) :=
  expression_iff.mpr (List.forall_mem_append.mpr ⟨he.chars, ht.chars⟩)

instance ascription [he : Holds p q e] [ht : Holds p q t] : Holds p q (Expression.ascription e t) :=
  expression_iff.mpr (List.forall_mem_append.mpr ⟨he.chars, ht.chars⟩)

instance hole : Holds p q Expression.hole := ⟨nofun, nofun⟩

instance textExpression [h : Holds p q s] : Holds p q (Expression.text s) :=
  expression_iff.mpr (text_iff.mp h)

instance entryPair [hk : Holds p q key] [he : Holds p q e] : Holds p q (Entry.pair key e) :=
  ⟨List.forall_mem_append.mpr ⟨hk.chars, he.chars⟩, nofun⟩

instance entryHole : Holds p q Entry.hole := ⟨nofun, nofun⟩

instance textEntry [h : Holds p q s] : Holds p q (Entry.text s) := ⟨text_iff.mp h, nofun⟩

end Expressions

section Statements

variable {name parameters keyword s : List Char} {parents : Option (List Char)}
  {members : List (Item Member)} {declared : Option TypeTree} {value : Option Expression}
  {t : TypeTree} {ds : List Declarator} {exported : Option Export} {exact definite : Bool}

instance declarator [Holds p q name] [Holds p q declared] [Holds p q value] :
    Holds p q (Declarator.mk name definite declared value) :=
  ⟨(inferInstance : Holds p q (name, declared, value)).chars, nofun⟩

instance «export» (e : Export) : Holds p q e := ⟨nofun, nofun⟩

instance interface [Holds p q name] [Holds p q parameters] [Holds p q parents]
    [h : Holds p q members] :
    Holds p q (Statement.interface exported name parameters parents exact members) :=
  ⟨(inferInstance : Holds p q (name, parameters, parents, members)).chars, h.comments⟩

instance typeAlias [Holds p q name] [Holds p q parameters] [Holds p q t] :
    Holds p q (Statement.typeAlias exported name parameters t) :=
  ⟨(inferInstance : Holds p q (name, parameters, t)).chars, nofun⟩

instance lexical [Holds p q keyword] [Holds p q ds] :
    Holds p q (Statement.lexical exported keyword ds) :=
  ⟨(inferInstance : Holds p q (keyword, ds)).chars, nofun⟩

instance textStatement [h : Holds p q s] : Holds p q (Statement.text s) := ⟨text_iff.mp h, nofun⟩

end Statements

end Holds

/-- The rules for nested constructs copy. -/
class Grammar.Copies (p : Char -> Prop) (q : Comment -> Prop) (g : Grammar) : Prop where
  type : forall context, Parser.Copies p q (g.type context)
  expression : forall context, Parser.Copies p q (g.expression context)
  statement : Parser.Copies p q g.statement

end TypeScript
end SchemaTypes
