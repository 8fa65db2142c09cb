import SchemaTypes.Proofs.Declaration.Names
import SchemaTypes.Proofs.TypeScript.ProgramReading
import SchemaTypes.Proofs.TypeScript.Stacking

/-!
# Declarations as programs

The declarations of a datamodel are a program of interfaces, constants and aliases.  It
is canonical, and its lines on one width give the text of the declarations.
-/

namespace SchemaTypes

open TypeScript

/-!
## Named datamodels

A datamodel has words where its declarations and types are named by words that can stand
where they do.  It is spelled where no field or value has a NUL in its name besides, and it
is named where no word of it is a keyword.
-/

/-- The words of a model can name an interface and the types of its members. -/
structure Model.HasWords (m : Model) : Prop where
  name : isIdentifier m.name = true
  types : forall f, f ∈ m.emittedFields ->
    TypeTree.isTypeWord (SchemaTypes.declaredType f.type) = true

/-- The word of an enumeration can name a constant and be queried for its type. -/
structure Enumeration.HasWords (e : Enumeration) : Prop where
  name : isBindingName e.name = true
  query : TypeTree.isQueryWord e.name = true

structure Datamodel.HasWords (d : Datamodel) : Prop where
  models : forall m, m ∈ d.models -> m.HasWords
  enums : forall e, e ∈ d.enums -> e.HasWords

structure Model.IsSpelled (m : Model) : Prop extends m.HasWords where
  fields : forall f, f ∈ m.emittedFields -> '\x00' ∉ f.name

structure Enumeration.IsSpelled (e : Enumeration) : Prop extends e.HasWords where
  values : forall v, v ∈ e.values -> '\x00' ∉ v.name

structure Datamodel.IsSpelled (d : Datamodel) : Prop where
  models : forall m, m ∈ d.models -> m.IsSpelled
  enums : forall e, e ∈ d.enums -> e.IsSpelled

/-- Declarations and types have names that are no keywords, and no field or value has a
NUL in its name. -/
structure Model.IsNamed (m : Model) : Prop where
  name : Declaration.isName m.name = true
  types : forall f, f ∈ m.emittedFields -> Declaration.isName f.type = true
  fields : forall f, f ∈ m.emittedFields -> '\x00' ∉ f.name

structure Enumeration.IsNamed (e : Enumeration) : Prop where
  name : Declaration.isName e.name = true
  values : forall v, v ∈ e.values -> '\x00' ∉ v.name

structure Datamodel.IsNamed (d : Datamodel) : Prop where
  models : forall m, m ∈ d.models -> m.IsNamed
  enums : forall e, e ∈ d.enums -> e.IsNamed

instance (m : Model) : Decidable m.IsNamed :=
  decidable_of_iff
    (Declaration.isName m.name = true /\
      (forall f, f ∈ m.emittedFields -> Declaration.isName f.type = true) /\
      forall f, f ∈ m.emittedFields -> '\x00' ∉ f.name)
    ⟨fun h => ⟨h.left, h.right.left, h.right.right⟩, fun h => ⟨h.name, h.types, h.fields⟩⟩

instance (e : Enumeration) : Decidable e.IsNamed :=
  decidable_of_iff (Declaration.isName e.name = true /\ forall v, v ∈ e.values -> '\x00' ∉ v.name)
    ⟨fun h => ⟨h.left, h.right⟩, fun h => ⟨h.name, h.values⟩⟩

instance (d : Datamodel) : Decidable d.IsNamed :=
  decidable_of_iff ((forall m, m ∈ d.models -> m.IsNamed) /\ forall e, e ∈ d.enums -> e.IsNamed)
    ⟨fun h => ⟨h.left, h.right⟩, fun h => ⟨h.models, h.enums⟩⟩

theorem Model.IsNamed.isSpelled {m : Model} (h : m.IsNamed) : m.IsSpelled where
  name := Declaration.isIdentifier_of_isName h.name
  types f hf := Declaration.isTypeWord_declaredType (h.types f hf)
  fields := h.fields

theorem Enumeration.IsNamed.isSpelled {e : Enumeration} (h : e.IsNamed) : e.IsSpelled where
  name := Declaration.isBindingName_of_isName h.name
  query := Declaration.isQueryWord_of_isName h.name
  values := h.values

theorem Datamodel.IsNamed.isSpelled {d : Datamodel} (h : d.IsNamed) : d.IsSpelled where
  models m hm := (h.models m hm).isSpelled
  enums e he := (h.enums e he).isSpelled

/-!
## Fields
-/

namespace Field

def plainType (f : Field) (t : TypeTree) : TypeTree :=
  if f.isList then .array t else t

def typeTree (f : Field) : TypeTree :=
  let base := .text (SchemaTypes.declaredType f.type)
  if f.isRequired then f.plainType base else .union [base, f.plainType (.text "null".toList)]

def member (f : Field) : Member :=
  .property [.name (Declaration.memberName f.name), .declared f.typeTree]

variable {f : Field} (h : TypeTree.isTypeWord (SchemaTypes.declaredType f.type) = true)

include h

theorem print_declaredType :
    TypeTree.print (.text (SchemaTypes.declaredType f.type)) = SchemaTypes.declaredType f.type := by
  have hword := TypeTree.isWordText_of_isTypeWord h
  rw [TypeTree.print_text, Text.collapse_visible (TypeTree.visible_of_isWordText hword)]

omit h in
theorem canonical_plainType {s : List Char} (hs : TypeTree.isTypeWord s = true) (f : Field) :
    (f.plainType (.text s)).Canonical /\ (f.plainType (.text s)).isPrimary = true := by
  rw [plainType]
  split
  · exact ⟨.array rfl (.text (.inl hs)), rfl⟩
  · exact ⟨.text (.inl hs), rfl⟩

theorem canonical_typeTree : f.typeTree.Canonical /\ f.typeTree.isConstant = false := by
  have hbase := canonical_plainType h f
  have hnull := canonical_plainType (show TypeTree.isTypeWord "null".toList = true by decide) f
  rw [typeTree]
  split
  · exact ⟨hbase.left, TypeTree.not_isConstant_of_isPrimary hbase.right⟩
  · have hmember : (f.plainType (.text "null".toList)).isMember = true :=
      TypeTree.isMember_of_isOperand (TypeTree.isOperand_of_isPrimary hnull.right)
    refine ⟨.union ?_ ?_, rfl⟩
    · simpa using ⟨rfl, hmember⟩
    · simpa using ⟨.text (.inl h), hnull.left⟩

theorem print_typeTree : f.typeTree.print = f.declaredType := by
  have hnull : TypeTree.print (.text "null".toList) = "null".toList := by decide
  have hprimary := (canonical_plainType (show TypeTree.isTypeWord "null".toList = true by decide) f).right
  have hplain : forall t : TypeTree,
      (f.plainType t).print = t.print ++ (if f.isList then "[]".toList else []) := by
    intro t
    rw [plainType]
    split <;> simp
  rw [typeTree, declaredType]
  cases f.isRequired with
  | true => simp [hplain, print_declaredType h]
  | false =>
      simp only [Bool.false_eq_true, if_false, TypeTree.print_union]
      rw [TypeTree.printAll_cons_of_not_constant rfl,
        TypeTree.printAll_cons_of_not_constant (TypeTree.not_isConstant_of_isPrimary hprimary),
        print_declaredType h, hplain, hnull]
      simp [Text.joinWith]

omit h in
def memberText (f : Field) : List Char :=
  Declaration.memberKey f.name ++ ": ".toList ++ f.declaredType ++ ";".toList

theorem print_member (hname : '\x00' ∉ f.name) : f.member.print ++ [';'] = f.memberText := by
  have hkey : (Declaration.memberName f.name).print = Declaration.memberKey f.name :=
    PropertyName.print_eq_text (Declaration.isCanonical_memberName hname)
  simp [member, Member.print, MemberPiece.print, hkey, print_typeTree h, memberText]

theorem canonical_member (hname : '\x00' ∉ f.name) : f.member.Canonical := by
  have htail : [MemberPiece.declared f.typeTree] = Member.tail false (some f.typeTree) := rfl
  refine .property ?_ ?_
  · rw [htail]
    refine .name (Declaration.isCanonical_memberName hname) false ?_ _
    rintro t ⟨⟩
    exact canonical_typeTree h
  · rw [Member.isAbstract, Declaration.memberName]
    by_cases habstract : f.name = "abstract".toList
    · simp [habstract]
    · rw [Declaration.memberKey, if_neg habstract, beq_false_of_ne habstract, Bool.false_or,
        Bool.not_not, Declaration.entryKey]
      cases hidentifier : Declaration.isIdentifier f.name with
      | true => simpa using habstract
      | false => rfl

end Field

/-!
## Models
-/

namespace Model

def header (m : Model) : List Char :=
  "export interface ".toList ++ m.name

theorem header_eq (m : Model) :
    Statement.lead (some ⟨false, false⟩) ++ "interface ".toList ++ m.name = m.header := by
  unfold header
  simp [Statement.lead]

def lines (m : Model) : List Line :=
  match m.emittedFields with
  | [] => [⟨0, m.header ++ " \x7b\x7d".toList⟩]
  | fields =>
      ⟨0, m.header ++ " \x7b".toList⟩ :: fields.map (fun f => ⟨1, f.memberText⟩) ++ [⟨0, ['\x7d']⟩]

def members (m : Model) : List (Item Member) :=
  match m.emittedFields with
  | [] => []
  | f :: rest => Item.stack [(f.member, rest.map Field.member)]

def statement (m : Model) : Statement :=
  .interface (some ⟨false, false⟩) m.name [] none false m.members

variable {m : Model}

theorem nodes_members :
    Piece.nodes (Item.arrange none m.members) = m.emittedFields.map Field.member := by
  rw [members]
  cases m.emittedFields with
  | nil => rfl
  | cons f rest => simp [Block.toList]

theorem areSound_members : Piece.areSound (Item.arrange none m.members) = true := by
  rw [members]
  cases m.emittedFields with
  | nil => rfl
  | cons f rest =>
      simp only
      rw [Item.arrange_stack]
      exact Piece.areSound_of_nodes fun p hp => Piece.eq_node_of_mem_ofBlocks hp

variable (h : m.IsSpelled)

include h

theorem canonical_statement (printWidth : Nat) : m.statement.Canonical printWidth := by
  refine .declared (.interface rfl h.name Header.isKept_nil ?_ areSound_members)
  intro member hmember
  rw [nodes_members] at hmember
  obtain ⟨f, hf, rfl⟩ := List.mem_map.mp hmember
  exact Field.canonical_member (h.types f hf) (h.fields f hf)

/-- A model is declared on its lines, however wide they may be. -/
theorem print_statement (printWidth : Nat) : m.statement.print printWidth = m.lines := by
  have hfields : forall f, f ∈ m.emittedFields -> f.member.print ++ [';'] = f.memberText :=
    fun f hf => Field.print_member (h.types f hf) (h.fields f hf)
  rw [statement, lines, members]
  cases hemitted : m.emittedFields with
  | nil =>
      simp only [Statement.print, Statement.collapse_nil, Option.elim_none, List.append_nil, header_eq]
  | cons f rest =>
      have hne : Item.stack [(f.member, rest.map Field.member)] ≠ [] :=
        Item.stack_ne_nil (List.cons_ne_nil _ _)
      have hlines : ((f :: rest).map Field.member).flatMap
          (fun member => ([⟨1, member.print ++ [';']⟩] : List Line)) =
            (f :: rest).map fun f => ⟨1, f.memberText⟩ := by
        rw [List.flatMap_map, ← List.map_eq_flatMap]
        refine List.map_congr_left fun g hg => ?_
        rw [hfields g (hemitted ▸ hg)]
      simp only
      rw [Statement.print_interface_ne_nil _ _ _ _ hne, Header.text_nil, List.append_nil,
        Item.layout_stack, List.map_singleton, Block.toList]
      rw [List.map_cons] at hlines
      rw [hlines, header_eq]
      simp [List.intercalate]

end Model

/-!
## Enumerations
-/

namespace EnumValue

def entry (v : EnumValue) : TypeScript.Entry :=
  .pair (Declaration.entryName v.name) (.string (Declaration.literal v.name))

variable {v : EnumValue} (h : '\x00' ∉ v.name)

include h

theorem print_entry : v.entry.print = v.declaration := by
  have hkey := PropertyName.print_eq_text (Declaration.isCanonical_entryName h)
  have hvalue : Quoted.requote (Declaration.literal v.name) = Declaration.literal v.name :=
    TypeTree.requote_of_head rfl
  rw [entry, Entry.print_pair, Expression.print_string, hkey, hvalue]
  rfl

theorem isNamed_entry : v.entry.isNamed = true :=
  Declaration.isCanonical_entryName h

end EnumValue

namespace Enumeration

def header (e : Enumeration) : List Char :=
  "export const ".toList ++ e.name ++ " = ".toList

/-- The line that declares the object of the values. -/
def flatLine (e : Enumeration) : List Char :=
  e.header ++ e.object ++ " as const;".toList

def aliasLine (e : Enumeration) : List Char :=
  "export type ".toList ++ e.name ++ " = (typeof ".toList ++ e.name ++ ")[keyof typeof ".toList ++
    e.name ++ "];".toList

/-- The lines on which an enumeration is declared.  An object that is too wide has a line
for every value. -/
def lines (printWidth : Nat) (e : Enumeration) : List Line :=
  (if e.values = [] ∨ e.flatLine.length ≤ printWidth then [⟨0, e.flatLine⟩]
    else
      ⟨0, e.header ++ ['\x7b']⟩ :: e.values.map (fun v => ⟨1, v.declaration ++ [',']⟩) ++
        [⟨0, "\x7d as const;".toList⟩]) ++
    [⟨0, e.aliasLine⟩]

def value (e : Enumeration) : Expression :=
  .ascription (.object (e.values.map EnumValue.entry)) .constant

def constant (e : Enumeration) : Statement :=
  .lexical (some ⟨false, false⟩) "const".toList [⟨e.name, false, none, some e.value⟩]

def typeAlias (e : Enumeration) : Statement :=
  .typeAlias (some ⟨false, false⟩) e.name []
    (.lookup (.parenthesized (.typeOf e.name)) (.keyOf (.typeOf e.name)))

variable {e : Enumeration}

section

variable (h : e.HasWords)

include h

theorem isWordText_name : isWordText e.name = true :=
  isWordText_of_isBindingName h.name

theorem collapse_name : Text.collapse e.name = e.name :=
  Text.collapse_visible (TypeTree.visible_of_isWordText (isWordText_name h))

theorem isIdentifier_name : isIdentifier e.name = true := by
  have hname := h.name
  rw [isBindingName, Bool.and_eq_true, List.any_cons, Bool.not_or, Bool.and_eq_true] at hname
  rw [isIdentifier, hname.left, hname.right.right]
  rfl

end

variable (h : e.IsSpelled)

include h

theorem canonical_constant (printWidth : Nat) : e.constant.Canonical printWidth := by
  have hentries : forall entry, entry ∈ e.values.map EnumValue.entry ->
      exists v, v ∈ e.values /\ v.entry = entry :=
    fun entry hentry => List.mem_map.mp hentry
  have hvalue : e.value.Canonical := by
    refine .ascription (.object ?_ ?_) .constant
    · intro entry hentry
      obtain ⟨v, hv, rfl⟩ := hentries entry hentry
      exact EnumValue.isNamed_entry (h.values v hv)
    · intro key value hentry
      obtain ⟨v, hv, heq⟩ := hentries _ hentry
      cases heq
      exact .string (Declaration.isLiteral_literal (h.values v hv)) rfl
  refine .declared (.lexical rfl (.inl rfl) (List.cons_ne_nil _ _) ?_)
  intro d hd
  rw [List.mem_singleton] at hd
  subst hd
  exact ⟨h.name, rfl, by simp, by rintro _ ⟨⟩; exact hvalue⟩

theorem canonical_typeAlias (printWidth : Nat) : e.typeAlias.Canonical printWidth := by
  refine .declared (.typeAlias rfl (isIdentifier_name h.toHasWords) Header.isKept_nil (fun _ => ?_)
    (fun hbroken => ?_))
  · exact .lookup rfl rfl rfl (.parenthesized rfl (.typeOf h.query)) (.keyOf rfl (.typeOf h.query))
  · cases hbroken

theorem print_typeAlias (printWidth : Nat) :
    e.typeAlias.print printWidth = [⟨0, e.aliasLine⟩] := by
  have hname := collapse_name h.toHasWords
  unfold aliasLine
  simp [typeAlias, Statement.print, Statement.flatAlias, Statement.aliasHeader, Statement.lead,
    Statement.collapse_nil, hname]

theorem printAll_entries {vs : List EnumValue} (hvs : forall v, v ∈ vs -> v ∈ e.values) :
    Entry.printAll (vs.map EnumValue.entry) = vs.map EnumValue.declaration := by
  induction vs with
  | nil => rfl
  | cons v rest ih =>
      have hrest := ih fun w hw => hvs w (List.mem_cons_of_mem v hw)
      have hv := EnumValue.print_entry (h.values v (hvs v List.mem_cons_self))
      rw [List.map_cons, Entry.printAll_cons _ _ (by rintro ⟨⟩), hv, hrest, List.map_cons]

theorem print_object :
    Expression.print (.object (e.values.map EnumValue.entry)) = e.object := by
  rw [Expression.print_object, printAll_entries h fun _ hv => hv, object]
  cases e.values <;> rfl

theorem flatLexical_constant :
    Statement.flatLexical (some ⟨false, false⟩) "const".toList
        [⟨e.name, false, none, some e.value⟩] = e.flatLine := by
  have hname := collapse_name h.toHasWords
  unfold flatLine header
  simp [Statement.flatLexical, Statement.lexicalHeader, Statement.lead, Declarator.print,
    Declarator.head, Text.joinWith, value, print_object h, hname]

omit h in
theorem brace_mem_flatLine (e : Enumeration) : e.flatLine.contains '\x7b' = true := by
  have hobject : '\x7b' ∈ e.object := by
    rw [object]
    split <;> simp
  unfold flatLine
  simp [hobject]

theorem print_broken (hvalues : e.values ≠ []) :
    Line.append (Line.before 0 (Statement.lexicalHeader (some ⟨false, false⟩) "const".toList)
        (Declarator.printBroken 0 ⟨e.name, false, none, some e.value⟩)) [';'] =
      ⟨0, e.header ++ ['\x7b']⟩ :: e.values.map (fun v => ⟨1, v.declaration ++ [',']⟩) ++
        [⟨0, "\x7d as const;".toList⟩] := by
  have hname := collapse_name h.toHasWords
  have happend : forall (l : Line) (ls : List Line) (last s : List Char),
      Line.append (l :: ls ++ [⟨0, last⟩]) s = l :: ls ++ [⟨0, last ++ s⟩] := by
    intro l ls last s
    rw [Line.append]
    induction ls generalizing l with
    | nil => rfl
    | cons m ls ih =>
        rw [List.cons_append, List.cons_append,
          Line.glue_cons_cons _ _ _ (List.cons_ne_nil _ _), ← List.cons_append, ih]
        rfl
  have hobject : Expression.printBroken 0 (.object (e.values.map EnumValue.entry)) =
      ⟨0, ['\x7b']⟩ :: e.values.map (fun v => ⟨1, v.declaration ++ [',']⟩) ++ [⟨0, ['\x7d']⟩] := by
    rw [Expression.printBroken, printAll_entries h fun _ hv => hv]
    cases hv : e.values with
    | nil => exact absurd hv hvalues
    | cons v rest => simp
  rw [Declarator.printBroken, value]
  simp only
  rw [Expression.printBroken, hobject, happend]
  simp only [Line.before, Line.glue, List.cons_append]
  rw [← List.cons_append, happend]
  unfold header
  simp [Statement.lexicalHeader, Statement.lead, Declarator.head, hname]

/-- An object without values has nothing to break. -/
theorem print_broken_nil (hvalues : e.values = []) :
    Line.append (Line.before 0 (Statement.lexicalHeader (some ⟨false, false⟩) "const".toList)
        (Declarator.printBroken 0 ⟨e.name, false, none, some e.value⟩)) [';'] =
      [⟨0, e.flatLine⟩] := by
  have hname := collapse_name h.toHasWords
  have hobject : Expression.printBroken 0 (.object (e.values.map EnumValue.entry)) =
      [⟨0, e.object⟩] := by
    rw [Expression.printBroken, printAll_entries h fun _ hv => hv, object, hvalues]
    rfl
  rw [Declarator.printBroken, value]
  simp only
  rw [Expression.printBroken, hobject]
  unfold flatLine header
  simp [Line.append, Line.before, Line.glue, Statement.lexicalHeader, Statement.lead,
    Declarator.head, hname]

theorem print_statements (printWidth : Nat) :
    e.constant.print printWidth ++ e.typeAlias.print printWidth = e.lines printWidth := by
  rw [print_typeAlias h, lines]
  congr 1
  rw [constant, Statement.print]
  simp only [flatLexical_constant h, brace_mem_flatLine, Bool.not_true, Bool.or_false,
    decide_eq_true_eq]
  by_cases hwidth : e.flatLine.length ≤ printWidth
  · rw [if_pos hwidth, if_pos (.inr hwidth)]
  · rw [if_neg hwidth]
    by_cases hvalues : e.values = []
    · rw [if_pos (.inl hvalues)]
      exact print_broken_nil h hvalues
    · rw [if_neg (by simp [hvalues, hwidth])]
      exact print_broken h hvalues

end Enumeration

/-!
## Datamodels
-/

namespace Datamodel

def lines (printWidth : Nat) (d : Datamodel) : List Line :=
  List.intercalate [Line.blank]
    (d.models.map Model.lines ++ d.enums.map (Enumeration.lines printWidth))

def blocks (d : Datamodel) : List (Block Statement) :=
  d.models.map (fun m => (m.statement, [])) ++ d.enums.map fun e => (e.constant, [e.typeAlias])

def program (d : Datamodel) : Program :=
  Item.stack d.blocks

variable {d : Datamodel}

theorem program_ne_nil (h : d.blocks ≠ []) : d.program ≠ [] :=
  Item.stack_ne_nil h

theorem canonical_program (h : d.IsSpelled) (printWidth : Nat) : d.program.Canonical printWidth := by
  have hnodes : Piece.nodes (Item.arrange none d.program) = d.blocks.flatMap Block.toList := by
    rw [program, Item.arrange_stack, Piece.nodes_ofBlocks]
  refine ⟨?_, ?_⟩
  · intro s hs
    rw [hnodes, blocks, List.flatMap_append, List.mem_append, List.flatMap_map, List.flatMap_map,
      List.mem_flatMap, List.mem_flatMap] at hs
    rcases hs with ⟨m, hm, hs⟩ | ⟨e, he, hs⟩
    · rw [Block.toList, List.mem_singleton] at hs
      rw [hs]
      exact Model.canonical_statement (h.models m hm) printWidth
    · rw [Block.toList, List.mem_cons, List.mem_singleton] at hs
      rcases hs with hs | hs
      · rw [hs]
        exact Enumeration.canonical_constant (h.enums e he) printWidth
      · rw [hs]
        exact Enumeration.canonical_typeAlias (h.enums e he) printWidth
  · rw [program, Item.arrange_stack]
    exact Piece.areSound_of_nodes fun p hp => Piece.eq_node_of_mem_ofBlocks hp

theorem print_program (h : d.IsSpelled) (printWidth : Nat) :
    d.program.print printWidth = d.lines printWidth := by
  rw [program, Program.print, Item.layout_stack, lines, blocks, List.map_append, List.map_map,
    List.map_map]
  congr 2
  · refine List.map_congr_left fun m hm => ?_
    simp only [Function.comp, Block.toList, List.flatMap_cons, List.flatMap_nil, List.append_nil]
    exact Model.print_statement (h.models m hm) printWidth
  · refine List.map_congr_left fun e he => ?_
    simp only [Function.comp, Block.toList, List.flatMap_cons, List.flatMap_nil, List.append_nil]
    exact Enumeration.print_statements (h.enums e he) printWidth

end Datamodel

/-!
## Texts

The text of the declarations is that of their lines, indented by two spaces, where no
line is too wide.
-/

namespace TypeScript
namespace Line

variable (tabWidth : Nat)

@[simp] theorem renderAll_nil : renderAll tabWidth [] = [] :=
  rfl

@[simp] theorem renderAll_cons (l : Line) (ls : List Line) :
    renderAll tabWidth (l :: ls) =
      List.replicate (tabWidth * l.depth) ' ' ++ l.text ++ '\n' :: renderAll tabWidth ls := by
  rw [renderAll, List.flatMap_cons, render, renderAll]
  simp

@[simp] theorem renderAll_append (ls ms : List Line) :
    renderAll tabWidth (ls ++ ms) = renderAll tabWidth ls ++ renderAll tabWidth ms :=
  List.flatMap_append

theorem renderAll_flatMap {α : Type} (f : α -> List Line) (as : List α) :
    renderAll tabWidth (as.flatMap f) = as.flatMap fun a => renderAll tabWidth (f a) :=
  List.flatMap_assoc

end Line
end TypeScript

theorem Model.renderAll_lines (m : Model) :
    Line.renderAll 2 m.lines = m.declaration ++ ['\n'] := by
  have hfields : forall fs : List Field, Line.renderAll 2 (fs.map fun f => ⟨1, f.memberText⟩) =
      (fs.map Field.declaration).flatMap (· ++ ['\n']) := by
    intro fs
    induction fs with
    | nil => rfl
    | cons f rest ih =>
        rw [List.map_cons, Line.renderAll_cons, ih, List.map_cons, List.flatMap_cons]
        simp [Field.declaration, Field.memberText, List.replicate]
  have hjoin : forall (s : List Char) (ss : List (List Char)),
      (s :: ss).flatMap (· ++ ['\n']) = Text.joinWith ['\n'] (s :: ss) ++ ['\n'] := by
    intro s ss
    rw [Text.joinWith_cons]
    induction ss generalizing s with
    | nil => simp
    | cons t ss ih => simp [ih]
  rw [lines, declaration]
  cases m.emittedFields with
  | nil =>
      unfold header
      simp
  | cons f rest =>
      have hlines := hfields (f :: rest)
      rw [List.map_cons (f := Field.declaration), hjoin] at hlines
      unfold header
      simp only [Line.renderAll_cons, Line.renderAll_append, List.cons_append, hlines]
      simp

theorem Enumeration.renderAll_lines {e : Enumeration} {printWidth : Nat}
    (h : e.flatLine.length ≤ printWidth) :
    Line.renderAll 2 (e.lines printWidth) = e.declaration ++ ['\n'] := by
  rw [lines, if_pos (.inr h)]
  unfold declaration flatLine header aliasLine
  simp

namespace Datamodel

variable {d : Datamodel}

theorem renderAll_intercalate (tabWidth : Nat) {blocks : List (List Line)} :
    Line.renderAll tabWidth (List.intercalate [Line.blank] blocks) =
      Text.joinWith ['\n'] (blocks.map (Line.renderAll tabWidth)) := by
  cases blocks with
  | nil => rfl
  | cons first rest =>
      rw [Item.intercalate_cons, Line.renderAll_append, Line.renderAll_flatMap, List.map_cons,
        Text.joinWith_cons, List.flatMap_map]
      simp [Line.blank]

/-- Lines wide enough give the text of the declarations. -/
theorem renderAll_lines {printWidth : Nat}
    (h : forall e, e ∈ d.enums -> e.flatLine.length ≤ printWidth) :
    Line.renderAll 2 (d.lines printWidth) = d.declaration := by
  have hblocks : (d.models.map Model.lines ++ d.enums.map (Enumeration.lines printWidth)).map
      (Line.renderAll 2) = d.declarationTexts.map (· ++ ['\n']) := by
    rw [declarationTexts, List.map_append, List.map_append, List.map_map, List.map_map,
      List.map_map, List.map_map]
    congr 1
    · exact List.map_congr_left fun m _ => m.renderAll_lines
    · exact List.map_congr_left fun e he => Enumeration.renderAll_lines (h e he)
  have hjoin : forall (s : List Char) (ss : List (List Char)),
      Text.joinWith ['\n'] ((s :: ss).map (· ++ ['\n'])) =
        Text.joinWith "\n\n".toList (s :: ss) ++ ['\n'] := by
    intro s ss
    rw [List.map_cons, Text.joinWith_cons, Text.joinWith_cons]
    induction ss generalizing s with
    | nil => simp
    | cons t ss ih =>
        have hrest := ih t
        simp at hrest ⊢
        exact hrest
  rw [lines, renderAll_intercalate, hblocks, declaration]
  cases d.declarationTexts with
  | nil => rfl
  | cons s ss => exact hjoin s ss

theorem exists_width (es : List Enumeration) :
    exists printWidth, forall e, e ∈ es -> e.flatLine.length ≤ printWidth := by
  induction es with
  | nil => exact ⟨0, by simp⟩
  | cons e rest ih =>
      obtain ⟨printWidth, hwide⟩ := ih
      refine ⟨max e.flatLine.length printWidth, fun f hf => ?_⟩
      rcases List.mem_cons.mp hf with rfl | hmem
      · exact Nat.le_max_left _ _
      · exact Nat.le_trans (hwide f hmem) (Nat.le_max_right _ _)

/-- The text of the declarations is read as their program, wherever its lines stand. -/
theorem parse?_declaration (h : d.IsSpelled) (hne : d.blocks ≠ []) :
    exists printWidth, Line.renderAll 2 (d.program.print printWidth) = d.declaration /\
      Program.parse? d.declaration = some (d.program.located printWidth 2) := by
  obtain ⟨printWidth, hwide⟩ := exists_width d.enums
  have htext : Line.renderAll 2 (d.program.print printWidth) = d.declaration := by
    rw [print_program h, renderAll_lines hwide]
  refine ⟨printWidth, htext, ?_⟩
  rw [← htext]
  exact Program.parse?_renderAll (canonical_program h printWidth) (program_ne_nil hne) 2

end Datamodel

end SchemaTypes
