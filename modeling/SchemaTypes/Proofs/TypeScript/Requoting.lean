import SchemaTypes.Proofs.TypeScript.LiteralValue

/-!
# Programs with requoted literals

A literal is printed between double quotes, whatever quotes it was written with.  So a
program is printed like the program whose literals have been requoted, and what is read
from its lines is that program.
-/

namespace SchemaTypes
namespace TypeScript

namespace Quoted

@[simp] theorem requote_requote (s : List Char) : requote (requote s) = requote s := by
  have hends : requote s = s \/ exists t, requote s = '"' :: t := by
    unfold requote
    split
    · exact .inr ⟨_, rfl⟩
    · exact .inl rfl
  obtain hsame | ⟨t, hquoted⟩ := hends
  · rw [hsame, hsame]
  · rw [hquoted, requote_double]

theorem mem_requoteInside {s : List Char} {c : Char} (h : c ∈ requoteInside s) :
    c ∈ s \/ c = '\\' := by
  fun_induction requoteInside s with
  | case1 => cases h
  | case2 => exact .inl h
  | case3 rest ih =>
      rcases List.mem_cons.mp h with rfl | hmem
      · simp
      · exact (ih hmem).imp (fun hc => by simp [hc]) id
  | case4 d rest hd ih =>
      rcases List.mem_cons.mp h with rfl | hmem
      · exact .inr rfl
      · rcases List.mem_cons.mp hmem with rfl | hmem
        · simp
        · exact (ih hmem).imp (fun hc => by simp [hc]) id
  | case5 rest ih =>
      rcases List.mem_cons.mp h with rfl | hmem
      · exact .inr rfl
      · rcases List.mem_cons.mp hmem with rfl | hmem
        · simp
        · exact (ih hmem).imp (fun hc => by simp [hc]) id
  | case6 d rest _ _ _ _ ih =>
      rcases List.mem_cons.mp h with rfl | hmem
      · simp
      · exact (ih hmem).imp (fun hc => by simp [hc]) id

theorem mem_requote {s : List Char} {c : Char} (h : c ∈ requote s) :
    c ∈ s \/ c = '\\' \/ c = '"' := by
  unfold requote at h
  split at h
  · rename_i d rest
    simp only [List.cons_append, List.mem_cons, List.mem_append, List.not_mem_nil, or_false] at h
    rcases h with rfl | hinside | rfl
    · simp
    · rcases mem_requoteInside hinside with hc | rfl
      · exact .inl (List.mem_cons_of_mem _ (List.dropLast_subset _ hc))
      · simp
    · simp
  · exact .inl h

theorem not_mem_requote {s : List Char} {c : Char} (h : c ∉ s) (hslash : c ≠ '\\')
    (hquote : c ≠ '"') : c ∉ requote s := by
  intro hc
  rcases mem_requote hc with hin | heq | heq
  · exact h hin
  · exact hslash heq
  · exact hquote heq

/-- Requoting puts no line feed behind a carriage return. -/
theorem normalizeLines_requoteInside {s : List Char} (h : Text.normalizeLines s = s) :
    Text.normalizeLines (requoteInside s) = requoteInside s := by
  have hhead := @head_requoteInside_eq '\n' ⟨rfl, rfl, rfl⟩
  fun_induction requoteInside s with
  | case1 => rfl
  | case2 => rfl
  | case3 rest ih =>
      simp only [Text.normalizeLines_cons_eq_iff] at h
      exact Text.normalizeLines_cons_eq_iff.mpr ⟨nofun, ih h.right.right⟩
  | case4 d rest _ ih =>
      simp only [Text.normalizeLines_cons_eq_iff] at h ⊢
      exact ⟨nofun, fun hd hfeed => h.right.left hd ((hhead rest).mp hfeed), ih h.right.right⟩
  | case5 rest ih =>
      simp only [Text.normalizeLines_cons_eq_iff] at h ⊢
      exact ⟨nofun, nofun, ih h.right⟩
  | case6 d rest _ _ _ _ ih =>
      simp only [Text.normalizeLines_cons_eq_iff] at h ⊢
      exact ⟨fun hd hfeed => h.left hd ((hhead rest).mp hfeed), ih h.right⟩

theorem normalizeLines_requote {s : List Char} (h : Text.normalizeLines s = s) :
    Text.normalizeLines (requote s) = requote s := by
  unfold requote
  split
  · rename_i c rest
    obtain ⟨last, hlast⟩ := List.dropLast_prefix (c :: rest)
    rw [Text.normalizeLines_cons_eq_iff, ← hlast] at h
    have hinside := normalizeLines_requoteInside (Text.normalizeLines_left h.right)
    rw [List.cons_append, Text.normalizeLines_cons_eq_iff]
    refine ⟨nofun, ?_⟩
    rw [Text.normalizeLines_append (fun _ => by simp), hinside]
    rfl
  · exact h

variable {s : List Char} (h : isLiteral s = true)

include h

theorem isLiteral_requote : isLiteral (requote s) = true := by
  rw [isLiteral, Bool.and_eq_true, Bool.and_eq_true, Bool.not_eq_true', List.contains_eq_mem,
    decide_eq_false_iff_not, beq_iff_eq] at h ⊢
  obtain ⟨⟨hpieces, hzero⟩, hnormalized⟩ := h
  obtain ⟨ps, hps⟩ := Option.isSome_iff_exists.mp hpieces
  obtain ⟨qs, hqs, -⟩ := meaning_of_requote hps
  rw [hqs]
  exact ⟨⟨rfl, not_mem_requote hzero (by decide) (by decide)⟩, normalizeLines_requote hnormalized⟩

theorem head_requote : ((requote s).head? == some '"') = true := by
  rw [isLiteral, Bool.and_eq_true, Bool.and_eq_true] at h
  obtain ⟨ps, hps⟩ := Option.isSome_iff_exists.mp h.left.left
  obtain ⟨quote, rfl | rfl, rfl, hfit⟩ := fit_of_pieces? hps
  · rfl
  · rw [requote_single hfit]
    rfl

end Quoted

/-!
## Names and types
-/

namespace PropertyName

def requoted (n : PropertyName) : PropertyName :=
  if n.quoted then ⟨Quoted.requote n.text, true⟩ else n

@[simp] theorem print_requoted (n : PropertyName) : n.requoted.print = n.print := by
  rw [requoted]
  split
  · rename_i hquoted
    rw [print, print, if_pos rfl, if_pos hquoted, Quoted.requote_requote]
  · rfl

end PropertyName

namespace TypeTree

mutual

def requoted : TypeTree -> TypeTree
  | union members => union (requotedAll members)
  | intersection parts => intersection (requotedAll parts)
  | array element => array (requoted element)
  | parenthesized inner => parenthesized (requoted inner)
  | lookup object index => lookup (requoted object) (requoted index)
  | keyOf operand => keyOf (requoted operand)
  | typeOf query => typeOf query
  | string literal => string (Quoted.requote literal)
  | generic name arguments => generic name (requotedAll arguments)
  | constant => constant
  | text s => text s

def requotedAll : List TypeTree -> List TypeTree
  | [] => []
  | t :: rest => requoted t :: requotedAll rest

end

theorem isConstant_requoted (t : TypeTree) : t.requoted.isConstant = t.isConstant := by
  cases t <;> rfl

theorem isPrimary_requoted (t : TypeTree) : t.requoted.isPrimary = t.isPrimary := by
  cases t <;> rfl

theorem requotedAll_eq_map (ts : List TypeTree) : requotedAll ts = ts.map requoted := by
  induction ts with
  | nil => rfl
  | cons t rest ih => rw [requotedAll, ih, List.map_cons]

mutual

theorem print_requoted : forall t : TypeTree, t.requoted.print = t.print
  | union members => by
      simp only [requoted, print_union, printAll_requotedAll members]
  | intersection parts => by
      simp only [requoted, print_intersection, printAll_requotedAll parts]
  | array element => by
      simp only [requoted, print_array, print_requoted element]
  | parenthesized inner => by
      simp only [requoted, print_parenthesized, print_requoted inner]
  | lookup object index => by
      simp only [requoted, print_lookup, print_requoted object, print_requoted index]
  | keyOf operand => by
      simp only [requoted, print_keyOf, print_requoted operand]
  | typeOf query => by
      simp only [requoted]
  | string literal => by
      simp only [requoted, print_string, Quoted.requote_requote]
  | generic name arguments => by
      simp only [requoted, print_generic, printAll_requotedAll arguments]
  | constant => by
      simp only [requoted]
  | text s => by
      simp only [requoted]

theorem printAll_requotedAll : forall ts : List TypeTree, printAll (requotedAll ts) = printAll ts
  | [] => by
      simp only [requotedAll]
  | t :: rest => by
      rw [requotedAll, printAll_cons, printAll_cons, isConstant_requoted, print_requoted t,
        printAll_requotedAll rest]

end

end TypeTree

/-!
## Expressions
-/

mutual

def Expression.requoted : Expression -> Expression
  | .object entries => .object (Entry.requotedAll entries)
  | .array elements => .array (Expression.requotedAll elements)
  | .string literal => .string (Quoted.requote literal)
  | .parenthesized inner declared => .parenthesized (Expression.requoted inner) declared
  | .ascription value target => .ascription (Expression.requoted value) target.requoted
  | .hole => .hole
  | .text s => .text s

def Expression.requotedAll : List Expression -> List Expression
  | [] => []
  | e :: rest => Expression.requoted e :: Expression.requotedAll rest

def Entry.requoted : Entry -> Entry
  | .pair key value => .pair key.requoted (Expression.requoted value)
  | .hole => .hole
  | .text s => .text s

def Entry.requotedAll : List Entry -> List Entry
  | [] => []
  | e :: rest => Entry.requoted e :: Entry.requotedAll rest

end

mutual

theorem Expression.print_requoted : forall e : Expression, e.requoted.print = e.print
  | .object entries => by
      simp only [Expression.requoted, Expression.print_object, Entry.printAll_requotedAll entries]
  | .array elements => by
      simp only [Expression.requoted, Expression.print_array,
        Expression.printAll_requotedAll elements]
  | .string literal => by
      simp only [Expression.requoted, Expression.print_string, Quoted.requote_requote]
  | .parenthesized inner declared => by
      simp only [Expression.requoted, Expression.print_parenthesized,
        Expression.print_requoted inner]
  | .ascription value target => by
      simp only [Expression.requoted, Expression.print_ascription, Expression.print_requoted value,
        TypeTree.print_requoted]
  | .hole => by
      simp only [Expression.requoted]
  | .text s => by
      simp only [Expression.requoted]

theorem Expression.printAll_requotedAll :
    forall es : List Expression, Expression.printAll (Expression.requotedAll es) =
      Expression.printAll es
  | [] => by
      simp only [Expression.requotedAll]
  | e :: rest => by
      have hfirst := Expression.print_requoted e
      have hrest := Expression.printAll_requotedAll rest
      cases e <;> simp only [Expression.requotedAll, Expression.requoted, Expression.printAll,
        hrest] at hfirst ⊢ <;> rw [hfirst]

theorem Entry.print_requoted : forall e : Entry, e.requoted.print = e.print
  | .pair key value => by
      simp only [Entry.requoted, Entry.print_pair, PropertyName.print_requoted,
        Expression.print_requoted value]
  | .hole => by
      simp only [Entry.requoted]
  | .text s => by
      simp only [Entry.requoted]

theorem Entry.printAll_requotedAll :
    forall es : List Entry, Entry.printAll (Entry.requotedAll es) = Entry.printAll es
  | [] => by
      simp only [Entry.requotedAll]
  | e :: rest => by
      have hfirst := Entry.print_requoted e
      have hrest := Entry.printAll_requotedAll rest
      cases e <;> simp only [Entry.requotedAll, Entry.requoted, Entry.printAll, hrest] at hfirst ⊢
      rw [hfirst]

end

namespace Expression

theorem printBroken_requoted (depth : Nat) :
    forall e : Expression, e.requoted.printBroken depth = e.printBroken depth
  | object entries => by
      rw [requoted, printBroken, printBroken, Entry.printAll_requotedAll]
  | parenthesized inner declared => by
      rw [requoted, printBroken, printBroken, printBroken_requoted depth inner]
  | ascription value target => by
      rw [requoted, printBroken, printBroken, printBroken_requoted depth value,
        TypeTree.print_requoted]
  | array elements => by
      have hprint := print_requoted (array elements)
      rw [requoted] at hprint
      rw [requoted, printBroken, printBroken, hprint]
      all_goals simp
  | string literal => by
      have hprint := print_requoted (string literal)
      rw [requoted] at hprint
      rw [requoted, printBroken, printBroken, hprint]
      all_goals simp
  | hole => rfl
  | text s => rfl

end Expression

/-!
## Members and declarations
-/

namespace MemberPiece

def requoted : MemberPiece -> MemberPiece
  | modifier s => modifier s
  | name n => name n.requoted
  | optional => optional
  | declared t => declared t.requoted

theorem print_requoted (p : MemberPiece) : p.requoted.print = p.print := by
  cases p with
  | modifier s => rfl
  | name n => exact n.print_requoted
  | optional => rfl
  | declared t => rw [requoted, print, print, t.print_requoted]

end MemberPiece

namespace Member

def requoted : Member -> Member
  | property pieces => property (pieces.map MemberPiece.requoted)
  | text s => text s

theorem print_requoted (m : Member) : m.requoted.print = m.print := by
  cases m with
  | text s => rfl
  | property pieces =>
      rw [requoted, print, print, List.flatMap_map]
      exact congrArg (pieces.flatMap ·) (funext MemberPiece.print_requoted)

end Member

namespace Declarator

def requoted (d : Declarator) : Declarator :=
  { d with declared := d.declared.map TypeTree.requoted, value := d.value.map Expression.requoted }

theorem head_requoted (d : Declarator) : d.requoted.head = d.head := by
  rw [head, head, requoted]
  cases d.declared with
  | none => rfl
  | some t => simp only [Option.map_some, Option.elim_some, t.print_requoted]

theorem print_requoted (d : Declarator) : d.requoted.print = d.print := by
  rw [print, print, head_requoted, requoted]
  cases d.value with
  | none => rfl
  | some e => simp only [Option.map_some, Option.elim_some, e.print_requoted]

theorem printBroken_requoted (depth : Nat) (d : Declarator) :
    d.requoted.printBroken depth = d.printBroken depth := by
  rw [printBroken, printBroken, head_requoted, requoted]
  cases d.value with
  | none => rfl
  | some e => simp only [Option.map_some, e.printBroken_requoted depth]

end Declarator

/-!
## Programs
-/

namespace Item

variable {α : Type}

def map (f : α -> α) : Item α -> Item α
  | comment c => comment c
  | node row endRow a => node row endRow (f a)

theorem arrange_map (f : α -> α) (last? : Option Nat) (items : List (Item α)) :
    arrange last? (items.map (map f)) = (arrange last? items).map (Piece.map f) := by
  induction items generalizing last? with
  | nil => rfl
  | cons item rest ih =>
      have hpiece : (item.map f).piece last? = (item.piece last?).map f := by
        cases item with
        | node row endRow a => rfl
        | comment c =>
            rw [map, piece]
            split <;> rfl
      have hend : (item.map f).endRow = item.endRow := by
        cases item <;> rfl
      rw [List.map_cons, arrange, arrange, List.map_cons, ih, hpiece, hend]

theorem layout_map {f : α -> α} {print : α -> List Line} (h : forall a, print (f a) = print a)
    (depth : Nat) (items : List (Item α)) :
    layout depth print (items.map (map f)) = layout depth print items := by
  refine layout_congr depth print ?_
  have hprint : Piece.map print ∘ Piece.map f = Piece.map print := by
    funext p
    cases p <;> simp [Piece.map, h]
  rw [arrange_map, List.map_map, hprint]

end Item

namespace Statement

def requoted : Statement -> Statement
  | interface exported name parameters parents exact members =>
      interface exported name parameters parents exact (members.map (Item.map Member.requoted))
  | typeAlias exported name parameters value =>
      typeAlias exported name parameters value.requoted
  | lexical exported keyword declarators =>
      lexical exported keyword (declarators.map Declarator.requoted)
  | text s => text s

theorem flatAlias_requoted (exported : Option Export) (name parameters : List Char)
    (value : TypeTree) :
    flatAlias exported name parameters value.requoted =
      flatAlias exported name parameters value := by
  rw [flatAlias, flatAlias, value.print_requoted]

theorem map_requoted {β : Type} {f : Declarator -> β} (h : forall d, f d.requoted = f d)
    (ds : List Declarator) : (ds.map Declarator.requoted).map f = ds.map f := by
  rw [List.map_map]
  exact congrArg (ds.map ·) (funext h)

theorem flatLexical_requoted (exported : Option Export) (keyword : List Char)
    (ds : List Declarator) :
    flatLexical exported keyword (ds.map Declarator.requoted) =
      flatLexical exported keyword ds := by
  rw [flatLexical, flatLexical, map_requoted Declarator.print_requoted]

theorem print_requoted (printWidth : Nat) (s : Statement) :
    s.requoted.print printWidth = s.print printWidth := by
  cases s with
  | text s => rfl
  | interface exported name parameters parents exact members =>
      have hlayout := @Item.layout_map Member Member.requoted (fun m => [⟨1, m.print ++ [';']⟩])
        (fun m => by rw [m.print_requoted]) 1 members
      cases members with
      | nil => rfl
      | cons first rest =>
          simp only [List.map_cons] at hlayout
          simp only [requoted, List.map_cons, print, hlayout]
  | typeAlias exported name parameters value =>
      have hflat := flatAlias_requoted exported name parameters value
      cases value with
      | union members =>
          rw [TypeTree.requoted] at hflat
          simp only [requoted, TypeTree.requoted, print, hflat, TypeTree.printAll_requotedAll]
      | _ => exact congrArg (fun s => ([⟨0, s⟩] : List Line)) hflat
  | lexical exported keyword declarators =>
      rw [requoted, print, print, flatLexical_requoted,
        map_requoted (Declarator.printBroken_requoted 0)]

end Statement

namespace Program

def requoted (program : Program) : Program :=
  program.map (Item.map Statement.requoted)

theorem print_requoted (printWidth : Nat) (program : Program) :
    program.requoted.print printWidth = program.print printWidth :=
  Item.layout_map (Statement.print_requoted printWidth) 0 program

theorem requoted_eq_nil {program : Program} : program.requoted = [] <-> program = [] :=
  List.map_eq_nil_iff

end Program

end TypeScript
end SchemaTypes
