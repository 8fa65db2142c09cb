import SchemaTypes.Proofs.Style.Members
import SchemaTypes.Proofs.TypeScript.ProgramReading

/-!
# Declarations in any layout

Interfaces, aliases of types and constant objects, behind `export` or not.  The words that
open a declaration stand on the row of its name; behind them, any layout is read as the
same declaration.
-/

namespace SchemaTypes
namespace TypeScript

/-!
## Outlines
-/

inductive Body where
  /-- The members, each with a flag that tells whether a row is left free in front of it. -/
  | interface (members : List (Bool × Signature))
  | typeAlias (value : TypeTree)
  /-- An object of literals, taken as a constant or not. -/
  | object (frozen : Bool) (entries : List Pairing)

structure Outline where
  exported : Bool
  name : List Char
  body : Body

namespace Body

def keyword : Body -> String
  | interface _ => "interface"
  | typeAlias _ => "type"
  | object _ _ => "const"

def shape (exported : Option Export) (name : List Char) : Body -> Statement × List (Piece Member)
  | interface members =>
      (.interface exported name [] none false [], members.map fun s => .node s.1 s.2.member)
  | typeAlias value => (.typeAlias exported name [] value, [])
  | object frozen entries =>
      (.lexical exported "const".toList [⟨name, false, none, some (Pairing.value frozen entries)⟩], [])

inductive Spelled (name : List Char) : Body -> List Lexeme -> Prop where
  | interface (b b' : List Char) (hname : isIdentifier name = true)
      {members : List (Bool × Signature)} {ls : List Lexeme}
      (h : Signature.SpelledAll members ls) :
      Spelled name (interface members) (.mark b '\x7b' :: ls ++ [.mark b' '\x7d'])
  | typeAlias (b b' : List Char) (hname : isIdentifier name = true) {value : TypeTree}
      {ls : List Lexeme} (h : value.Spelled ls) :
      Spelled name (typeAlias value) (.mark b '=' :: ls ++ [.mark b' ';'])
  | object (b b' : List Char) (hname : isBindingName name = true) {frozen : Bool}
      {entries : List Pairing} {ls : List Lexeme} (h : Pairing.SpelledValue frozen entries ls) :
      Spelled name (object frozen entries) (.mark b '=' :: ls ++ [.mark b' ';'])

end Body

namespace Outline

def export? (exported : Bool) : Option Export :=
  if exported then some ⟨false, false⟩ else none

def shape (o : Outline) : Statement × List (Piece Member) :=
  o.body.shape (export? o.exported) o.name

inductive Spelled : Outline -> List Lexeme -> Prop where
  | plain (b : List Char) {b' name : List Char} {body : Body} {ls : List Lexeme}
      (hb : isRowBlank b' = true) (h : body.Spelled name ls) :
      Spelled ⟨false, name, body⟩
        (.keyword (.ofBlank b) body.keyword :: .word (.ofBlank b') name :: ls)
  | exported (b : List Char) {b' b'' name : List Char} {body : Body} {ls : List Lexeme}
      (hb : isRowBlank b' = true) (hb' : isRowBlank b'' = true) (h : body.Spelled name ls) :
      Spelled ⟨true, name, body⟩
        (.keyword (.ofBlank b) "export" :: .keyword (.ofBlank b') body.keyword ::
          .word (.ofBlank b'') name :: ls)

def shapes (ds : List (Bool × Outline)) : List (Piece (Statement × List (Piece Member))) :=
  ds.map fun d => .node d.1 d.2.shape

/-- The lexemes spell declarations one behind the other.  A flag tells whether a row is left
free in front of a declaration. -/
inductive SpelledAll : List (Bool × Outline) -> List Lexeme -> Prop where
  | nil : SpelledAll [] []
  | cons {first : Outline} {ls : List Lexeme} {more : List (Neighbor Outline)}
      (hfirst : Spelled first ls) (hmore : forall n, n ∈ more -> Spelled n.value n.lexemes)
      (hbetween : forall n, n ∈ more -> n.between = [])
      (hstands : forall n, n ∈ more -> n.Stands) :
      SpelledAll ((false, first) :: more.map Neighbor.flagged) (ls ++ Neighbor.lexemesOf more)

theorem Spelled.eq_cons {o : Outline} {ls : List Lexeme} (h : o.Spelled ls) :
    exists l more b, ls = l :: more /\ l.gap = .ofBlank b := by
  cases h with
  | plain b _ _ => exact ⟨_, _, b, rfl, Lexeme.keyword_gap⟩
  | exported b _ _ _ => exact ⟨_, _, b, rfl, Lexeme.keyword_gap⟩

theorem Spelled.ne_nil {o : Outline} {ls : List Lexeme} (h : o.Spelled ls) : ls ≠ [] := by
  obtain ⟨l, more, b, rfl, -⟩ := h.eq_cons
  exact List.cons_ne_nil _ _

end Outline

namespace Statement

variable {s : Statement} {name : List Char} {body : Body}

/-- A statement with the shape of an interface is one whose members are arranged like that. -/
theorem exists_interface_of_shape {exported : Option Export} {members : List (Bool × Signature)}
    (h : s.shape = (Body.interface members).shape exported name) :
    exists items, s = .interface exported name [] none false items /\
      Item.arrange none items = members.map fun m => .node m.1 m.2.member := by
  cases s with
  | interface =>
      simp only [shape, Body.shape, Prod.mk.injEq, Statement.interface.injEq] at h
      rcases h with ⟨⟨rfl, rfl, rfl, rfl, rfl, -⟩, harrange⟩
      exact ⟨_, rfl, harrange⟩
  | _ => cases h

theorem shape_exportedAs {exported : Option Export} (h : s.shape = body.shape exported name)
    (other : Option Export) : (s.exportedAs other).shape = body.shape other name := by
  cases body with
  | interface members =>
      obtain ⟨items, rfl, harrange⟩ := exists_interface_of_shape h
      rw [exportedAs, shape, harrange, Body.shape]
  | typeAlias value =>
      cases s <;> cases h
      rfl
  | object frozen entries =>
      cases s <;> cases h
      rfl

theorem ne_text_of_shape {exported : Option Export} (h : s.shape = body.shape exported name)
    (t : List Char) : s ≠ .text t := by
  rintro rfl
  cases body <;> cases h

end Statement

namespace Parser

open Outline

variable {g : Grammar} {n : Nat} {row : Nat} {rest ts : List Token} {name : List Char} {body : Body}
  {ls : List Lexeme} {o : Outline}

/-!
## Declarations
-/

/-- The grammar reads the types and the objects in declarations of at most so many lexemes. -/
structure ReadsBodies (g : Grammar) (n : Nat) : Prop where
  types : ReadsSpellings g n
  values : ReadsValues g

theorem readsBodies_upTo (n : Nat) : ReadsBodies (Grammar.upTo (n + 2)) n where
  types := fun t ls h hsize => readsSpellings_upTo (n + 2) t ls h (Nat.le_add_right_of_le hsize)
  values := readsValues_upTo n

theorem run_declarator_object (hg : ReadsValues g) (hname : isBindingName name = true)
    {frozen : Bool} {entries : List Pairing} (h : Pairing.SpelledValue frozen entries ls)
    (gap : Gap) (b : List Char) (row row' : Nat) (hrest : Ends expressionClosers rest) :
    (declarator g).run ((Lexeme.word gap name).token row ::
        (Lexeme.place row' (.mark b '=' :: ls) ++ rest)) =
      some (⟨name, false, none, some (Pairing.value frozen entries)⟩, rest) := by
  have hread := fun row => hg frozen entries ls h .expressionEnding row rest hrest
  have hmark : forall ts, (mark '=').run ((Lexeme.mark b '=').token row' :: ts) =
      some ((Lexeme.mark b '=').token row', ts) := fun ts => run_mark (by simp)
  rw [Lexeme.place_cons, List.cons_append]
  refine (run_bind_some (run_bindingName hname gap row _)).trans ?_
  refine (run_bind_some (run_definiteMark (by simp))).trans ?_
  simp [declaratorType, declaratorValue, run_atMark, hmark, hread]

theorem run_declarators_object (hg : ReadsValues g) (hname : isBindingName name = true)
    {frozen : Bool} {entries : List Pairing} (h : Pairing.SpelledValue frozen entries ls)
    (gap : Gap) (b b' : List Char) (row row' : Nat) (rest : List Token) :
    (declarators g).run ((Lexeme.word gap name).token row ::
        (Lexeme.place row' (.mark b '=' :: ls ++ [.mark b' ';']) ++ rest)) =
      some ([⟨name, false, none, some (Pairing.value frozen entries)⟩], rest) := by
  rw [Lexeme.place_append, List.append_assoc]
  generalize row' + Lexeme.rows (.mark b '=' :: ls) = row₁
  have hfirst := run_declarator_object hg hname h gap b row row'
    (ends_mark b' (show ';' ∈ expressionClosers by decide) row₁ rest)
  have hmore : (many (do let _ ← mark ','; declarator g)).run
      ((Lexeme.mark b' ';').token row₁ :: rest) = some ([], (Lexeme.mark b' ';').token row₁ :: rest) :=
    run_many_nil (run_bind_none (run_mark_none (by simp)))
  refine (run_bind_some ((run_bind_some hfirst).trans (run_bind_some hmore))).trans ?_
  exact run_bind_some (run_semicolon _ b' row₁ rest)

theorem run_declaration_spelled (hg : ReadsBodies g n) (h : body.Spelled name ls)
    (hsize : ls.length ≤ n) {t : Token} (ht : t.isWord body.keyword = true) {b : List Char}
    (hb : isRowBlank b = true) (row row' : Nat) (rest : List Token) :
    exists s, s.shape = body.shape none name /\ forall behindWord fuel,
      (declaration g behindWord (fuel + 1)).run (t :: (Lexeme.word (.ofBlank b) name).token row ::
          (Lexeme.place row' ls ++ rest)) = some (s, rest) := by
  cases h with
  | @interface c c' hname members ls h =>
      simp only [List.length_append, List.length_cons] at hsize
      obtain ⟨items, hmembers, harrange⟩ :=
        run_objectMembers_spelled hg.types h (by omega) c c' row' rest
      refine ⟨.interface none name [] none false items, ?_, ?_⟩
      · rw [Statement.shape, harrange, Body.shape]
      · exact run_declaration_of_interface ht
          (run_interfaceDeclaration_plain ht hname (by simp) hmembers _ row)
  | @typeAlias c c' hname value ls h =>
      simp only [List.length_append, List.length_cons] at hsize
      refine ⟨.typeAlias none name [] value, rfl, ?_⟩
      have hread := fun row row' => hg.types value ls h (by omega) .typeEnding row
        ((Lexeme.mark c' ';').token row' :: rest) (Closes.of_mark (by decide) (by decide) row' rest)
      rw [List.cons_append, Lexeme.place_cons, List.cons_append, Lexeme.place_append,
        List.append_assoc]
      exact run_declaration_of_alias hb ht (run_aliasDeclaration_plain ht hname (hread _ _) _ c _ _)
  | @object c c' hname frozen entries ls h =>
      refine ⟨.lexical none "const".toList [⟨name, false, none, some (Pairing.value frozen entries)⟩],
        rfl, ?_⟩
      have hds := run_lexicalDeclaration (.inl ht)
        (run_declarators_object hg.values hname h (.ofBlank b) c c' row row' rest)
      have hname' : (name == "enum".toList) = false := by
        rw [isBindingName, Bool.and_eq_true, Bool.not_eq_true', List.any_cons,
          Bool.or_eq_false_iff] at hname
        exact hname.right.left
      have htext : t.text = "const".toList := by
        rw [Token.isWord, Bool.and_eq_true, beq_iff_eq, beq_iff_eq] at ht
        exact ht.right
      rw [htext] at hds
      exact run_declaration_of_const hb ht hname' hds

/-- The word that opens a declaration is none of those that are read in another way. -/
theorem isWord_keyword_body {gap : Gap} {w : String} (hw : w ∈ ["export", "as", "default"]) :
    ((Lexeme.keyword gap body.keyword).token row).isWord w = false := by
  have hne : forall w, w ∈ ["export", "as", "default"] ->
      ("interface" == w) = false /\ ("type" == w) = false /\ ("const" == w) = false := by
    decide
  obtain ⟨hinterface, htype, hconst⟩ := hne w hw
  rw [Lexeme.isWord_keyword]
  cases body with
  | interface members => exact hinterface
  | typeAlias value => exact htype
  | object frozen entries => exact hconst

theorem run_statement_spelled (hg : ReadsBodies g n) (h : o.Spelled ls) (hsize : ls.length ≤ n)
    (row : Nat) (rest : List Token) :
    exists s, s.shape = o.shape /\
      (statement g).run (Lexeme.place row ls ++ rest) = some (s, rest) := by
  cases h with
  | @plain b b' name body ls hb h =>
      simp only [List.length_cons] at hsize
      obtain ⟨s, hshape, hrun⟩ := run_declaration_spelled hg h (by omega)
        (t := (Lexeme.keyword (.ofBlank b) body.keyword).token row) (by simp) hb
        (row + Lexeme.rows [.keyword (.ofBlank b) body.keyword]) _ rest
      refine ⟨s, hshape, ?_⟩
      exact run_statement_of_declaration hb (by simp) (isWord_keyword_body (by decide)) (hrun false)
  | @exported b b' b'' name body ls hb hb' h =>
      simp only [List.length_cons] at hsize
      obtain ⟨s, hshape, hrun⟩ := run_declaration_spelled hg h (by omega)
        (t := (Lexeme.keyword (.ofBlank b') body.keyword).token
          (row + Lexeme.rows [.keyword (.ofBlank b) "export"])) (by simp) hb' _ _ rest
      have hexported := run_exported_of_declaration (by simp) (isWord_keyword_body (by decide))
        (isWord_keyword_body (by decide)) (hrun true)
      refine ⟨s.exportedAs (some ⟨false, false⟩), Statement.shape_exportedAs hshape _, ?_⟩
      exact run_statement_of_exported hb (by simp) (Statement.ne_text_of_shape hshape) hexported

/-!
## Declarations among others
-/

theorem readsNeighbor_declaration (hg : ReadsBodies g n) {m : Neighbor Outline}
    (h : m.value.Spelled m.lexemes) (hbetween : m.between = []) (hsize : m.lexemes.length ≤ n) :
    ReadsNeighbor (fun _ => True) (Program.items (statement g)) Statement.shape Outline.shape m := by
  intro row rest _
  obtain ⟨s, hshape, hrun⟩ := run_statement_spelled hg h hsize row rest
  refine ⟨s, hshape, ?_⟩
  obtain ⟨l, more, b, hl, hgap⟩ := h.eq_cons
  rw [Neighbor.item, hbetween, List.nil_append, hl]
  rw [hl] at hrun
  rw [run_items hrun, Lexeme.lead_cons, hgap]
  rfl

theorem run_declarations_spelled (hg : ReadsBodies g n) {ds : List (Bool × Outline)}
    (h : SpelledAll ds ls) (hsize : ls.length ≤ n)
    (hnone : (Program.items (statement g)).run rest = none) :
    exists chunks,
      (manyFrom (Program.items (statement g)) (ls.length + 1)).run (Lexeme.place 0 ls ++ rest) =
        some (chunks, rest) /\
      (Item.arrange none chunks.flatten).map (Piece.map Statement.shape) = shapes ds := by
  cases h with
  | nil => exact ⟨[], run_manyFrom_nil hnone _, rfl⟩
  | @cons first ls more hfirst hmore hbetween hstands =>
      rw [List.length_append] at hsize
      have hread : forall m, m ∈ more -> ReadsNeighbor (fun _ => True)
          (Program.items (statement g)) Statement.shape Outline.shape m := by
        intro m hm
        have hle := Neighbor.length_le_of_mem hm
        exact readsNeighbor_declaration hg (hmore m hm) (hbetween m hm) (by omega)
      have hlength : more.length ≤ (ls ++ Neighbor.lexemesOf more).length := by
        have hle := Neighbor.length_le_lexemesOf fun m hm => (hmore m hm).ne_nil
        rw [List.length_append]
        omega
      obtain ⟨chunks, hmany, harrange⟩ := run_neighbors hread hstands (fun _ _ _ _ => trivial)
        trivial hnone hlength (Lexeme.rows ls)
      obtain ⟨s, hshape, hrun⟩ := readsNeighbor_declaration hg (m := ⟨[], false, first, ls⟩) hfirst
        rfl (Nat.le_of_add_right_le hsize) 0 (Lexeme.place (Lexeme.rows ls) (Neighbor.lexemesOf more) ++ rest) trivial
      refine ⟨[Neighbor.item 0 ⟨[], false, first, ls⟩ s] :: chunks, ?_, ?_⟩
      · rw [Lexeme.place_append, List.append_assoc, Nat.zero_add]
        exact run_manyFrom_cons hrun hmany
      · have hrow : (Neighbor.item 0 ⟨[], false, first, ls⟩ s).endRow = Lexeme.rows ls :=
          Nat.zero_add _
        have hpiece : (Neighbor.item 0 ⟨[], false, first, ls⟩ s).piece none = .node false s := rfl
        rw [List.flatten_cons, List.singleton_append, Item.arrange, hrow, hpiece, List.map_cons,
          harrange, Piece.map, hshape, shapes, List.map_cons, List.map_map]
        rfl

end Parser
end TypeScript
end SchemaTypes
