import SchemaTypes.Proofs.TypeScript.Run
import SchemaTypes.TypeScript.Printer

/-!
# Arrangements of items

How items stand one below the other, apart from the rows they stood on: which comments
stay beside the item in front of them, and where an empty line is left.  The lines of
items depend on nothing else.
-/

namespace SchemaTypes

/-- Lists that agree in one respect agree in all that it decides about their elements. -/
theorem map_eq_of_map_eq {α β γ : Type} {f : α -> β} {g : α -> γ} {as bs : List α}
    (h : forall a, a ∈ as -> forall b, b ∈ bs -> f a = f b -> g a = g b)
    (heq : as.map f = bs.map f) : as.map g = bs.map g := by
  induction as generalizing bs with
  | nil =>
      cases bs <;> cases heq
      rfl
  | cons a as ih =>
      cases bs with
      | nil => cases heq
      | cons b bs =>
          rw [List.map_cons, List.map_cons, List.cons.injEq] at heq
          have hrest := ih (fun c hc d hd => h c (List.mem_cons_of_mem a hc) d (List.mem_cons_of_mem b hd))
            heq.right
          rw [List.map_cons, List.map_cons, hrest,
            h a List.mem_cons_self b List.mem_cons_self heq.left]

namespace TypeScript

/-!
## Texts of lines
-/

namespace Line

def margin (tabWidth depth : Nat) : List Char :=
  '\n' :: List.replicate (tabWidth * depth) ' '

/-- The text of lines, each of them behind the end of another. -/
def behind (tabWidth : Nat) (ls : List Line) : List Char :=
  ls.flatMap fun l => margin tabWidth l.depth ++ l.text

variable (tabWidth : Nat)

@[simp] theorem behind_nil : behind tabWidth [] = [] :=
  rfl

@[simp] theorem behind_cons (l : Line) (ls : List Line) :
    behind tabWidth (l :: ls) = margin tabWidth l.depth ++ l.text ++ behind tabWidth ls :=
  rfl

@[simp] theorem behind_append (ls ms : List Line) :
    behind tabWidth (ls ++ ms) = behind tabWidth ls ++ behind tabWidth ms :=
  List.flatMap_append

theorem lineFeeds_margin (depth : Nat) : Text.lineFeeds (margin tabWidth depth) = 1 := by
  have hspaces : Text.lineFeeds (List.replicate (tabWidth * depth) ' ') = 0 := by
    simp [Text.lineFeeds, List.count_replicate]
  rw [margin]
  simpa [Text.lineFeeds] using hspaces

theorem isPad_margin (depth : Nat) : Lexeme.isPad (margin tabWidth depth) = true := by
  simp [Lexeme.isPad, margin]

/-- The text of all lines, each of them ended, goes on from the first margin. -/
theorem cons_renderAll (ls : List Line) :
    '\n' :: renderAll tabWidth ls = behind tabWidth ls ++ ['\n'] := by
  induction ls with
  | nil => rfl
  | cons l ls ih =>
      rw [renderAll, List.flatMap_cons, behind_cons, render, margin]
      rw [renderAll] at ih
      simp [← ih]

theorem glue_cons_cons (l m : Line) (ls : List Line) {ms : List Line} (h : ms ≠ []) :
    glue (l :: m :: ls) ms = l :: glue (m :: ls) ms := by
  cases ms with
  | nil => exact absurd rfl h
  | cons n ns => rfl

/-- Glued lines go on without a line end between them. -/
theorem behind_glue {ls : List Line} (h : ls ≠ []) (m : Line) (ms : List Line) :
    behind tabWidth (glue ls (m :: ms)) = behind tabWidth ls ++ m.text ++ behind tabWidth ms := by
  induction ls with
  | nil => exact absurd rfl h
  | cons l ls ih =>
      cases ls with
      | nil => simp [glue]
      | cons n ns =>
          rw [glue_cons_cons l n ns (List.cons_ne_nil m ms), behind_cons, ih (List.cons_ne_nil n ns)]
          simp

theorem behind_add {ls : List Line} (h : ls ≠ []) (s : List Char) :
    behind tabWidth (append ls s) = behind tabWidth ls ++ s := by
  rw [append, behind_glue tabWidth h]
  simp

theorem append_ne_nil {ls : List Line} (h : ls ≠ []) (s : List Char) : append ls s ≠ [] := by
  intro hnil
  have hlength := congrArg List.length (congrArg (behind 0) hnil)
  rw [behind_add 0 h] at hlength
  cases ls with
  | nil => exact h rfl
  | cons l ls => simp [margin] at hlength

end Line

/-!
## Arrangements
-/

inductive Piece (α : Type) where
  /-- A comment on the row where the item in front of it ended. -/
  | beside (text : List Char)
  | comment (apart : Bool) (text : List Char)
  | node (apart : Bool) (value : α)

namespace Piece

variable {α β : Type}

def map (f : α -> β) : Piece α -> Piece β
  | beside s => beside s
  | comment apart s => comment apart s
  | node apart a => node apart (f a)

@[simp] theorem map_id : (map id : Piece α -> Piece α) = id := by
  funext p
  cases p <;> rfl

section

variable {γ : Type} {f : α -> β} {g : α -> γ} (h : forall a b, f a = f b -> g a = g b)

include h

theorem map_eq_of_map_eq {p q : Piece α} (heq : p.map f = q.map f) : p.map g = q.map g := by
  cases p with
  | beside s =>
      cases q <;> cases heq
      rfl
  | comment apart s =>
      cases q <;> cases heq
      rfl
  | node apart a =>
      cases q with
      | beside s => cases heq
      | comment apart' s => cases heq
      | node apart' b =>
          injection heq with hapart hvalue
          rw [map, map, hapart, h a b hvalue]

/-- Pieces that agree in one respect agree in all that it decides. -/
theorem list_map_eq_of_map_eq {ps qs : List (Piece α)} (heq : ps.map (map f) = qs.map (map f)) :
    ps.map (map g) = qs.map (map g) :=
  SchemaTypes.map_eq_of_map_eq (fun _ _ _ _ hpiece => map_eq_of_map_eq h hpiece) heq

end

def isBeside : Piece α -> Bool
  | beside _ => true
  | _ => false

def opens : Piece α -> Bool
  | beside _ => false
  | comment apart _ => !apart
  | node apart _ => !apart

def set (depth : Nat) (print : α -> List Line) (lines : List Line) : Piece α -> List Line
  | beside s => Line.append lines (' ' :: s)
  | comment apart s => lines ++ (if apart then [Line.blank] else []) ++ [⟨depth, s⟩]
  | node apart a => lines ++ (if apart then [Line.blank] else []) ++ print a

end Piece

namespace Item

variable {α β : Type}

def isApart (last? : Option Nat) (row : Nat) : Bool :=
  last?.any fun last => last + 1 < row

def piece (last? : Option Nat) : Item α -> Piece α
  | comment c =>
      if last? = some c.row then .beside (Text.trim c.text)
      else .comment (isApart last? c.row) (Text.trim c.text)
  | node row _ a => .node (isApart last? row) a

def arrange (last? : Option Nat) : List (Item α) -> List (Piece α)
  | [] => []
  | item :: rest => item.piece last? :: arrange (some item.endRow) rest

theorem layoutFrom_cons (depth : Nat) (print : α -> List Line) (last? : Option Nat)
    (lines : List Line) (item : Item α) (rest : List (Item α)) :
    layoutFrom depth print last? lines (item :: rest) =
      layoutFrom depth print (some item.endRow) ((item.piece last?).set depth print lines) rest := by
  rw [layoutFrom.eq_def]
  cases item with
  | comment c =>
      cases last? with
      | none => simp [piece, Piece.set, isApart]
      | some last =>
          by_cases hrow : c.row = last
          · simp [piece, Piece.set, hrow]
          · by_cases hfree : last + 1 < c.row <;>
              simp [piece, Piece.set, isApart, hrow, hfree, Ne.symm hrow]
  | node row endRow a =>
      cases last? with
      | none => simp [piece, Piece.set, isApart]
      | some last =>
          by_cases hfree : last + 1 < row <;> simp [piece, Piece.set, isApart, Item.row, hfree]

theorem layoutFrom_eq (depth : Nat) (print : α -> List Line) (last? : Option Nat)
    (lines : List Line) (items : List (Item α)) :
    layoutFrom depth print last? lines items =
      (arrange last? items).foldl (Piece.set depth print) lines := by
  induction items generalizing last? lines with
  | nil => rfl
  | cons item rest ih => rw [layoutFrom_cons, ih, arrange, List.foldl_cons]

theorem layout_eq (depth : Nat) (print : α -> List Line) (items : List (Item α)) :
    layout depth print items = (arrange none items).foldl (Piece.set depth print) [] :=
  layoutFrom_eq depth print none [] items

/-- Lines depend on the values of items only through their lines. -/
theorem set_map (depth : Nat) (print : α -> List Line) (lines : List Line) (p : Piece α) :
    (p.map print).set depth id lines = p.set depth print lines := by
  cases p <;> rfl

theorem foldl_set_map (depth : Nat) (print : α -> List Line) (lines : List Line)
    (ps : List (Piece α)) :
    (ps.map (Piece.map print)).foldl (Piece.set depth id) lines =
      ps.foldl (Piece.set depth print) lines := by
  rw [List.foldl_map]
  congr 1
  funext lines p
  exact set_map depth print lines p

/-- Items that are arranged alike and whose values are printed alike have the same lines. -/
theorem layout_congr (depth : Nat) (print : α -> List Line) {items others : List (Item α)}
    (h : (arrange none items).map (Piece.map print) = (arrange none others).map (Piece.map print)) :
    layout depth print items = layout depth print others := by
  rw [layout_eq, layout_eq, ← foldl_set_map depth print, h, foldl_set_map]

end Item

/-!
## Lexemes of arrangements

The comments of an arrangement stand in the gaps in front of its nodes; those behind the
last node are left over for the gap that follows.
-/

namespace Piece

variable {α β : Type}

def node? : Piece α -> Option α
  | node _ a => some a
  | _ => none

def nodes (ps : List (Piece α)) : List α :=
  ps.filterMap node?

/-- The blanks in front of a piece, where nothing left free stands behind `first`. -/
def lead (first : List Char) : Bool -> List Char
  | false => first
  | true => '\n' :: first

section

variable (margin : List Char) (spell : Gap -> α -> List Lexeme) (text : α -> List Char)

/-- The lexemes of the nodes, behind comments that came before.  Where nothing is left free,
`first` stands in front of the first piece and a margin in front of the others. -/
def lexemesOf (first : List Char) (pending : List (List Char × List Char)) :
    List (Piece α) -> List Lexeme
  | [] => []
  | beside s :: rest => lexemesOf margin (pending ++ [([' '], s)]) rest
  | comment apart s :: rest => lexemesOf margin (pending ++ [(lead first apart, s)]) rest
  | node apart a :: rest => spell ⟨pending, lead first apart⟩ a ++ lexemesOf margin [] rest

def leftOver (first : List Char) (pending : List (List Char × List Char)) :
    List (Piece α) -> List (List Char × List Char)
  | [] => pending
  | beside s :: rest => leftOver margin (pending ++ [([' '], s)]) rest
  | comment apart s :: rest => leftOver margin (pending ++ [(lead first apart, s)]) rest
  | node _ _ :: rest => leftOver margin [] rest

def textOf (first : List Char) : List (Piece α) -> List Char
  | [] => []
  | beside s :: rest => ' ' :: s ++ textOf margin rest
  | comment apart s :: rest => lead first apart ++ s ++ textOf margin rest
  | node apart a :: rest => lead first apart ++ text a ++ textOf margin rest

end

section

variable {margin : List Char} {spell : Gap -> α -> List Lexeme} {text : α -> List Char}

theorem commentsText_snoc (cs : List (List Char × List Char)) (b s : List Char) :
    Gap.commentsText (cs ++ [(b, s)]) = Gap.commentsText cs ++ b ++ s := by
  simp [Gap.commentsText]

theorem source_lexemesOf {ps : List (Piece α)}
    (h : forall a, a ∈ nodes ps -> forall g, Lexeme.source (spell g a) = g.text ++ text a)
    (first : List Char) (pending : List (List Char × List Char)) :
    Lexeme.source (lexemesOf margin spell first pending ps) ++
        Gap.commentsText (leftOver margin first pending ps) =
      Gap.commentsText pending ++ textOf margin text first ps := by
  induction ps generalizing first pending with
  | nil => simp [lexemesOf, leftOver, textOf]
  | cons p rest ih =>
      cases p with
      | beside s =>
          rw [lexemesOf, leftOver, ih h, commentsText_snoc, textOf]
          simp
      | comment apart s =>
          rw [lexemesOf, leftOver, ih h, commentsText_snoc, textOf]
          simp
      | node apart a =>
          have hrest := ih (fun b hb => h b (List.mem_cons_of_mem a hb)) margin []
          rw [lexemesOf, leftOver, Lexeme.source_append, h a List.mem_cons_self, List.append_assoc,
            hrest, textOf]
          simp [Gap.text, Gap.commentsText]

end

theorem behind_foldl_set {tabWidth depth : Nat} {print : α -> List Line} {text : α -> List Char}
    {ps : List (Piece α)}
    (h : forall a, a ∈ nodes ps ->
      Line.behind tabWidth (print a) = Line.margin tabWidth depth ++ text a)
    {lines : List Line} (hlines : lines ≠ []) :
    Line.behind tabWidth (ps.foldl (set depth print) lines) =
      Line.behind tabWidth lines ++
        textOf (Line.margin tabWidth depth) text (Line.margin tabWidth depth) ps := by
  have hblank : forall apart : Bool, Line.behind tabWidth (if apart then [Line.blank] else []) ++
      Line.margin tabWidth depth = lead (Line.margin tabWidth depth) apart := by
    intro apart
    cases apart <;> simp [lead, Line.blank, Line.margin]
  induction ps generalizing lines with
  | nil => simp [textOf]
  | cons p rest ih =>
      rw [List.foldl_cons]
      cases p with
      | beside s =>
          rw [set, ih h (Line.append_ne_nil hlines _), Line.behind_add tabWidth hlines, textOf]
          simp
      | comment apart s =>
          rw [set, ih h (by simp), textOf, ← hblank]
          simp
      | node apart a =>
          have hrest := fun b hb => h b (List.mem_cons_of_mem a hb)
          have hne : lines ++ (if apart then [Line.blank] else []) ++ print a ≠ [] := by
            intro hnil
            exact hlines (List.append_eq_nil_iff.mp (List.append_eq_nil_iff.mp hnil).left).left
          rw [set, ih hrest hne, Line.behind_append, Line.behind_append, h a List.mem_cons_self, textOf,
            ← hblank]
          simp

def Opens (ps : List (Piece α)) : Prop :=
  forall p, ps.head? = some p -> p.opens = true

theorem behind_set {tabWidth depth : Nat} {print : α -> List Line} {text : α -> List Char}
    {ps : List (Piece α)}
    (h : forall a, a ∈ nodes ps ->
      Line.behind tabWidth (print a) = Line.margin tabWidth depth ++ text a)
    (hopens : Opens ps) :
    Line.behind tabWidth (ps.foldl (set depth print) []) =
      textOf (Line.margin tabWidth depth) text (Line.margin tabWidth depth) ps := by
  cases ps with
  | nil => rfl
  | cons p rest =>
      have hp := hopens p rfl
      rw [List.foldl_cons]
      cases p with
      | beside s => cases hp
      | comment apart s =>
          cases apart with
          | true => cases hp
          | false =>
              have hrest : forall a, a ∈ nodes rest ->
                  Line.behind tabWidth (print a) = Line.margin tabWidth depth ++ text a := h
              rw [behind_foldl_set hrest (by simp [set])]
              simp [set, textOf, lead]
      | node apart a =>
          cases apart with
          | true => cases hp
          | false =>
              have hfirst := h a List.mem_cons_self
              have hne : print a ≠ [] := by
                intro hnil
                rw [hnil] at hfirst
                cases hfirst
              rw [behind_foldl_set (fun b hb => h b (List.mem_cons_of_mem a hb)) (by simpa [set])]
              simp [set, textOf, lead, hfirst]

end Piece

namespace Item

theorem opens_arrange {α : Type} (items : List (Item α)) : Piece.Opens (arrange none items) := by
  intro p hp
  cases items with
  | nil => cases hp
  | cons item rest =>
      rw [arrange, List.head?_cons, Option.some.injEq] at hp
      subst hp
      cases item <;> simp [piece, isApart, Piece.opens]

end Item

end TypeScript
end SchemaTypes
