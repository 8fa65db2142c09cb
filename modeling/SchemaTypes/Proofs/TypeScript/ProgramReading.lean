import SchemaTypes.Proofs.TypeScript.StatementReading

/-!
# Reading printed programs

The lines of a program of canonical statements are read as the same statements, with the
same comments beside and between them, on the rows where the lines put them.
-/

namespace SchemaTypes
namespace TypeScript
namespace Parser

variable {g : Grammar} {n : Nat}

/-!
## The end of the source
-/

section

variable {t : Token} (h : t.kind = .endOfSource)

include h

theorem isMark_end (c : Char) : t.isMark c = false := by
  refine Token.isMark_of_kind ?_ c
  rw [h]
  decide

theorem isWord_end (w : String) : t.isWord w = false := by
  refine Token.isWord_of_kind ?_ w
  rw [h]
  decide

theorem run_expression_end (hempty : t.text = []) (context : Context) :
    (expression g context).run [t] = none := by
  have hmark := isMark_end h
  have hword := isWord_end h
  have hopens : OpensOperand [t] := by
    refine ⟨t, [], rfl, fun w _ => hword w, fun c _ => hmark c, ?_, ?_, ?_⟩
    · intro s hs htext
      rw [hempty] at htext
      have hne : forall s, s ∈ ["...", "++", "--"] -> [] ≠ s.toList := by decide
      exact hne s hs htext
    · intro hkind
      rw [h] at hkind
      cases hkind
    · intro hopen
      rw [hmark] at hopen
      cases hopen
  have hprimary : (primaryExpression g).run [t] = none := by
    simp only [primaryExpression, StateT.run_bind, run_peek, Option.bind_eq_bind, Option.bind_some, h]
    rfl
  have hoperand : (operandExpression g context).run [t] = none := by
    rw [run_operandExpression hopens]
    simp only [closedOperand, StateT.run_bind, run_peek, run_second, Option.bind_eq_bind,
      Option.bind_some, hprimary, Option.bind_none]
  simp only [expression, operation, StateT.run_bind, StateT.run_get, Option.pure_def,
    Option.bind_eq_bind, Option.bind_some, hoperand, Option.bind_none]

omit h in
theorem run_opensDeclaration_end (w : String) (fits : Token -> Bool) :
    (opensDeclaration w fits).run [t] = some (false, [t]) :=
  rfl

theorem run_declaration_end (behindWord : Bool) (fuel : Nat) :
    (declaration g behindWord fuel).run [t] = none := by
  have hmark := isMark_end h
  have hword := isWord_end h
  cases fuel with
  | zero => rfl
  | succ fuel =>
      cases behindWord <;>
        simp only [declaration, if_true, if_false, Bool.and_eq_true, bind_pure_comp, Bool.or_eq_true,
          pure_bind, StateT.run_bind, run_peek, run_second, run_opensDeclaration_end,
          Option.bind_eq_bind, Option.bind_some, Option.bind_fun_none, List.head?_nil, hmark, hword,
          Bool.false_eq_true, false_and, false_or, or_self, run_failure]

theorem run_statement_end (hexpression : (g.expression .expressionEnding).run [t] = none) :
    (statement g).run [t] = none := by
  have hmark := isMark_end h
  have hword := isWord_end h
  have hkind : (t.kind == TokenKind.word) = false := by
    rw [h]
    decide
  have hstatement : (expressionStatement g).run [t] = none := by
    have hsequence : (sequence g .expressionEnding).run [t] = none := by
      simp only [sequence, StateT.run_bind, hexpression, Option.bind_eq_bind, Option.bind_none]
    simp only [expressionStatement, StateT.run_bind, hsequence, Option.bind_eq_bind,
      Option.bind_none]
  have hother : (otherStatement g).run [t] = none := by
    simp only [otherStatement, StateT.run_bind, run_peek, run_second, Option.bind_eq_bind,
      Option.bind_some, hmark, hword, hkind, List.head?_nil, List.any_cons, List.any_nil,
      Bool.or_self, Bool.false_and, Bool.false_eq_true, if_false, hstatement]
  have htext : (textStatement (otherStatement g)).run [t] = none := by
    simp only [textStatement, textOf, withText, StateT.run_map, StateT.run_bind, StateT.run_get,
      Option.pure_def, Option.bind_eq_bind, Option.bind_some, hother, Option.bind_none]
    rfl
  simp only [statement, StateT.run_bind, run_opensDeclaration_end, run_atMark, StateT.run_get,
    Option.pure_def, hmark, Bool.false_eq_true, if_false, Option.bind_eq_bind, Option.bind_some]
  rw [run_orElse_none (run_declaration_end h false _), htext]

end

/-!
## Items up to the end
-/

section

variable {t : Token} {ts : List Token}

theorem run_interpreter_none (h : t.kind ≠ .interpreterLine) :
    (optional? (Program.items (textStatement do let _ ← kind .interpreterLine))).run (t :: ts) =
      some (none, t :: ts) := by
  have hkind : (t.kind == TokenKind.interpreterLine) = false := beq_eq_false_iff_ne.mpr h
  have hline : (kind .interpreterLine).run (t :: ts) = none := by
    simp [kind, run_atKind, hkind, run_require_false]
  refine run_optional?_none ?_
  simp [Program.items, run_comments, asItem, textStatement, textOf, withText, hline]

theorem run_items_end (h : t.kind = .endOfSource) (hempty : t.text = []) (n : Nat) :
    (Program.items (statement (Grammar.upTo (n + 1)))).run [t] = none := by
  have hexpression : ((Grammar.upTo (n + 1)).expression .expressionEnding).run [t] = none :=
    run_expression_end h hempty .expressionEnding
  have hstatement := run_statement_end h hexpression
  simp [Program.items, run_comments, asItem, hstatement]

end

end Parser

/-!
## Programs
-/

namespace Program

variable {printWidth tabWidth : Nat} {program : Program}

/-- The program is spelled by its lexemes without loss. -/
structure Canonical (printWidth : Nat) (program : Program) : Prop where
  statements : forall s, s ∈ Piece.nodes (Item.arrange none program) -> s.Canonical printWidth
  comments : Piece.areSound (Item.arrange none program) = true

def isCanonical (printWidth : Nat) (program : Program) : Bool :=
  (Piece.nodes (Item.arrange none program)).all (Statement.isCanonical printWidth) &&
    Piece.areSound (Item.arrange none program)

theorem canonical_of_isCanonical (h : program.isCanonical printWidth = true) :
    program.Canonical printWidth := by
  rw [isCanonical, Bool.and_eq_true, List.all_eq_true] at h
  exact ⟨fun s hs => Statement.canonical_of_isCanonical (h.left s hs), h.right⟩

def height (printWidth tabWidth : Nat) (s : Statement) : Nat :=
  Text.lineFeeds (s.written printWidth tabWidth)

def lexemes (printWidth tabWidth : Nat) (program : Program) : List Lexeme :=
  Piece.lexemesOf ['\n'] (Statement.lexemes printWidth tabWidth) [] [] (Item.arrange none program)

def final (program : Program) : Gap :=
  ⟨Piece.leftOver ['\n'] [] [] (Item.arrange none program), ['\n']⟩

def located (printWidth tabWidth : Nat) (program : Program) : Program :=
  Piece.placed ['\n'] (height printWidth tabWidth) (Statement.located tabWidth) [] 0
    (Item.arrange none program)

theorem margin_zero (tabWidth : Nat) : Line.margin tabWidth 0 = ['\n'] := by
  simp [Line.margin]

theorem textOf_margin {α : Type} (text : α -> List Char) {ps : List (Piece α)}
    (hopens : Piece.Opens ps) (hne : ps ≠ []) (margin : List Char) :
    Piece.textOf margin text margin ps = margin ++ Piece.textOf margin text [] ps := by
  cases ps with
  | nil => exact absurd rfl hne
  | cons p rest =>
      have hp := hopens p rfl
      cases p with
      | beside s => cases hp
      | comment apart s =>
          cases apart with
          | true => cases hp
          | false => simp [Piece.textOf, Piece.lead]
      | node apart a =>
          cases apart with
          | true => cases hp
          | false => simp [Piece.textOf, Piece.lead]

theorem arrange_ne_nil (hne : program ≠ []) : Item.arrange none program ≠ [] := by
  cases program with
  | nil => exact absurd rfl hne
  | cons item rest => exact List.cons_ne_nil _ _

theorem renderAll_eq_textOf (h : program.Canonical printWidth) (hne : program ≠ [])
    (tabWidth : Nat) :
    Line.renderAll tabWidth (program.print printWidth) =
      Piece.textOf ['\n'] (Statement.written printWidth tabWidth) [] (Item.arrange none program) ++
        ['\n'] := by
  have hprint : forall s, s ∈ Piece.nodes (Item.arrange none program) ->
      Line.behind tabWidth (s.print printWidth) =
        Line.margin tabWidth 0 ++ s.written printWidth tabWidth :=
    fun s hs => (Statement.sets_print (h.statements s hs) tabWidth).behind_eq
  have hopens := Item.opens_arrange program
  have hbehind : Line.behind tabWidth (program.print printWidth) =
      '\n' :: Piece.textOf ['\n'] (Statement.written printWidth tabWidth) []
        (Item.arrange none program) := by
    rw [print, Item.layout_eq, Piece.behind_set hprint hopens, margin_zero,
      textOf_margin _ hopens (arrange_ne_nil hne)]
    rfl
  have hlines := Line.cons_renderAll tabWidth (program.print printWidth)
  rw [hbehind, List.cons_append, List.cons.injEq] at hlines
  exact hlines.right

theorem renderAll_print (h : program.Canonical printWidth) (hne : program ≠ []) (tabWidth : Nat) :
    Line.renderAll tabWidth (program.print printWidth) =
      Lexeme.source (program.lexemes printWidth tabWidth) ++ program.final.text := by
  have hsource : Lexeme.source (program.lexemes printWidth tabWidth) ++
      Gap.commentsText (Piece.leftOver ['\n'] [] [] (Item.arrange none program)) =
        Piece.textOf ['\n'] (Statement.written printWidth tabWidth) [] (Item.arrange none program) :=
    Piece.source_lexemesOf (fun s _ g => Statement.source_lexemes g s) [] []
  rw [renderAll_eq_textOf h hne, final, Gap.text, ← List.append_assoc, hsource]

theorem length_nodes_le (margin first : List Char) (pending : List (List Char × List Char))
    (ps : List (Piece Statement)) :
    (Piece.nodes ps).length ≤
      (Piece.lexemesOf margin (Statement.lexemes printWidth tabWidth) first pending ps).length := by
  induction ps generalizing first pending with
  | nil => exact Nat.zero_le _
  | cons p ps ih =>
      cases p with
      | beside s => exact ih _ _
      | comment apart s => exact ih _ _
      | node apart s =>
          have hmore := ih margin []
          have hopening : 1 ≤ (Statement.lexemes printWidth tabWidth
              ⟨pending, Piece.lead first apart⟩ s).length := by
            rw [Statement.lexemes, List.length_append]
            cases s.exported <;> simp only [Statement.openingLexemes, List.length_cons] <;> omega
          simp only [Piece.nodes, List.filterMap_cons, Piece.node?, List.length_cons,
            Piece.lexemesOf, List.length_append] at hmore ⊢
          omega

theorem length_tail_le {s : Statement} {ps : List (Piece Statement)} (hs : s ∈ Piece.nodes ps)
    (margin first : List Char) (pending : List (List Char × List Char)) :
    (s.tailLexemes printWidth tabWidth).length ≤
      (Piece.lexemesOf margin (Statement.lexemes printWidth tabWidth) first pending ps).length := by
  induction ps generalizing first pending with
  | nil => cases hs
  | cons p ps ih =>
      cases p with
      | beside s => exact ih hs _ _
      | comment apart s => exact ih hs _ _
      | node apart a =>
          rw [Piece.lexemesOf, List.length_append]
          rcases List.mem_cons.mp hs with rfl | hmem
          · rw [Statement.lexemes, List.length_append]
            omega
          · have hmore := ih hmem margin []
            omega

theorem reads_final (h : program.Canonical printWidth) : program.final.reads = true :=
  Piece.reads_leftOver h.comments Piece.isMargin_feed Piece.isMargin_feed []
    (Piece.reads_nextBlank rfl rfl _)

theorem apart_lexemes (h : program.Canonical printWidth) (tabWidth : Nat) :
    Lexeme.Apart (program.lexemes printWidth tabWidth) := by
  have hspell : forall s, s ∈ Piece.nodes (Item.arrange none program) -> forall g, g.reads = true ->
      forall rest, Lexeme.Apart rest ->
        Lexeme.Apart (Statement.lexemes printWidth tabWidth g s ++ rest) :=
    fun s hs g hg rest hrest => Statement.apart_lexemes (h.statements s hs) tabWidth hg hrest
  have happart := Piece.apart_lexemesOf h.comments Piece.isMargin_feed Piece.isMargin_feed hspell []
    (Piece.reads_nextBlank rfl rfl _) (show Lexeme.Apart [] from trivial)
  rwa [List.append_nil] at happart

theorem exists_first_token {ls : List Lexeme} (h : Lexeme.Legible ls) (row : Nat) (g : Gap) :
    exists t ts, Lexeme.place 0 ls ++ [Lexeme.endToken row g] = t :: ts /\
      t.kind ≠ .interpreterLine := by
  cases ls with
  | nil => exact ⟨_, _, rfl, by simp [Lexeme.endToken]⟩
  | cons l ls =>
      refine ⟨_, _, rfl, ?_⟩
      rw [Lexeme.token_kind]
      intro hkind
      have hspelled := h.left
      rw [Lexeme.isSpelled, hkind] at hspelled
      cases hspelled

theorem parse?_of_run {ls : List Lexeme} (h : Lexeme.Legible ls) {final : Gap}
    (hfinal : final.lexes = true) (hzero : '\x00' ∉ Lexeme.source ls ++ final.text)
    {chunks : List (List (Item Statement))}
    (hrun : (Parser.manyFrom (items (Parser.statement (Grammar.upTo (2 * ls.length + 3))))
        (ls.length + 1)).run (Lexeme.place 0 ls ++ [Lexeme.endToken (Lexeme.rows ls) final]) =
      some (chunks, [Lexeme.endToken (Lexeme.rows ls) final])) :
    parse? (Lexeme.source ls ++ final.text) =
      some (chunks.flatten ++ Piece.commentItems (Lexeme.rows ls) final.comments) := by
  have htokens := Lexeme.tokens?_of_legible h hfinal hzero
  generalize hrow : Lexeme.rows ls = row at hrun htokens ⊢
  have hlength : (Lexeme.place 0 ls ++ [Lexeme.endToken row final]).length = ls.length + 1 := by
    rw [List.length_append, Lexeme.length_place, List.length_singleton]
  have hdepth : 2 * (ls.length + 1) + 2 = 2 * ls.length + 3 + 1 := by omega
  have hmany := hrun
  rw [← hlength] at hmany
  obtain ⟨t, ts, hts, hkind⟩ := exists_first_token h row final
  have hcomments : (Lexeme.endToken row final).comments = Gap.placedComments row final.comments :=
    Gap.filterMap_place row final
  have hend : (Parser.require ((Lexeme.endToken row final).kind == .endOfSource)).run
      [Lexeme.endToken row final] = some ((), [Lexeme.endToken row final]) := rfl
  have hparser : (parser (Grammar.upTo (2 * ls.length + 3 + 1))).run
      (Lexeme.place 0 ls ++ [Lexeme.endToken row final]) =
        some (chunks.flatten ++ Piece.commentItems row final.comments,
          [Lexeme.endToken row final]) := by
    rw [hts] at hmany ⊢
    refine (Parser.run_bind_some (Parser.run_interpreter_none hkind)).trans ?_
    refine (Parser.run_bind_some (Parser.run_many hmany)).trans ?_
    refine (Parser.run_bind_some Parser.run_comments).trans ?_
    refine (Parser.run_bind_some (Parser.run_atKind .endOfSource)).trans ?_
    refine (Parser.run_bind_some hend).trans ?_
    rw [hcomments]
    rfl
  rw [parse?, htokens]
  simp only [Option.bind_eq_bind, Option.bind_some, hlength, hdepth, hparser]
  rfl

theorem parse?_renderAll (h : program.Canonical printWidth) (hne : program ≠ [])
    (tabWidth : Nat) :
    parse? (Line.renderAll tabWidth (program.print printWidth)) =
      some (program.located printWidth tabWidth) := by
  obtain ⟨ls, hls⟩ : exists ls, ls = program.lexemes printWidth tabWidth := ⟨_, rfl⟩
  have happart : Lexeme.Apart ls := by
    rw [hls]
    exact apart_lexemes h tabWidth
  have hfinal := reads_final h
  have hread : forall s, s ∈ Piece.nodes (Item.arrange none program) ->
      Parser.ReadsNode (items (Parser.statement (Grammar.upTo (2 * ls.length + 3))))
        (Statement.lexemes printWidth tabWidth) (height printWidth tabWidth)
        (Statement.located tabWidth) [] s := by
    intro s hs
    have hlength : (s.tailLexemes printWidth tabWidth).length ≤ ls.length := by
      rw [hls]
      exact length_tail_le hs ['\n'] [] []
    exact Parser.readsNode_statement (Parser.readsStatements_upTo _) (h.statements s hs) (by omega)
  have hnone : forall row, (items (Parser.statement (Grammar.upTo (2 * ls.length + 3)))).run
      (Lexeme.place row [] ++ [Lexeme.endToken (Lexeme.rows ls) program.final]) = none :=
    fun _ => Parser.run_items_end rfl rfl _
  have hfuel : (Piece.nodes (Item.arrange none program)).length ≤ ls.length + 1 := by
    rw [hls]
    exact Nat.le_succ_of_le (length_nodes_le ['\n'] [] [] _)
  obtain ⟨chunks, after, hafter, hmany, hflat⟩ := Parser.run_nodes ['\n'] rfl hread hnone [] [] 0
    hfuel
  simp only [List.append_nil, List.nil_append, Lexeme.place_nil, Nat.zero_add] at hafter hmany hflat
  have hlexemes : Piece.lexemesOf ['\n'] (fun g s => Statement.lexemes printWidth tabWidth g s) [] []
      (Item.arrange none program) = ls := hls.symm
  rw [hlexemes] at hafter hmany
  have hparse := parse?_of_run happart.legible (Gap.lexes_of_reads hfinal)
    (Lexeme.nul_not_mem_source happart hfinal) hmany
  rw [renderAll_print h hne, ← hls, hparse, ← hafter]
  exact congrArg some hflat

end Program

/-!
## Shapes

The shape of a program is what is left of it without its rows.  A program that is read
from its lines keeps its shape, and programs of one shape are printed alike.
-/

def Statement.shape : Statement -> Statement × List (Piece Member)
  | .interface exported name parameters parents closed members =>
      (.interface exported name parameters parents closed [], Item.arrange none members)
  | s => (s, [])

def Program.shape (program : Program) : List (Piece (Statement × List (Piece Member))) :=
  (Item.arrange none program).map (Piece.map Statement.shape)

theorem Item.arrange_eq_nil {α : Type} {last? : Option Nat} {items : List (Item α)} :
    arrange last? items = [] <-> items = [] := by
  cases items <;> simp [arrange]

namespace Statement

variable {printWidth : Nat}

/-- Statements of one shape are the same, or they are interfaces that differ in the rows of
their members only. -/
theorem shape_cases {s t : Statement} (h : s.shape = t.shape) :
    s = t \/ exists exported name parameters parents closed members others,
      s = .interface exported name parameters parents closed members /\
        t = .interface exported name parameters parents closed others /\
          Item.arrange none members = Item.arrange none others := by
  cases s with
  | @interface exported name parameters parents closed members =>
      cases t with
      | @interface exported' name' parameters' parents' closed' others =>
          simp only [shape, Prod.mk.injEq, Statement.interface.injEq, and_true] at h
          rcases h with ⟨⟨rfl, rfl, rfl, rfl, rfl⟩, harrange⟩
          exact .inr ⟨exported, name, parameters, parents, closed, members, others, rfl, rfl, harrange⟩
      | typeAlias => cases h
      | lexical => cases h
      | text => cases h
  | typeAlias =>
      left
      cases t <;> cases h
      rfl
  | lexical =>
      left
      cases t <;> cases h
      rfl
  | text =>
      left
      cases t <;> cases h
      rfl

theorem print_of_shape {s t : Statement} (h : s.shape = t.shape) (width : Nat) :
    s.print width = t.print width := by
  rcases shape_cases h with rfl |
    ⟨exported, name, parameters, parents, closed, members, others, rfl, rfl, harrange⟩
  · rfl
  · have hlayout := Item.layout_congr 1 (fun m : Member => ([⟨1, m.print ++ [';']⟩] : List Line))
      (congrArg (List.map (Piece.map _)) harrange)
    cases members with
    | nil =>
        rw [Item.arrange_eq_nil.mp harrange.symm]
    | cons first rest =>
        cases others with
        | nil => cases harrange
        | cons first' rest' => simp only [print, hlayout]

theorem shape_located {s : Statement} (h : s.Canonical printWidth) (tabWidth row : Nat) :
    (s.located tabWidth row).shape = s.shape := by
  cases h with
  | module _ _ => rfl
  | declared h =>
      cases h with
      | typeAlias _ _ _ _ _ => rfl
      | lexical _ _ _ _ => rfl
      | @interface exported name parameters parents members _ _ _ _ _ =>
          have harrange : (Item.arrange none (Parser.bodyItems (Line.margin tabWidth 1) row
              (Item.arrange none members))).map (Piece.map id) =
                (Item.arrange none members).map (Piece.map id) :=
            Piece.arrange_placed (Line.lineFeeds_margin tabWidth 1) (Item.opens_arrange members)
              (fun _ _ _ => rfl) (Item.trim_of_mem_texts none members) (Line.margin tabWidth 1) row
          rw [Piece.map_id, List.map_id, List.map_id] at harrange
          rw [located, shape, shape, harrange]

end Statement

namespace Program

variable {printWidth : Nat} {program other : Program}

theorem print_of_shape (h : program.shape = other.shape) (width : Nat) :
    program.print width = other.print width := by
  refine Item.layout_congr 0 (Statement.print width) (Piece.list_map_eq_of_map_eq ?_ h)
  exact fun s t hshape => Statement.print_of_shape hshape width

/-- A program keeps its shape wherever its lines were found. -/
theorem shape_located (h : program.Canonical printWidth) (tabWidth : Nat) :
    (program.located printWidth tabWidth).shape = program.shape :=
  Piece.arrange_placed rfl (Item.opens_arrange program)
    (fun s hs row => Statement.shape_located (h.statements s hs) tabWidth row)
    (Item.trim_of_mem_texts none program) [] 0

/-- A program is printed alike wherever its lines were found. -/
theorem print_located (h : program.Canonical printWidth) (tabWidth width : Nat) :
    (program.located printWidth tabWidth).print width = program.print width :=
  print_of_shape (shape_located h tabWidth) width

end Program
end TypeScript
end SchemaTypes
