import SchemaTypes.Proofs.Format.Sources
import SchemaTypes.Proofs.Style.Canonical

/-!
# Programs in any layout

The texts that spell declarations are read as one program, whatever their layout and
whatever quotes their literals have, and they are formatted to one text, which is read as
that program with its literals between double quotes.
-/

namespace SchemaTypes

open TypeScript

/-!
## Names
-/

namespace TypeScript

/-- A word that is no keyword in types and declarations. -/
def isFreeName (s : List Char) : Bool :=
  isWordText s &&
    !("enum" :: Parser.nonTypeWords ++ Parser.predefinedWords).any (s == ·.toList)

theorem fits_of_isFreeName {s : List Char} (h : isFreeName s = true) :
    isIdentifier s = true /\ isBindingName s = true /\ TypeTree.isTypeWord s = true /\
      TypeTree.isGenericName s = true /\ (PropertyName.mk s false).isKey = true /\
      Member.isAbstract [.name ⟨s, false⟩] = false := by
  rw [isFreeName, Bool.and_eq_true, Bool.not_eq_true', List.any_eq_false] at h
  obtain ⟨hplain, hwords⟩ := h
  have hnone : forall ws : List String,
      (forall w, w ∈ ws -> w ∈ "enum" :: Parser.nonTypeWords ++ Parser.predefinedWords) ->
        ws.any (s == ·.toList) = false := by
    intro ws hws
    rw [List.any_eq_false]
    exact fun w hw => hwords w (hws w hw)
  have hreserved := hnone Parser.reservedWords (by decide)
  have hbinding := hnone ("enum" :: Parser.reservedWords) (by decide)
  have htype := hnone Parser.nonTypeWords (by decide)
  have hpredefined := hnone Parser.predefinedWords (by decide)
  have habstract := hnone ["abstract"] (by decide)
  refine ⟨?_, ?_, ?_, ?_, ?_, ?_⟩
  · rw [isIdentifier, hplain, hreserved]
    rfl
  · rw [isBindingName, hplain, hbinding]
    rfl
  · rw [TypeTree.isTypeWord, hplain, htype, Bool.not_false, Bool.or_true]
    rfl
  · rw [TypeTree.isGenericName, hplain, htype, hpredefined]
    rfl
  · exact hplain
  · rw [List.any_cons, List.any_nil, Bool.or_false] at habstract
    rw [Member.isAbstract, habstract]
    rfl

/-!
## Spellings
-/

namespace Outline

def requotedAll (ds : List (Bool × Outline)) : List (Bool × Outline) :=
  ds.map fun d => (d.1, d.2.requoted)

/-- The text spells declarations without comments, with any blanks where no row may end. -/
inductive Spells (ds : List (Bool × Outline)) (source : List Char) : Prop where
  | mk {ls : List Lexeme} {blank : List Char} (h : SpelledAll ds ls) (hlegible : Lexeme.Legible ls)
      (hplain : forall l, l ∈ ls -> l.gap.comments = []) (hblank : blank.all isGap = true)
      (hsource : Text.normalizeLines source = Lexeme.source ls ++ blank) : Spells ds source

variable {ds : List (Bool × Outline)} {ls : List Lexeme} {program : Program}

/-!
## Reading
-/

/-- The text of declarations in any layout is read as these declarations. -/
theorem parse?_of_spelled (h : SpelledAll ds ls) (hlegible : Lexeme.Legible ls)
    (hplain : forall l, l ∈ ls -> l.gap.comments = []) {blank : List Char}
    (hblank : blank.all isGap = true) :
    exists program, Program.parse? (Lexeme.source ls ++ blank) = some program /\
      program.shape = shapes ds := by
  have hzero : '\x00' ∉ Lexeme.source ls ++ blank := by
    have hnul := Lexeme.nul_not_mem_of_legible hlegible hplain
    rw [List.mem_append, not_or]
    refine ⟨hnul, ?_⟩
    intro hmem
    cases List.all_eq_true.mp hblank _ hmem
  have hnone := @Parser.run_items_end (Lexeme.endToken (Lexeme.rows ls) (.ofBlank blank)) rfl rfl
    (2 * ls.length + 2)
  obtain ⟨chunks, hmany, harrange⟩ := Parser.run_declarations_spelled
    (Parser.readsBodies_upTo (2 * ls.length + 1)) h (by omega) hnone
  have hparse := @Program.parse?_of_run ls hlegible (.ofBlank blank) hblank hzero chunks hmany
  refine ⟨_, hparse, ?_⟩
  have hcomments : forall row,
      (Piece.commentItems row (Gap.ofBlank blank).comments : Program) = [] := fun _ => rfl
  rw [Program.shape, hcomments, List.append_nil, harrange]

theorem Spelled.visible {o : Outline} (h : o.Spelled ls) :
    Text.allBlank (Lexeme.source ls) = false := by
  have hword : forall (w : String) (gap : Gap) (ls : List Lexeme),
      w ∈ ["export", "interface", "type", "const"] ->
        Text.allBlank (Lexeme.source (.keyword gap w :: ls)) = false := by
    have hvisible : forall w, w ∈ ["export", "interface", "type", "const"] ->
        Text.allBlank w.toList = false := by decide
    intro w gap ls hw
    have hall := hvisible w hw
    rw [Text.allBlank] at hall
    rw [Text.allBlank, Lexeme.source_cons, List.all_append, List.all_append, Lexeme.keyword_text,
      hall, Bool.and_false, Bool.false_and]
  cases h with
  | exported b _ _ _ => exact hword "export" _ _ (by decide)
  | @plain b b' name body ls hb h =>
      refine hword body.keyword _ _ ?_
      cases body <;> simp [Body.keyword]

theorem eq_nil_of_allBlank (h : SpelledAll ds ls) (hblank : Text.allBlank (Lexeme.source ls) = true) :
    ds = [] := by
  cases h with
  | nil => rfl
  | cons hfirst =>
      rw [Text.allBlank, Lexeme.source_append, List.all_append, Bool.and_eq_true] at hblank
      have hvisible := hfirst.visible
      rw [Text.allBlank, hblank.left] at hvisible
      cases hvisible

theorem eq_nil_of_shape (h : program.shape = shapes []) : program = [] :=
  Item.arrange_eq_nil.mp (List.map_eq_nil_iff.mp h)

theorem Spells.format_eq [Recovery] {source : List Char} (h : Spells ds source) (o : FormatOptions) :
    exists program, Program.parse? (Text.normalizeLines source) = some program /\
      program.shape = shapes ds /\
      format o source =
        if o.canIndent (program.print o.printWidth) then
          .ok (o.finish source (program.print o.printWidth))
        else .error .panic := by
  obtain ⟨h, hlegible, hplain, hblank, hsource⟩ := h
  obtain ⟨program, hparse, hshape⟩ := parse?_of_spelled h hlegible hplain hblank
  rw [← hsource] at hparse
  refine ⟨program, hparse, hshape, ?_⟩
  cases hall : Text.allBlank (Text.normalizeLines source) with
  | false => exact format_of_parse hall hparse
  | true =>
      rw [hsource, Text.allBlank, List.all_append, Bool.and_eq_true] at hall
      have hnil := eq_nil_of_allBlank h hall.left
      rw [hnil] at hshape
      rw [format_of_blank (by rw [hsource, Text.allBlank, List.all_append, hall.left, hall.right]; rfl),
        eq_nil_of_shape hshape]
      exact congrArg Except.ok (finish_nil o source).symm

/-!
## Requoted programs
-/

theorem shape_requoted_program (h : program.shape = shapes ds) :
    program.requoted.shape = shapes (requotedAll ds) := by
  have hpieces : forall (ps : List (Piece Statement)) (ds : List (Bool × Outline)),
      ps.map (Piece.map Statement.shape) = shapes ds ->
        (ps.map (Piece.map Statement.requoted)).map (Piece.map Statement.shape) =
          shapes (requotedAll ds) := by
    intro ps
    induction ps with
    | nil =>
        intro ds hds
        cases ds with
        | nil => rfl
        | cons d ds => cases hds
    | cons p ps ih =>
        intro ds hds
        cases ds with
        | nil => cases hds
        | cons d ds =>
            rw [shapes, List.map_cons, List.map_cons, List.cons.injEq] at hds
            have hmore := ih ds hds.right
            cases p with
            | node apart s =>
                rw [Piece.map, Piece.node.injEq] at hds
                rw [List.map_cons, List.map_cons, hmore, Piece.map, Piece.map,
                  shape_requoted hds.left.right, hds.left.left]
                rfl
            | _ => cases hds.left
  rw [Program.shape, Program.requoted, Item.arrange_map]
  exact hpieces _ _ h

theorem SpelledAll.canonical (h : SpelledAll ds ls) (hshape : program.shape = shapes (requotedAll ds))
    (printWidth : Nat) : program.Canonical printWidth := by
  have hds : forall d, d ∈ ds -> exists ls, d.2.Spelled ls := by
    intro d hd
    cases h with
    | nil => cases hd
    | cons hfirst hmore =>
        rcases List.mem_cons.mp hd with rfl | hmem
        · exact ⟨_, hfirst⟩
        · obtain ⟨n, hn, rfl⟩ := List.mem_map.mp hmem
          exact ⟨_, hmore n hn⟩
  constructor
  · intro s hs
    have hmem := List.mem_map_of_mem (f := Statement.shape) hs
    rw [← Piece.nodes_map, ← Program.shape, hshape, shapes, requotedAll, List.map_map,
      Function.comp_def, Piece.nodes_map_nodes, List.mem_map] at hmem
    obtain ⟨d, hd, heq⟩ := hmem
    obtain ⟨ls, hspelled⟩ := hds d hd
    exact hspelled.canonical heq.symm printWidth
  · refine Piece.areSound_of_nodes ?_
    intro p hp
    have hmem := List.mem_map_of_mem (f := Piece.map Statement.shape) hp
    rw [← Program.shape, hshape, shapes, List.mem_map] at hmem
    obtain ⟨d, -, heq⟩ := hmem
    cases p with
    | node apart s => exact ⟨apart, s, rfl⟩
    | _ => cases heq

end Outline

end TypeScript

/-!
## Formatting
-/

open Outline

variable {o : FormatOptions} {ds es : List (Bool × Outline)} {source other : List Char}

theorem finish_of_not_auto (h : o.endOfLine ≠ .auto) (source other : List Char)
    (lines : List Line) : o.finish source lines = o.finish other lines := by
  rw [FormatOptions.finish, FormatOptions.finish]
  cases heol : o.endOfLine with
  | auto => exact absurd heol h
  | _ => rfl

/-- All texts that spell the same declarations up to the quotes of their literals, in any
layout, are formatted to one text.  That text is formatted to itself and read as these
declarations with their literals between double quotes. -/
theorem format_of_spells [Recovery] (heol : o.endOfLine ≠ .auto) (hsource : Spells ds source)
    (hother : Spells es other) (hsame : requotedAll ds = requotedAll es) :
    format o source = format o other /\
      (o.tabWidth ≤ FormatOptions.longestText -> exists text, format o source = .ok text) /\
      forall text, format o source = .ok text -> format o text = .ok text /\
        exists program read, Program.parse? (Text.normalizeLines source) = some program /\
          program.shape = shapes ds /\
          Program.parse? (Text.normalizeLines text) = some read /\
          read.shape = shapes (requotedAll ds) := by
  obtain ⟨program, hparse, hshape, hformat⟩ := hsource.format_eq o
  obtain ⟨program', hparse', hshape', hformat'⟩ := hother.format_eq o
  have hrequoted := shape_requoted_program hshape
  have hprint : program.print o.printWidth = program'.print o.printWidth := by
    rw [← Program.print_requoted, ← Program.print_requoted o.printWidth program']
    refine Program.print_of_shape ?_ _
    rw [hrequoted, hsame, shape_requoted_program hshape']
  refine ⟨?_, ?_, ?_⟩
  · rw [hformat, hformat', hprint, finish_of_not_auto heol source other]
  · intro htab
    rw [hformat, if_pos (FormatOptions.canIndent_print htab _ _)]
    exact ⟨_, rfl⟩
  · intro text htext
    rw [hformat] at htext
    split at htext
    · rename_i hindent
      cases htext
      by_cases hne : program = []
      · have hnil : o.finish source (program.print o.printWidth) = [] := by
          rw [hne]
          exact finish_nil o source
        have hempty : Program.parse? (Text.normalizeLines []) = some [] := rfl
        rw [hnil]
        refine ⟨format_nil o, program, [], hparse, hshape, hempty, ?_⟩
        rw [← hrequoted, hne]
        rfl
      · have hne' := mt Program.requoted_eq_nil.mp hne
        obtain ⟨h, -⟩ := hsource
        have hcanonical := h.canonical hrequoted o.printWidth
        rw [← Program.print_requoted] at hindent ⊢
        refine ⟨format_finish hcanonical hne' hindent source, program, _, hparse, hshape,
          parse?_finish hcanonical hne' source, ?_⟩
        rw [Program.shape_located hcanonical, hrequoted]
    · cases htext

section Sample

variable (quote : Char) (b : List Char) (closing comma : List Lexeme)

/-- Two declarations whose literals stand between quotes of one kind. -/
def sampleOutlines : List (Bool × Outline) :=
  [(false, ⟨false, "N".toList,
      .interface [(false, ⟨true, ⟨[quote, 'k', quote], true⟩, true, .text "T".toList⟩)]⟩),
    (true, ⟨true, "E".toList, .object true [⟨⟨"k".toList, false⟩, [quote, 'v', quote]⟩]⟩)]

/-- Their lexemes, with the same blanks at most places where blanks may differ. -/
def sampleLexemes : List Lexeme :=
  [.keyword (.ofBlank []) "interface", .word (.ofBlank [' ']) "N".toList, .mark [' '] '\x7b',
      .keyword (.ofBlank b) "readonly", .string (.ofBlank [' ']) [quote, 'k', quote], .mark [] '?',
      .mark [] ':', .word (.ofBlank b) "T".toList] ++ closing ++
    [.mark b '\x7d', .keyword (.ofBlank "\n\n".toList) "export", .keyword (.ofBlank [' ']) "const",
      .word (.ofBlank [' ']) "E".toList, .mark [' '] '=', .mark b '\x7b',
      .word (.ofBlank b) "k".toList, .mark [] ':', .string (.ofBlank b) [quote, 'v', quote]] ++ comma ++
    [.mark b '\x7d', .keyword (.ofBlank [' ']) "as", .keyword (.ofBlank [' ']) "const", .mark [] ';']

variable {quote b closing comma}

theorem spelledAll_sample (hquote : quote ∈ ['"', '\''])
    (hclosing : closing = [] \/ Signature.IsSeparator closing)
    (hcomma : Lexeme.IsOptional ',' comma) :
    SpelledAll (sampleOutlines quote) (sampleLexemes quote b closing comma) := by
  have hliterals : isLiteral [quote, 'k', quote] = true /\ isLiteral [quote, 'v', quote] = true := by
    simp only [List.mem_cons, List.not_mem_nil, or_false] at hquote
    rcases hquote with rfl | rfl <;> exact ⟨by decide, by decide⟩
  have hnone : isRowBlank [] = true := rfl
  have hspace : isRowBlank [' '] = true := rfl
  have hmembers : Signature.SpelledAll _ _ :=
    @Signature.SpelledAll.cons ⟨true, ⟨[quote, 'k', quote], true⟩, true, .text "T".toList⟩ _ closing []
      (.readonly b hspace hliterals.left (.optional hnone (.required hnone (.word b (by decide)))))
      (by simp) (by simp) (by simp) hclosing
  have hentries : Pairing.SpelledAll _ _ :=
    @Pairing.SpelledAll.cons ⟨⟨"k".toList, false⟩, [quote, 'v', quote]⟩ _ comma []
      (.mk b [] b (by decide) hliterals.right) (by simp) hcomma
  have hobject : Body.Spelled "E".toList (.object true _) _ :=
    .object [' '] [] (by decide) (.frozen hspace [' '] (.object b b hentries))
  have hall : SpelledAll (sampleOutlines quote) _ :=
    @SpelledAll.cons _ _ [⟨[], true, _, _⟩]
      (.plain [] hspace (.interface [' '] b (by decide) hmembers))
      (List.forall_mem_singleton.mpr (.exported "\n\n".toList hspace hspace hobject))
      (List.forall_mem_singleton.mpr rfl) (List.forall_mem_singleton.mpr rfl)
  simpa [sampleLexemes, PropertyName.lexeme, Lexeme.leaf, Neighbor.lexemesOf, Body.keyword, isDigit]
    using hall

end Sample

def denseSource : List Char :=
  "interface N \x7breadonly 'k'?:T\x7d\n\nexport const E =\x7bk:'v',\x7d as const;".toList

def wideSource : List Char :=
  "interface N \x7b\n  readonly \"k\"?:\n  T,\n  \x7d\n\nexport const E =\n  \x7b\n  k:\n  \"v\"\n  \x7d as const;\n".toList

theorem spells_dense : Spells (sampleOutlines '\'') denseSource :=
  @Spells.mk _ _ (sampleLexemes '\'' [] [] [.mark [] ',']) []
    (spelledAll_sample (by decide) (.inl rfl) (.inr ⟨[], rfl⟩)) (by decide +kernel)
    (by decide +kernel) rfl (by decide +kernel)

theorem spells_wide : Spells (sampleOutlines '"') wideSource :=
  @Spells.mk _ _ (sampleLexemes '"' "\n  ".toList [.mark [] ','] []) "\n".toList
    (spelledAll_sample (by decide) (.inr ⟨[], ',', by decide, rfl⟩) (.inl rfl)) (by decide +kernel)
    (by decide +kernel) rfl (by decide +kernel)

/-- Both texts have one formatted text. -/
theorem format_of_spells_sample :
    exists text, format { endOfLine := .lf } denseSource = .ok text /\
      format { endOfLine := .lf } wideSource = .ok text /\
      format { endOfLine := .lf } text = .ok text := by
  obtain ⟨hsame, hok, hagain⟩ := @format_of_spells { endOfLine := .lf } _ _ _ _ _ (by decide)
    spells_dense spells_wide rfl
  obtain ⟨text, htext⟩ := hok (by decide)
  exact ⟨text, htext, hsame ▸ htext, (hagain text htext).left⟩

end SchemaTypes
