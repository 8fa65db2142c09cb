import SchemaTypes.Format
import SchemaTypes.Proofs.Text.LineEndings
import SchemaTypes.Proofs.TypeScript.ProgramReading

/-!
# Formatted programs

The lines of a canonical program are a text that is read as that program, whatever line
endings it has, and formatting that text leaves it as it is.
-/

namespace SchemaTypes

open TypeScript

/-!
## Texts of canonical programs
-/

namespace TypeScript
namespace Program

variable {printWidth : Nat} {program : Program}

theorem normalizeLines_renderAll (h : program.Canonical printWidth) (hne : program ≠ [])
    (tabWidth : Nat) :
    Text.normalizeLines (Line.renderAll tabWidth (program.print printWidth)) =
      Line.renderAll tabWidth (program.print printWidth) := by
  have hfinal := Text.normalizeLines_of_isClean (Gap.isClean_of_reads (reads_final h)) []
  rw [List.append_nil] at hfinal
  rw [renderAll_print h hne, Lexeme.normalizeLines_source (apart_lexemes h tabWidth), hfinal]
  exact congrArg _ (List.append_nil _)

theorem feed_mem_renderAll (h : program.Canonical printWidth) (hne : program ≠ [])
    (tabWidth : Nat) : '\n' ∈ Line.renderAll tabWidth (program.print printWidth) := by
  rw [renderAll_print h hne, final, Gap.text]
  simp

theorem visible_of_isComment {s : List Char} (h : Piece.isComment s = true) :
    exists c more, s = c :: more /\ Text.isBlank c = false := by
  rw [Piece.isComment, Bool.and_eq_true, Bool.or_eq_true] at h
  have hslash : exists more, s = '/' :: more := by
    rcases h.left with hblock | hline
    · unfold Gap.isBlockComment at hblock
      split at hblock
      · exact ⟨_, rfl⟩
      · cases hblock
    · unfold Gap.isLineComment at hline
      split at hline
      · exact ⟨_, rfl⟩
      · cases hline
  obtain ⟨more, rfl⟩ := hslash
  exact ⟨'/', more, rfl, by decide⟩

theorem visible_written {s : Statement} (h : s.Canonical printWidth) (tabWidth : Nat) :
    exists c more, s.written printWidth tabWidth = c :: more /\ Text.isBlank c = false := by
  have hkeyword : exists c more, s.keyword = c :: more /\ Text.isBlank c = false := by
    cases h with
    | module h _ =>
        obtain ⟨w, hw, hkeyword, -⟩ := Statement.module_eq h printWidth tabWidth
        have hopens : forall w, w ∈ ["import", "export"] ->
            w.toList = w.toList.headD ' ' :: w.toList.tail /\
              Text.isBlank (w.toList.headD ' ') = false := by decide
        obtain ⟨hcons, hblank⟩ := hopens w hw
        exact ⟨_, _, hkeyword.trans hcons, hblank⟩
    | declared h =>
        cases h with
        | interface => exact ⟨'i', _, rfl, by decide⟩
        | typeAlias => exact ⟨'t', _, rfl, by decide⟩
        | lexical _ hkeyword _ _ =>
            rcases hkeyword with rfl | rfl
            · exact ⟨'c', _, rfl, by decide⟩
            · exact ⟨'l', _, rfl, by decide⟩
  obtain ⟨c, more, hc, hblank⟩ := hkeyword
  rw [Statement.written, Statement.lead, hc]
  split
  · exact ⟨'e', _, rfl, by decide⟩
  · exact ⟨c, _, rfl, hblank⟩

theorem visible_renderAll (h : program.Canonical printWidth) (hne : program ≠ [])
    (tabWidth : Nat) :
    exists c more, Line.renderAll tabWidth (program.print printWidth) = c :: more /\
      Text.isBlank c = false := by
  have hopens := Item.opens_arrange program
  have hfirst : exists c more, Piece.textOf ['\n'] (Statement.written printWidth tabWidth) []
      (Item.arrange none program) = c :: more /\ Text.isBlank c = false := by
    cases harrange : Item.arrange none program with
    | nil => exact absurd harrange (arrange_ne_nil hne)
    | cons p rest =>
        have hp := hopens p (by rw [harrange]; rfl)
        have hcomments := h.comments
        rw [harrange] at hcomments
        cases p with
        | beside s => cases hp
        | comment apart s =>
            cases apart with
            | true => cases hp
            | false =>
                simp only [Piece.areSound, Bool.and_eq_true] at hcomments
                obtain ⟨c, more, rfl, hc⟩ := visible_of_isComment hcomments.left.left
                exact ⟨c, _, rfl, hc⟩
        | node apart a =>
            cases apart with
            | true => cases hp
            | false =>
                have ha := h.statements a (by rw [harrange]; exact List.mem_cons_self)
                obtain ⟨c, more, hc, hblank⟩ := visible_written ha tabWidth
                rw [Piece.textOf, hc]
                exact ⟨c, _, rfl, hblank⟩
  obtain ⟨c, more, hc, hblank⟩ := hfirst
  refine ⟨c, more ++ ['\n'], ?_, hblank⟩
  rw [renderAll_eq_textOf h hne, hc]
  rfl

end Program
end TypeScript

/-!
## Depths of lines

No line of a program is indented by more than one level.
-/

namespace TypeScript

def Line.IsWithin (depth : Nat) (ls : List Line) : Prop :=
  forall l, l ∈ ls -> l.depth ≤ depth

namespace Line.IsWithin

variable {depth : Nat} {ls ms : List Line}

theorem nil (depth : Nat) : IsWithin depth [] := by
  intro l hl
  cases hl

theorem cons {l : Line} (hl : l.depth ≤ depth) (h : IsWithin depth ls) : IsWithin depth (l :: ls) := by
  intro m hm
  rcases List.mem_cons.mp hm with rfl | hmem
  · exact hl
  · exact h m hmem

theorem append (h : IsWithin depth ls) (hmore : IsWithin depth ms) : IsWithin depth (ls ++ ms) := by
  intro m hm
  rcases List.mem_append.mp hm with hmem | hmem
  · exact h m hmem
  · exact hmore m hmem

theorem map {α : Type} (as : List α) {f : α -> Line} (h : forall a, (f a).depth ≤ depth) :
    IsWithin depth (as.map f) := by
  intro m hm
  obtain ⟨a, -, rfl⟩ := List.mem_map.mp hm
  exact h a

theorem glue (h : IsWithin depth ls) (hmore : IsWithin depth ms) :
    IsWithin depth (Line.glue ls ms) := by
  fun_induction Line.glue ls ms with
  | case1 ms => exact hmore
  | case2 ls _ => exact h
  | case3 l m ms =>
      exact cons (h l List.mem_cons_self) fun n hn => hmore n (List.mem_cons_of_mem m hn)
  | case4 l ls ms _ _ ih =>
      exact cons (h l List.mem_cons_self) (ih (fun n hn => h n (List.mem_cons_of_mem l hn)) hmore)

theorem goOn (h : IsWithin depth ls) (s : List Char) : IsWithin depth (Line.append ls s) :=
  h.glue (cons (Nat.zero_le depth) (nil depth))

theorem before {start : Nat} (hstart : start ≤ depth) (s : List Char) (h : IsWithin depth ls) :
    IsWithin depth (Line.before start s ls) :=
  (cons hstart (nil depth)).glue h

theorem glueWith {α : Type} {lines : α -> List Line} (h : forall a, IsWithin depth (lines a))
    (separator : List Char) (as : List α) : IsWithin depth (Line.glueWith separator (as.map lines)) := by
  induction as with
  | nil => exact nil depth
  | cons a rest ih =>
      cases rest with
      | nil => exact h a
      | cons b rest => exact ((h a).goOn separator).glue ih

theorem layout {α : Type} {print : α -> List Line} {start : Nat} (hstart : start ≤ depth)
    (h : forall a, IsWithin depth (print a)) (items : List (Item α)) :
    IsWithin depth (Item.layout start print items) := by
  have hblank : forall apart : Bool, IsWithin depth (if apart then [Line.blank] else []) := by
    intro apart
    cases apart with
    | false => exact nil depth
    | true => exact cons (Nat.zero_le depth) (nil depth)
  have hset : forall (p : Piece α) (lines : List Line), IsWithin depth lines ->
      IsWithin depth (p.set start print lines) := by
    intro p lines hlines
    cases p with
    | beside s => exact hlines.goOn _
    | comment apart s => exact (hlines.append (hblank apart)).append (cons hstart (nil depth))
    | node apart a => exact (hlines.append (hblank apart)).append (h a)
  rw [Item.layout_eq]
  have hfold : forall (ps : List (Piece α)) (lines : List Line), IsWithin depth lines ->
      IsWithin depth (ps.foldl (Piece.set start print) lines) := by
    intro ps
    induction ps with
    | nil => exact fun _ hlines => hlines
    | cons p ps ih => exact fun lines hlines => ih _ (hset p lines hlines)
  exact hfold _ _ (nil depth)

end Line.IsWithin

open Line.IsWithin

theorem Expression.isWithin_printBroken (depth : Nat) (e : Expression) :
    Line.IsWithin (depth + 1) (e.printBroken depth) := by
  fun_induction Expression.printBroken depth e with
  | case1 => exact cons (Nat.le_succ depth) (nil _)
  | case2 entries =>
      have hentries : Line.IsWithin (depth + 1)
          ((Entry.printAll entries).map fun s => ⟨depth + 1, s ++ [',']⟩) := by
        refine map _ ?_
        exact fun _ => Nat.le_refl _
      have hlast : Line.IsWithin (depth + 1) [⟨depth, ['\x7d']⟩] :=
        cons (Nat.le_succ depth) (nil _)
      exact cons (Nat.le_succ depth) (hentries.append hlast)
  | case3 inner declared ih => exact (before (Nat.le_succ depth) _ ih).goOn _
  | case4 value target ih => exact ih.goOn _
  | case5 => exact cons (Nat.le_succ depth) (nil _)

theorem Declarator.isWithin_printBroken (depth : Nat) (d : Declarator) :
    Line.IsWithin (depth + 1) (d.printBroken depth) := by
  rw [printBroken]
  cases d.value with
  | none => exact cons (Nat.le_succ depth) (nil _)
  | some e => exact before (Nat.le_succ depth) _ (e.isWithin_printBroken depth)

theorem Statement.isWithin_print (printWidth : Nat) (s : Statement) :
    Line.IsWithin 1 (s.print printWidth) := by
  have hone : forall s, Line.IsWithin 1 [⟨0, s⟩] := fun s => cons (Nat.zero_le 1) (nil 1)
  cases s with
  | text s => exact hone _
  | interface exported name parameters parents closed members =>
      have hmember : forall m : Member, Line.IsWithin 1 [⟨1, m.print ++ [';']⟩] :=
        fun m => cons (Nat.le_refl 1) (nil 1)
      cases members with
      | nil => exact hone _
      | cons first rest =>
          exact cons (Nat.zero_le 1) ((layout (Nat.le_refl 1) hmember _).append (hone _))
  | typeAlias exported name parameters value =>
      cases value with
      | union members =>
          rw [print]
          split
          · exact hone _
          · refine (cons (Nat.zero_le 1) (map _ ?_)).goOn _
            exact fun _ => Nat.le_refl 1
      | _ => exact hone _
  | lexical exported keyword declarators =>
      rw [print]
      split
      · exact hone _
      · exact (before (Nat.zero_le 1) _ (glueWith (Declarator.isWithin_printBroken 0) _ _)).goOn _

end TypeScript

/-!
## The end of formatting
-/

namespace FormatOptions

theorem canIndent_print {o : FormatOptions} (h : o.tabWidth ≤ longestText) (program : Program)
    (printWidth : Nat) : o.canIndent (program.print printWidth) = true := by
  rw [canIndent, List.all_eq_true]
  intro l hl
  have hdepth := Line.IsWithin.layout (Nat.zero_le 1) (Statement.isWithin_print printWidth) program l hl
  have hproduct : o.tabWidth * l.depth ≤ o.tabWidth * 1 := Nat.mul_le_mul_left _ hdepth
  rw [decide_eq_true_eq]
  omega

/-- The text of lines, with the line endings that a source asks for. -/
def finish (o : FormatOptions) (source : List Char) (lines : List Line) : List Char :=
  if o.endOfLine.isPair source then Text.carriageReturns (Line.renderAll o.tabWidth lines)
  else Line.renderAll o.tabWidth lines

end FormatOptions

variable {o : FormatOptions} {source t : List Char} {program : Program}

theorem format_of_parse [Recovery] (hblank : Text.allBlank (Text.normalizeLines source) = false)
    (hparse : Program.parse? (Text.normalizeLines source) = some program) :
    format o source =
      if o.canIndent (program.print o.printWidth) then
        .ok (o.finish source (program.print o.printWidth))
      else .error .panic := by
  simp only [format, hblank, hparse, Bool.false_eq_true, if_false, FormatOptions.finish]

theorem format_of_blank [Recovery] (hblank : Text.allBlank (Text.normalizeLines source) = true) :
    format o source = .ok [] := by
  simp only [format, hblank, if_true]

theorem format_of_not_program [Recovery] (hblank : Text.allBlank (Text.normalizeLines source) = false)
    (hparse : Program.parse? (Text.normalizeLines source) = none) :
    format o source = .error (.failure (syntaxError (Text.normalizeLines source))) := by
  simp only [format, hblank, hparse, Bool.false_eq_true, if_false]

theorem format_of_nul [Recovery] (h : '\x00' ∈ source) :
    format o source = .error (.failure (syntaxError (Text.normalizeLines source))) := by
  have hplain : '\x00' ∈ Text.normalizeLines source := Text.mem_normalizeLines (by decide) h
  have hblank : Text.allBlank (Text.normalizeLines source) = false := by
    rw [Text.allBlank, List.all_eq_false]
    exact ⟨'\x00', hplain, by decide⟩
  have hparse : Program.parse? (Text.normalizeLines source) = none := by
    rw [Program.parse?, tokens?, if_pos (List.contains_iff_mem.mpr hplain)]
    rfl
  exact format_of_not_program hblank hparse

section

variable (h : program.Canonical o.printWidth) (hne : program ≠ [])

include h hne

theorem normalizeLines_finish (source : List Char) :
    Text.normalizeLines (o.finish source (program.print o.printWidth)) =
      Line.renderAll o.tabWidth (program.print o.printWidth) := by
  rw [FormatOptions.finish]
  split
  · exact Text.normalizeLines_carriageReturns _
  · exact Program.normalizeLines_renderAll h hne o.tabWidth

theorem isPair_finish (source : List Char) :
    o.endOfLine.isPair (o.finish source (program.print o.printWidth)) =
      o.endOfLine.isPair source := by
  have hpairs := Program.normalizeLines_renderAll h hne o.tabWidth
  have hfeed := Program.feed_mem_renderAll h hne o.tabWidth
  rw [FormatOptions.finish]
  cases heol : o.endOfLine with
  | lf => rfl
  | crlf => rfl
  | auto =>
      rw [EndOfLine.isPair, EndOfLine.isPair]
      cases Text.firstEndingIsPair source with
      | true => exact Text.firstEndingIsPair_carriageReturns hfeed
      | false => exact Text.firstEndingIsPair_of_normalized hpairs

theorem not_allBlank_renderAll (tabWidth : Nat) :
    Text.allBlank (Line.renderAll tabWidth (program.print o.printWidth)) = false := by
  obtain ⟨c, more, htext, hc⟩ := Program.visible_renderAll h hne tabWidth
  rw [htext, Text.allBlank, List.all_cons, hc, Bool.false_and]

theorem parse?_finish (source : List Char) :
    Program.parse? (Text.normalizeLines (o.finish source (program.print o.printWidth))) =
      some (program.located o.printWidth o.tabWidth) := by
  rw [normalizeLines_finish h hne, Program.parse?_renderAll h hne]

/-- The text of the lines of a canonical program is formatted to itself. -/
theorem format_finish [Recovery] (hindent : o.canIndent (program.print o.printWidth) = true)
    (source : List Char) :
    format o (o.finish source (program.print o.printWidth)) =
      .ok (o.finish source (program.print o.printWidth)) := by
  have hblank : Text.allBlank
      (Text.normalizeLines (o.finish source (program.print o.printWidth))) = false := by
    rw [normalizeLines_finish h hne, not_allBlank_renderAll h hne]
  rw [format_of_parse hblank (parse?_finish h hne source), Program.print_located h, if_pos hindent]
  rw [FormatOptions.finish, isPair_finish h hne source, ← FormatOptions.finish]

end

end SchemaTypes
