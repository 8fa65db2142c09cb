import SchemaTypes.Proofs.Format.LineEndings
import SchemaTypes.Proofs.Text.Word
import SchemaTypes.Proofs.TypeScript.Copying.Blanks

/-!
# Layout of formatted sources

Which items stand in the formatted text, in which order, and what stands between two of
them.
-/

namespace SchemaTypes

/-!
## Visible ends
-/

namespace Text

def EndsVisible (s : List Char) : Prop :=
  exists front c, s = front ++ [c] /\ isBlank c = false

variable {s t : List Char}

theorem EndsVisible.append (h : EndsVisible t) (s : List Char) : EndsVisible (s ++ t) := by
  obtain ⟨front, c, rfl, hc⟩ := h
  exact ⟨s ++ front, c, (List.append_assoc s front [c]).symm, hc⟩

theorem endsVisible_concat {c : Char} (hc : isBlank c = false) (s : List Char) :
    EndsVisible (s ++ [c]) :=
  ⟨s, c, rfl, hc⟩

theorem endsVisible_trim (h : allBlank s = false) : EndsVisible (trim s) := by
  rcases List.eq_nil_or_concat (trim s) with hnil | ⟨front, c, hlast⟩
  · obtain ⟨before, after, hs, hbefore, hafter⟩ := exists_padded_trim s
    rw [hnil, List.append_nil] at hs
    rw [hs, allBlank, List.all_append, ← allBlank, ← allBlank, hbefore, hafter] at h
    cases h
  · have hc := getLast_trim s
    rw [hlast, List.concat_eq_append, List.getLast?_append] at hc
    rw [hlast, List.concat_eq_append]
    exact endsVisible_concat (by simpa using hc) front

end Text

namespace TypeScript

/-- The comment loses nothing but the blanks behind it when it is trimmed. -/
def Comment.IsKept (c : Comment) : Prop :=
  Text.EndsVisible (Text.trim c.text) /\
    exists blanks, c.text = Text.trim c.text ++ blanks /\ Text.allBlank blanks = true

theorem Comment.isKept_of_slash {c : Comment} (h : exists more, c.text = '/' :: more) : c.IsKept := by
  obtain ⟨more, hslash⟩ := h
  have hvisible : Text.allBlank c.text = false := by
    rw [hslash, Text.allBlank, List.all_cons]
    rfl
  obtain ⟨before, after, hs, hbefore, hafter⟩ := Text.exists_padded_trim c.text
  refine ⟨Text.endsVisible_trim hvisible, after, ?_, hafter⟩
  cases before with
  | nil => exact hs
  | cons d before =>
      rw [hslash, List.cons_append, List.cons_append, List.cons.injEq] at hs
      rw [← hs.left] at hbefore
      cases hbefore

/-!
## Items one below the other
-/

namespace Item

variable {α : Type}

def own (print : α -> List Char) : Item α -> List Char
  | comment c => Text.trim c.text
  | node _ _ a => print a

/-- The start of a line on a later place than the row `last`, below an empty line where the
source left rows free in front of `row`. -/
def newLine (tabWidth depth last row : Nat) : List Char :=
  (if last + 1 < row then ['\n'] else []) ++ Line.margin tabWidth depth

def separator (tabWidth depth last : Nat) : Item α -> List Char
  | comment c => if c.row = last then [' '] else newLine tabWidth depth last c.row
  | node row _ _ => newLine tabWidth depth last row

def spellBehind (tabWidth depth : Nat) (print : α -> List Char) (last : Nat) :
    List (Item α) -> List Char
  | [] => []
  | item :: rest =>
      item.separator tabWidth depth last ++ item.own print ++
        spellBehind tabWidth depth print item.endRow rest

/-- The text of items, the first of them at the start of a line. -/
def spell (tabWidth depth : Nat) (print : α -> List Char) : List (Item α) -> List Char
  | [] => []
  | first :: rest =>
      List.replicate (tabWidth * depth) ' ' ++ first.own print ++
        spellBehind tabWidth depth print first.endRow rest

variable {tabWidth depth : Nat} {print : α -> List Char}

theorem textOf_arrange (last : Nat) (items : List (Item α)) :
    Piece.textOf (Line.margin tabWidth depth) print (Line.margin tabWidth depth)
        (arrange (some last) items) =
      spellBehind tabWidth depth print last items := by
  induction items generalizing last with
  | nil => rfl
  | cons item rest ih =>
      have hlead : forall row, Piece.lead (Line.margin tabWidth depth) (isApart (some last) row) =
          newLine tabWidth depth last row := by
        intro row
        by_cases hfree : last + 1 < row <;> simp [isApart, newLine, hfree, Piece.lead]
      rw [arrange, spellBehind, ← ih]
      cases item with
      | comment c =>
          by_cases hrow : c.row = last
          · simp [piece, hrow, Piece.textOf, separator, own]
          · have hne : last ≠ c.row := fun heq => hrow heq.symm
            simp [piece, hrow, hne, Piece.textOf, separator, own, hlead]
      | node row endRow a => simp [piece, Piece.textOf, separator, own, hlead]

theorem textOf_arrange_none (first : Item α) (rest : List (Item α)) :
    Piece.textOf (Line.margin tabWidth depth) print (Line.margin tabWidth depth)
        (arrange none (first :: rest)) =
      '\n' :: spell tabWidth depth print (first :: rest) := by
  rw [arrange, spell, ← textOf_arrange]
  cases first with
  | comment c => simp [piece, Piece.textOf, Piece.lead, isApart, own, Line.margin]
  | node row endRow a => simp [piece, Piece.textOf, Piece.lead, isApart, own, Line.margin]

theorem behind_layout {lines : α -> List Line} {items : List (Item α)}
    (h : forall a, Line.behind tabWidth (lines a) = Line.margin tabWidth depth ++ print a)
    (hne : items ≠ []) :
    Line.behind tabWidth (layout depth lines items) = '\n' :: spell tabWidth depth print items := by
  rw [layout_eq, Piece.behind_set (fun a _ => h a) (opens_arrange items)]
  cases items with
  | nil => exact absurd rfl hne
  | cons first rest => exact textOf_arrange_none first rest

theorem endsVisible_spellBehind {items : List (Item α)}
    (h : forall item, item ∈ items -> Text.EndsVisible (item.own print)) (last : Nat) {s : List Char}
    (hs : Text.EndsVisible s) :
    Text.EndsVisible (s ++ spellBehind tabWidth depth print last items) := by
  induction items generalizing last s with
  | nil =>
      rw [spellBehind, List.append_nil]
      exact hs
  | cons item rest ih =>
      obtain ⟨hitem, hrest⟩ := List.forall_mem_cons.mp h
      rw [spellBehind, ← List.append_assoc]
      exact ih hrest _ ((hitem.append _).append s)

theorem endsVisible_spell (tabWidth depth : Nat) {items : List (Item α)}
    (h : forall item, item ∈ items -> Text.EndsVisible (item.own print)) (hne : items ≠ []) :
    Text.EndsVisible (spell tabWidth depth print items) := by
  cases items with
  | nil => exact absurd rfl hne
  | cons first rest =>
      obtain ⟨hfirst, hrest⟩ := List.forall_mem_cons.mp h
      exact endsVisible_spellBehind hrest _ (hfirst.append _)

end Item

/-!
## Statements and members
-/

namespace Line

theorem margin_zero (tabWidth : Nat) : margin tabWidth 0 = ['\n'] := by
  simp [margin]

theorem before_ne_nil (depth : Nat) (s : List Char) (ls : List Line) : before depth s ls ≠ [] := by
  cases ls <;> simp [before, glue]

theorem endsVisible_behind (ls : List Line) (tabWidth : Nat) {l : Line}
    (h : Text.EndsVisible l.text) : Text.EndsVisible (behind tabWidth (ls ++ [l])) := by
  rw [behind_append, behind_cons, behind_nil, List.append_nil]
  exact (h.append _).append _

/-- Lines are a line feed and their text, the last line end apart. -/
theorem behind_eq_cons {ls : List Line} (h : ls ≠ []) (tabWidth : Nat) :
    behind tabWidth ls = '\n' :: (renderAll tabWidth ls).dropLast := by
  have hne : renderAll tabWidth ls ≠ [] := by
    cases ls with
    | nil => exact absurd rfl h
    | cons l ls => simp [renderAll, render]
  rw [← List.dropLast_cons_of_ne_nil hne, cons_renderAll, List.dropLast_concat]

end Line

namespace Member

def printed (m : Member) : List Char :=
  m.print ++ [';']

end Member

namespace Statement

variable {printWidth tabWidth : Nat}

/-- The text of a statement, the end of its last line apart. -/
def printed (printWidth tabWidth : Nat) (s : Statement) : List Char :=
  (Line.renderAll tabWidth (s.print printWidth)).dropLast

theorem print_ne_nil (printWidth : Nat) (s : Statement) : s.print printWidth ≠ [] := by
  cases s with
  | interface exported name parameters parents exact members => cases members <;> simp [print]
  | typeAlias exported name parameters value =>
      cases value with
      | union members =>
          rw [print]
          split
          · simp
          · exact Line.append_ne_nil (List.cons_ne_nil _ _) _
      | _ => simp [print]
  | lexical exported keyword declarators =>
      rw [print]
      split
      · simp
      · exact Line.append_ne_nil (Line.before_ne_nil _ _ _) _
  | text s => simp [print]

theorem behind_print (printWidth tabWidth : Nat) (s : Statement) :
    Line.behind tabWidth (s.print printWidth) = '\n' :: s.printed printWidth tabWidth :=
  Line.behind_eq_cons (print_ne_nil printWidth s) tabWidth

def interfaceHeader (exported : Option Export) (name parameters : List Char)
    (parents : Option (List Char)) : List Char :=
  lead exported ++ "interface ".toList ++ name ++ Text.collapse parameters ++
    parents.elim [] (' ' :: Text.collapse ·)

/-- The members of an interface stand between its braces as the items of a program stand in
it, one level deeper. -/
theorem printed_interface (exported : Option Export) (name parameters : List Char)
    (parents : Option (List Char)) (exact : Bool) {members : List (Item Member)} (hne : members ≠ []) :
    (interface exported name parameters parents exact members).printed printWidth tabWidth =
      interfaceHeader exported name parameters parents ++ " \x7b\n".toList ++
        Item.spell tabWidth 1 Member.printed members ++ "\n\x7d".toList := by
  have hmembers : Line.behind tabWidth (Item.layout 1 (fun m => [⟨1, m.print ++ [';']⟩]) members) =
      '\n' :: Item.spell tabWidth 1 Member.printed members := by
    refine Item.behind_layout (fun m => ?_) hne
    simp [Member.printed]
  have hbehind := behind_print printWidth tabWidth
    (interface exported name parameters parents exact members)
  have hprint : (interface exported name parameters parents exact members).print printWidth =
      ⟨0, interfaceHeader exported name parameters parents ++ " \x7b".toList⟩ ::
        Item.layout 1 (fun m => [⟨1, m.print ++ [';']⟩]) members ++ [⟨0, ['\x7d']⟩] := by
    cases members with
    | nil => exact absurd rfl hne
    | cons first rest => rfl
  rw [hprint, Line.behind_append, Line.behind_cons, hmembers, Line.margin_zero] at hbehind
  have htail := (List.cons.inj hbehind).right
  rw [← htail]
  simp [Line.margin_zero]

theorem printed_interface_nil (exported : Option Export) (name parameters : List Char)
    (parents : Option (List Char)) (exact : Bool) :
    (interface exported name parameters parents exact []).printed printWidth tabWidth =
      interfaceHeader exported name parameters parents ++ " \x7b\x7d".toList := by
  have hbehind := behind_print printWidth tabWidth
    (interface exported name parameters parents exact [])
  have hprint : (interface exported name parameters parents exact []).print printWidth =
      [⟨0, interfaceHeader exported name parameters parents ++ " \x7b\x7d".toList⟩] := rfl
  rw [hprint, Line.behind_cons, Line.margin_zero, Line.behind_nil, List.append_nil] at hbehind
  exact (List.cons.inj hbehind).right.symm

theorem endsVisible_of_behind {s : Statement}
    (h : Text.EndsVisible (Line.behind tabWidth (s.print printWidth))) :
    Text.EndsVisible (s.printed printWidth tabWidth) := by
  obtain ⟨front, c, hbehind, hc⟩ := h
  rw [behind_print] at hbehind
  cases front with
  | nil =>
      rw [List.nil_append, List.cons.injEq] at hbehind
      rw [← hbehind.left] at hc
      cases hc
  | cons d front =>
      rw [(List.cons.inj hbehind).right]
      exact Text.endsVisible_concat hc front

theorem endsVisible_printed (printWidth tabWidth : Nat) {s : Statement}
    (h : forall text, s = .text text -> Text.allBlank text = false) :
    Text.EndsVisible (s.printed printWidth tabWidth) := by
  have hsemicolon : forall front : List Char, Text.EndsVisible (front ++ [';']) :=
    Text.endsVisible_concat (by decide)
  have hbrace : forall front : List Char, Text.EndsVisible (front ++ ['\x7d']) :=
    Text.endsVisible_concat (by decide)
  apply endsVisible_of_behind
  cases s with
  | interface exported name parameters parents exact members =>
      cases members with
      | nil =>
          refine Line.endsVisible_behind [] tabWidth ?_
          exact Text.EndsVisible.append (hbrace [' ', '\x7b']) _
      | cons first rest => exact Line.endsVisible_behind (_ :: _) tabWidth (hbrace [])
  | typeAlias exported name parameters value =>
      have hflat : Text.EndsVisible
          (Line.behind tabWidth [⟨0, flatAlias exported name parameters value⟩]) :=
        Line.endsVisible_behind [] tabWidth (hsemicolon _)
      cases value with
      | union members =>
          rw [print]
          split
          · exact hflat
          · rw [Line.behind_add tabWidth (List.cons_ne_nil _ _)]
            exact hsemicolon _
      | _ => exact hflat
  | lexical exported keyword declarators =>
      rw [print]
      split
      · exact Line.endsVisible_behind [] tabWidth (hsemicolon _)
      · rw [Line.behind_add tabWidth (Line.before_ne_nil _ _ _)]
        exact hsemicolon _
  | text s => exact Line.endsVisible_behind [] tabWidth (Text.endsVisible_trim (h s rfl))

end Statement

/-!
## Programs
-/

namespace Program

def ofSource (source : List Char) : Program :=
  (parse? (Text.normalizeLines source)).getD []

/-- No statement that is kept as text is blank. -/
def isVisible (program : Program) : Bool :=
  program.all fun
    | .node _ _ (.text s) => !Text.allBlank s
    | _ => true

theorem not_allBlank_of_isVisible {program : Program} (h : program.isVisible = true)
    {row endRow : Nat} {s : List Char} (hmem : .node row endRow (.text s) ∈ program) :
    Text.allBlank s = false := by
  simpa using List.all_eq_true.mp h _ hmem

/-- The text of a program with its last line ended. -/
def spell (printWidth tabWidth : Nat) (program : Program) : List Char :=
  match program with
  | [] => []
  | items => Item.spell tabWidth 0 (Statement.printed printWidth tabWidth) items ++ ['\n']

theorem renderAll_eq_spell (printWidth tabWidth : Nat) (program : Program) :
    Line.renderAll tabWidth (program.print printWidth) = program.spell printWidth tabWidth := by
  cases program with
  | nil => rfl
  | cons first rest =>
      have hlines : Line.behind tabWidth (print printWidth (first :: rest)) =
          '\n' :: Item.spell tabWidth 0 (Statement.printed printWidth tabWidth) (first :: rest) := by
        refine Item.behind_layout (fun s => ?_) (List.cons_ne_nil first rest)
        rw [Statement.behind_print, Line.margin_zero, List.singleton_append]
      have hcons := Line.cons_renderAll tabWidth (print printWidth (first :: rest))
      rw [hlines, List.cons_append] at hcons
      exact (List.cons.inj hcons).right

theorem ofSource_of_blank {source : List Char} (hblank : Text.allBlank (Text.normalizeLines source) = true)
    (hvisible : (ofSource source).isVisible = true) : ofSource source = [] := by
  rw [ofSource] at hvisible ⊢
  cases hparse : parse? (Text.normalizeLines source) with
  | none => rfl
  | some program =>
      rw [hparse, Option.getD_some] at hvisible
      rw [Option.getD_some, List.eq_nil_iff_forall_not_mem]
      intro item hitem
      obtain ⟨row, endRow, s, rfl, hs⟩ := exists_blank_of_parse hblank hparse hitem
      rw [not_allBlank_of_isVisible hvisible hitem] at hs
      cases hs

theorem isKept_of_mem {source : List Char} {c : Comment}
    (hc : c ∈ HasTexts.comments (ofSource source)) : c.IsKept := by
  rw [ofSource] at hc
  cases hparse : parse? (Text.normalizeLines source) with
  | none =>
      rw [hparse] at hc
      cases hc
  | some program =>
      rw [hparse] at hc
      have hholds := holds_of_parse (p := fun _ => True) hparse (fun _ _ => trivial)
      exact Comment.isKept_of_slash (hholds.comments c hc)

theorem isKept_of_item {source : List Char} {c : Comment} (hc : .comment c ∈ ofSource source) :
    c.IsKept :=
  isKept_of_mem (List.mem_flatMap.mpr ⟨_, hc, List.mem_singleton_self c⟩)

theorem isKept_of_member {source : List Char} {row endRow : Nat} {exported : Option Export}
    {name parameters : List Char} {parents : Option (List Char)} {exact : Bool}
    {members : List (Item Member)} {c : Comment}
    (hmem : .node row endRow (.interface exported name parameters parents exact members) ∈ ofSource source)
    (hc : .comment c ∈ members) : c.IsKept := by
  refine isKept_of_mem (List.mem_flatMap.mpr ⟨_, hmem, ?_⟩)
  exact List.mem_flatMap.mpr ⟨_, hc, List.mem_singleton_self c⟩

theorem endsVisible_item {source : List Char} (hvisible : (ofSource source).isVisible = true)
    (printWidth tabWidth : Nat) {item : Item Statement} (hitem : item ∈ ofSource source) :
    Text.EndsVisible (item.own (Statement.printed printWidth tabWidth)) := by
  cases item with
  | comment c => exact (isKept_of_item hitem).left
  | node row endRow s =>
      refine Statement.endsVisible_printed printWidth tabWidth fun text heq => ?_
      rw [heq] at hitem
      exact not_allBlank_of_isVisible hvisible hitem

theorem spell_eq_nil_iff (printWidth tabWidth : Nat) (program : Program) :
    program.spell printWidth tabWidth = [] <-> program = [] := by
  cases program with
  | nil => exact ⟨fun _ => rfl, fun _ => rfl⟩
  | cons first rest => simp [spell]

end Program

end TypeScript

/-!
## Formatted text
-/

open TypeScript

variable {o : FormatOptions} {source t : List Char}

theorem exists_spell_of_format [Recovery] (h : format o source = .ok t)
    (hvisible : (Program.ofSource source).isVisible = true) :
    t = if o.endOfLine.isPair source then
      Text.withPairs ((Program.ofSource source).spell o.printWidth o.tabWidth)
    else (Program.ofSource source).spell o.printWidth o.tabWidth := by
  obtain ⟨hblank, rfl⟩ | ⟨program, hparse, _, rfl⟩ := of_format h
  · rw [Program.ofSource_of_blank hblank hvisible]
    split <;> rfl
  · rw [FormatOptions.finish, Program.renderAll_eq_spell, Text.carriageReturns_eq_withPairs,
      Program.ofSource, hparse, Option.getD_some]

/-- The formatted text of a source, before its line feeds are put in pairs, is made of the
items of the source, each once and in order. -/
theorem format_layout [Recovery] (h : format o source = .ok t)
    (hvisible : (Program.ofSource source).isVisible = true) :
    exists text,
      t = (if o.endOfLine.isPair source then Text.withPairs text else text) /\
      text = (Program.ofSource source).spell o.printWidth o.tabWidth /\
      (forall item, item ∈ Program.ofSource source ->
        Text.EndsVisible (item.own (Statement.printed o.printWidth o.tabWidth))) /\
      (forall c, .comment c ∈ Program.ofSource source -> c.IsKept) /\
      (forall row endRow exported name parameters parents exact members,
        .node row endRow (.interface exported name parameters parents exact members) ∈
            Program.ofSource source ->
          (forall item, item ∈ members -> Text.EndsVisible (item.own Member.printed)) /\
          (forall c, .comment c ∈ members -> c.IsKept) /\
          (Statement.interface exported name parameters parents exact members).printed o.printWidth
              o.tabWidth =
            Statement.interfaceHeader exported name parameters parents ++
              if members.isEmpty then " \x7b\x7d".toList
              else " \x7b\n".toList ++ Item.spell o.tabWidth 1 Member.printed members ++
                "\n\x7d".toList) /\
      (text = [] <-> Program.ofSource source = []) /\
      (text ≠ [] -> exists front c, text = front ++ [c, '\n'] /\ Text.isBlank c = false) := by
  have hitems : forall item, item ∈ Program.ofSource source ->
      Text.EndsVisible (item.own (Statement.printed o.printWidth o.tabWidth)) :=
    fun _ => Program.endsVisible_item hvisible o.printWidth o.tabWidth
  refine ⟨_, exists_spell_of_format h hvisible, rfl, hitems, fun c => Program.isKept_of_item, ?_,
    Program.spell_eq_nil_iff _ _ _, ?_⟩
  · intro row endRow exported name parameters parents exact members hmem
    refine ⟨fun item hitem => ?_, fun c => Program.isKept_of_member hmem, ?_⟩
    · cases item with
      | comment c => exact (Program.isKept_of_member hmem hitem).left
      | node row endRow m => exact Text.endsVisible_concat (by decide) _
    · cases members with
      | nil => exact Statement.printed_interface_nil exported name parameters parents exact
      | cons first rest =>
          rw [Statement.printed_interface _ _ _ _ _ (List.cons_ne_nil first rest)]
          simp
  · intro hne
    cases hprogram : Program.ofSource source with
    | nil =>
        rw [hprogram] at hne
        exact absurd rfl hne
    | cons first rest =>
        rw [hprogram] at hitems
        obtain ⟨front, c, hspell, hc⟩ := Item.endsVisible_spell o.tabWidth 0 hitems
          (List.cons_ne_nil first rest)
        refine ⟨front, c, ?_, hc⟩
        calc Program.spell o.printWidth o.tabWidth (first :: rest)
          _ = front ++ [c] ++ ['\n'] := congrArg (· ++ ['\n']) hspell
          _ = front ++ [c, '\n'] := List.append_assoc front [c] ['\n']

/-- An interface with a comment beside its member and one below it, and a statement below
the interface, with more rows left free than are kept. -/
def layoutSource : List Char :=
  "interface A \x7b\n  b: C // d\n\n\n  // e\n\x7d\n\n\nf();".toList

def layoutText : List Char :=
  "interface A \x7b\n  b: C; // d\n\n  // e\n\x7d\n\nf();\n".toList

theorem format_layoutSource : format {} layoutSource = .ok layoutText :=
  toOption_eq_some.mp (by decide +kernel)

theorem isVisible_layoutSource : (Program.ofSource layoutSource).isVisible = true := by
  decide +kernel

theorem format_layout_sample :
    exists text, layoutText = text /\ text = (Program.ofSource layoutSource).spell 100 2 /\
      exists front c, text = front ++ [c, '\n'] /\ Text.isBlank c = false := by
  obtain ⟨text, htext, hspell, _, _, _, _, hend⟩ := format_layout format_layoutSource isVisible_layoutSource
  have hsame : layoutText = text := htext
  refine ⟨text, hsame, hspell, hend ?_⟩
  rw [← hsame]
  decide

/-- A next-line character is a name to the grammar and a blank to the printer, so that a
statement of its own vanishes and leaves an empty line at the end. -/
theorem format_erases_blank_statement :
    (Program.ofSource "const a = 1;\n\u0085\n".toList).length = 2 /\
      (format {} "const a = 1;\n\u0085\n".toList).toOption = some "const a = 1;\n\n".toList /\
      ¬ exists front c, "const a = 1;\n\n".toList = front ++ [c, '\n'] /\ Text.isBlank c = false := by
  refine ⟨by decide +kernel, by decide +kernel, ?_⟩
  rintro ⟨front, c, heq, hc⟩
  have hlast := congrArg (fun s => s.dropLast.getLast?) heq
  simp at hlast
  rw [← hlast] at hc
  cases hc

end SchemaTypes
