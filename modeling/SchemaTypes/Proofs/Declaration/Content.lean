import SchemaTypes.Generation
import SchemaTypes.Proofs.Declaration.Program
import SchemaTypes.Proofs.Format.Stability

/-!
# Generated texts

What is generated for a datamodel without clashes is the text of the lines on which it is
declared, whatever the options and however long its lists are.
-/

namespace SchemaTypes

open TypeScript

/-!
## Lines

Each line of a declaration is one line of the text, indented at most once.
-/

namespace Field

theorem feed_not_mem_memberText {f : Field}
    (h : TypeTree.isTypeWord (SchemaTypes.declaredType f.type) = true) : '\n' ∉ f.memberText := by
  have hkey := Declaration.feed_not_mem_memberKey f.name
  have htype := Declaration.feed_not_mem_of_isWordText (TypeTree.isWordText_of_isTypeWord h)
  rw [memberText, declaredType]
  cases f.isRequired <;> cases f.isList <;> simp [hkey, htype]

end Field

namespace Model

variable {m : Model}

theorem feed_not_mem_lines (hm : m.HasWords) {l : Line} (h : l ∈ m.lines) : '\n' ∉ l.text := by
  have hname := Declaration.feed_not_mem_of_isWordText (isWordText_of_isIdentifier hm.name)
  have hheader : '\n' ∉ m.header := by
    unfold header
    simp [hname]
  rw [lines] at h
  cases hemitted : m.emittedFields with
  | nil =>
      rw [hemitted] at h
      rw [List.mem_singleton.mp h]
      simp [hheader]
  | cons f rest =>
      rw [hemitted] at h
      simp only [List.cons_append, List.mem_cons, List.mem_append, List.mem_map, List.not_mem_nil,
        or_false] at h
      rcases h with rfl | ⟨g, hg, rfl⟩ | rfl
      · simp [hheader]
      · refine Field.feed_not_mem_memberText (hm.types g ?_)
        rw [hemitted]
        exact List.mem_cons.mpr hg
      · simp

end Model

namespace Enumeration

variable {e : Enumeration} {printWidth : Nat}

theorem feed_not_mem_declaration (v : EnumValue) : '\n' ∉ v.declaration := by
  have hkey := Declaration.feed_not_mem_entryKey v.name
  have hvalue : '\n' ∉ Declaration.literal v.name :=
    fun hmem => (Declaration.clean_literal hmem).left rfl
  rw [EnumValue.declaration]
  simp [hkey, hvalue]

theorem feed_not_mem_object (e : Enumeration) : '\n' ∉ e.object := by
  rw [object]
  cases e.values with
  | nil => simp
  | cons v rest =>
      simp only [List.map_cons, Text.joinWith_cons]
      simp [feed_not_mem_declaration]

theorem feed_not_mem_lines (he : e.HasWords) {l : Line} (h : l ∈ e.lines printWidth) :
    '\n' ∉ l.text := by
  have hname := Declaration.feed_not_mem_of_isWordText (isWordText_name he)
  have hheader : '\n' ∉ e.header := by
    unfold header
    simp [hname]
  have hflat : '\n' ∉ e.flatLine := by
    unfold flatLine
    simp [hheader, feed_not_mem_object]
  have halias : '\n' ∉ e.aliasLine := by
    unfold aliasLine
    simp [hname]
  rw [lines, List.mem_append, List.mem_singleton] at h
  rcases h with h | rfl
  · split at h
    · rw [List.mem_singleton.mp h]
      exact hflat
    · simp only [List.cons_append, List.mem_cons, List.mem_append, List.mem_map, List.not_mem_nil,
        or_false] at h
      rcases h with rfl | ⟨v, -, rfl⟩ | rfl
      · simp [hheader]
      · simp [feed_not_mem_declaration]
      · simp
  · exact halias

end Enumeration

/-!
## Texts
-/

namespace FormatOptions

/-- What ends a line of an output for a source without pairs. -/
def lineEnd (o : FormatOptions) : List Char :=
  match o.endOfLine with
  | .crlf => ['\r', '\n']
  | _ => ['\n']

theorem finish_of_normalized {o : FormatOptions} {source : List Char}
    (hsource : Text.normalizeLines source = source)
    {lines : List Line} (hlines : forall l, l ∈ lines -> '\n' ∉ l.text) :
    o.finish source lines =
      lines.flatMap fun l => List.replicate (o.tabWidth * l.depth) ' ' ++ l.text ++ o.lineEnd := by
  have hpairs : Text.carriageReturns (Line.renderAll o.tabWidth lines) =
      lines.flatMap fun l =>
        List.replicate (o.tabWidth * l.depth) ' ' ++ l.text ++ ['\r', '\n'] := by
    induction lines with
    | nil => rfl
    | cons l rest ih =>
        have hline : '\n' ∉ List.replicate (o.tabWidth * l.depth) ' ' ++ l.text := by
          simp [hlines l List.mem_cons_self]
        rw [Line.renderAll_cons, Text.carriageReturns_append,
          Text.carriageReturns_of_no_feed hline, Text.carriageReturns, if_pos rfl,
          ih fun m hm => hlines m (List.mem_cons_of_mem l hm), List.flatMap_cons]
        simp
  have hfeeds : Line.renderAll o.tabWidth lines =
      lines.flatMap fun l => List.replicate (o.tabWidth * l.depth) ' ' ++ l.text ++ ['\n'] :=
    rfl
  rw [finish]
  cases heol : o.endOfLine with
  | lf => simp [EndOfLine.isPair, lineEnd, heol, hfeeds]
  | crlf => simp [EndOfLine.isPair, lineEnd, heol, hpairs]
  | auto => simp [EndOfLine.isPair, lineEnd, heol, hfeeds, Text.firstEndingIsPair_of_normalized hsource]

end FormatOptions

/-!
## Texts with a NUL

A NUL in the name of a field or a value is found in the declaration.
-/

theorem Model.nul_mem_declaration {m : Model} {f : Field} (hf : f ∈ m.emittedFields)
    (hnul : '\x00' ∈ f.name) : '\x00' ∈ m.declaration := by
  have hfield : '\x00' ∈ f.declaration := by
    rw [Field.declaration]
    simp only [List.mem_append, Declaration.nul_mem_memberKey hnul, true_or, or_true]
  have hfields := Text.mem_joinWith ['\n'] (List.mem_map_of_mem hf) hfield
  rw [declaration]
  cases hemitted : m.emittedFields with
  | nil =>
      rw [hemitted] at hf
      cases hf
  | cons g rest =>
      rw [hemitted] at hfields
      simp only [List.mem_append]
      exact .inl (.inr hfields)

theorem Enumeration.nul_mem_declaration {e : Enumeration} {v : EnumValue} (hv : v ∈ e.values)
    (hnul : '\x00' ∈ v.name) : '\x00' ∈ e.declaration := by
  have hvalue : '\x00' ∈ v.declaration := by
    rw [EnumValue.declaration]
    simp only [List.mem_append, Declaration.nul_mem_literal hnul, or_true]
  have hvalues := Text.mem_joinWith ", ".toList (List.mem_map_of_mem hv) hvalue
  have hobject : '\x00' ∈ e.object := by
    rw [object]
    cases hentries : e.values with
    | nil =>
        rw [hentries] at hv
        cases hv
    | cons w rest =>
        rw [hentries] at hvalues
        simp only [List.mem_append]
        exact .inl (.inr hvalues)
  unfold declaration
  simp only [List.mem_append, hobject, true_or, or_true]

namespace Datamodel

variable {d : Datamodel}

/-- The lines on which a datamodel is declared, indented and ended as the options say. -/
def content (o : FormatOptions) (d : Datamodel) : List Char :=
  (d.lines o.printWidth).flatMap fun l =>
    List.replicate (o.tabWidth * l.depth) ' ' ++ l.text ++ o.lineEnd

theorem feed_not_mem_lines (h : d.IsSpelled) {printWidth : Nat} {l : Line}
    (hl : l ∈ d.lines printWidth) : '\n' ∉ l.text := by
  have hblock : forall block,
      block ∈ d.models.map Model.lines ++ d.enums.map (Enumeration.lines printWidth) ->
        forall l, l ∈ block -> '\n' ∉ l.text := by
    intro block hblock l hl
    rw [List.mem_append, List.mem_map, List.mem_map] at hblock
    rcases hblock with ⟨m, hm, rfl⟩ | ⟨e, he, rfl⟩
    · exact Model.feed_not_mem_lines (h.models m hm).toHasWords hl
    · exact Enumeration.feed_not_mem_lines (h.enums e he).toHasWords hl
  rw [lines] at hl
  cases hblocks : d.models.map Model.lines ++ d.enums.map (Enumeration.lines printWidth) with
  | nil =>
      rw [hblocks] at hl
      cases hl
  | cons first rest =>
      rw [hblocks] at hl hblock
      rw [Item.intercalate_cons, List.mem_append, List.mem_flatMap] at hl
      rcases hl with hl | ⟨block, hmem, hl⟩
      · exact hblock first List.mem_cons_self l hl
      · rw [List.singleton_append, List.mem_cons] at hl
        rcases hl with rfl | hl
        · simp [Line.blank]
        · exact hblock block (List.mem_cons_of_mem first hmem) l hl

theorem blocks_eq_nil (h : d.blocks = []) : d.models = [] /\ d.enums = [] := by
  rw [blocks, List.append_eq_nil_iff, List.map_eq_nil_iff, List.map_eq_nil_iff] at h
  exact h

theorem format_declaration [Recovery] (h : d.IsSpelled) (o : FormatOptions) :
    format o d.declaration =
      if o.canIndent (d.lines o.printWidth) then .ok (d.content o)
      else .error .panic := by
  by_cases hne : d.blocks = []
  · obtain ⟨hmodels, henums⟩ := blocks_eq_nil hne
    simp [declaration, declarationTexts, content, lines, hmodels, henums, List.intercalate,
      FormatOptions.canIndent, format, Text.normalizeLines, Text.allBlank]
  · obtain ⟨printWidth, htext, hparse⟩ := parse?_declaration h hne
    have hcanonical := canonical_program h printWidth
    have hpairs := Program.normalizeLines_renderAll hcanonical (program_ne_nil hne) 2
    obtain ⟨c, more, hfirst, hc⟩ := Program.visible_renderAll hcanonical (program_ne_nil hne) 2
    rw [htext] at hpairs hfirst
    have hblank : Text.allBlank (Text.normalizeLines d.declaration) = false := by
      rw [hpairs, hfirst, Text.allBlank, List.all_cons, hc, Bool.false_and]
    rw [← hpairs] at hparse
    rw [format_of_parse hblank hparse, Program.print_located hcanonical, print_program h,
      FormatOptions.finish_of_normalized hpairs fun l hl => feed_not_mem_lines h hl]
    rfl

theorem HasWords.isSpelled [Recovery] (h : d.HasWords) {o : FormatOptions} {content : List Char}
    (hformat : format o d.declaration = .ok content) : d.IsSpelled := by
  have hplain : '\x00' ∉ d.declaration := by
    intro hnul
    rw [format_of_nul hnul] at hformat
    cases hformat
  have htext : forall text, text ∈ d.declarationTexts -> '\x00' ∉ text := by
    intro text hmem hnul
    refine hplain ?_
    rw [declaration]
    cases htexts : d.declarationTexts with
    | nil =>
        rw [htexts] at hmem
        cases hmem
    | cons first rest =>
        rw [htexts] at hmem
        exact List.mem_append_left _ (Text.mem_joinWith _ hmem hnul)
  refine ⟨fun m hm => ⟨h.models m hm, fun f hf hnul => ?_⟩,
    fun e he => ⟨h.enums e he, fun v hv hnul => ?_⟩⟩
  · refine htext m.declaration (List.mem_append_left _ (List.mem_map_of_mem hm)) ?_
    exact Model.nul_mem_declaration hf hnul
  · refine htext e.declaration (List.mem_append_right _ (List.mem_map_of_mem he)) ?_
    exact Enumeration.nul_mem_declaration hv hnul

theorem canIndent_lines (h : d.IsNamed) {o : FormatOptions} (htab : o.tabWidth ≤ FormatOptions.longestText) :
    o.canIndent (d.lines o.printWidth) = true := by
  rw [← print_program h.isSpelled]
  exact FormatOptions.canIndent_print htab _ _

end Datamodel

/-!
## Generating
-/

namespace Settings

def generated (s : Settings) (d : Datamodel) : Generated :=
  { path := s.outputPath
    content := d.content s.format
    models := d.models.length
    enums := d.enums.length }

theorem generate_eq_ok [Recovery] {s : Settings} {d : Datamodel} {g : Generated} (h : s.generate d = .ok g) :
    d.clash? = none /\ SchemaTypes.format s.format d.declaration = .ok g.content := by
  rw [generate.eq_def] at h
  cases hclash : d.clash? with
  | some clash =>
      rw [hclash] at h
      cases h
  | none =>
      rw [hclash] at h
      cases hformat : SchemaTypes.format s.format d.declaration with
      | error e =>
          rw [hformat] at h
          cases h
      | ok content =>
          rw [hformat] at h
          cases h
          exact ⟨rfl, rfl⟩

theorem content_of_words [Recovery] {s : Settings} {d : Datamodel} {g : Generated} (hwords : d.HasWords)
    (h : s.generate d = .ok g) : d.IsSpelled /\ g.content = d.content s.format := by
  have hformat := (generate_eq_ok h).right
  have hspelled := hwords.isSpelled hformat
  rw [Datamodel.format_declaration hspelled] at hformat
  split at hformat
  · exact ⟨hspelled, (Except.ok.inj hformat).symm⟩
  · cases hformat

theorem generate_of_named [Recovery] (s : Settings) {d : Datamodel} (hclash : d.clash? = none)
    (hnamed : d.IsNamed) :
    s.generate d =
      if s.format.canIndent (d.lines s.format.printWidth) then .ok (s.generated d)
      else .error .panic := by
  rw [generate, hclash]
  simp only [Datamodel.format_declaration hnamed.isSpelled]
  cases s.format.canIndent (d.lines s.format.printWidth) with
  | true => rfl
  | false => rfl

theorem eq_generated [Recovery] {s : Settings} {d : Datamodel} {g : Generated} (hnamed : d.IsNamed)
    (h : s.generate d = .ok g) : g = s.generated d := by
  cases hclash : d.clash? with
  | none =>
      rw [generate_of_named s hclash hnamed] at h
      split at h
      · cases h
        rfl
      · cases h
  | some clash =>
      rw [generate, hclash] at h
      cases h

/-- What is generated for a datamodel without clashes, whose declarations and types have
names of their own: the text of its lines. -/
theorem generate_eq_content [Recovery] (s : Settings) (d : Datamodel) (hclash : d.clash? = none)
    (hnamed : d.IsNamed) (htab : s.format.tabWidth ≤ FormatOptions.longestText) :
    s.generate d =
      .ok
        { path := s.outputPath
          content := d.content s.format
          models := d.models.length
          enums := d.enums.length } := by
  rw [generate_of_named s hclash hnamed, Datamodel.canIndent_lines hnamed htab, if_pos rfl]
  rfl

/-- A model with a modifier, a keyword and a text for its keys, and an enumeration. -/
def sample : Datamodel :=
  { models :=
      [{ name := "User".toList
         fields :=
          [{ name := "abstract".toList, kind := .scalar, type := "Int".toList, isRequired := true },
            { name := "in".toList, kind := .enum, type := "Role".toList, isList := true },
            { name := "posts".toList, kind := .relation, type := "Post".toList },
            { name := "a\n\"b".toList, kind := .scalar, type := "Json".toList, isRequired := true }] }]
    enums := [.ofNames "Role".toList ["ADMIN".toList, "no-one".toList]] }

theorem generate_sample :
    (sample.clash? = none /\ sample.IsNamed /\ 4 ≤ FormatOptions.longestText) /\
      Settings.generate { directory := "out".toList, format := ⟨20, 4, .crlf⟩ } sample =
        .ok
          { path := "out/index.ts".toList
            content := sample.content ⟨20, 4, .crlf⟩
            models := 1
            enums := 1 } := by
  have hclash : sample.clash? = none := by decide
  have hnamed : sample.IsNamed := by decide
  exact ⟨⟨hclash, hnamed, by decide⟩,
    generate_eq_content ⟨"out".toList, "index.ts".toList, ⟨20, 4, .crlf⟩⟩ sample hclash hnamed
      (by decide)⟩

end Settings

example : Settings.sample.content ⟨20, 4, .lf⟩ =
    ["export interface User \x7b\n", "    \"abstract\": number;\n", "    in: Role | null[];\n",
      "    \"a\\n\\\"b\": any;\n", "\x7d\n", "\n", "export const Role = \x7b\n",
      "    ADMIN: \"ADMIN\",\n", "    \"no-one\": \"no-one\",\n", "\x7d as const;\n",
      "export type Role = (typeof Role)[keyof typeof Role];\n"].flatMap String.toList := by
  decide +kernel

end SchemaTypes
