import SchemaTypes.Cli.Run
import SchemaTypes.Proofs.Declaration.Content

/-!
# What generated texts tell apart

A generated text shows the view of its datamodel, the names and types that are emitted,
and nothing else.  Two generated texts are the same, up to the blanks around them, just
where the views are, so that a file is up to date just where it shows the same view.
-/

namespace SchemaTypes

open TypeScript

/-!
## Views
-/

namespace Model

/-- The name of a model and the names and declared types of its emitted fields. -/
def view (m : Model) : List Char × List (List Char × List Char) :=
  (m.name, m.emittedFields.map fun f => (f.name, f.declaredType))

end Model

namespace Enumeration

/-- The name of an enumeration and the names of its values. -/
def view (e : Enumeration) : List Char × List (List Char) :=
  (e.name, e.values.map EnumValue.name)

end Enumeration

namespace Datamodel

/-- The models and the enumerations, each in their order. -/
def view (d : Datamodel) :
    List (List Char × List (List Char × List Char)) × List (List Char × List (List Char)) :=
  (d.models.map Model.view, d.enums.map Enumeration.view)

end Datamodel

/-!
## One view, one text
-/

theorem Model.lines_of_view {m n : Model} (h : m.view = n.view) : m.lines = n.lines := by
  rw [view, view, Prod.mk.injEq] at h
  have hfields : m.emittedFields.map Field.memberText = n.emittedFields.map Field.memberText := by
    refine map_eq_of_map_eq (fun f _ g _ heq => ?_) h.right
    rw [Prod.mk.injEq] at heq
    rw [Field.memberText, Field.memberText, heq.left, heq.right]
  have hlines : m.emittedFields.map (fun f => (⟨1, f.memberText⟩ : Line)) =
      n.emittedFields.map fun f => ⟨1, f.memberText⟩ := by
    refine map_eq_of_map_eq (fun f _ g _ heq => ?_) hfields
    rw [heq]
  have hheader : m.header = n.header := by
    unfold header
    rw [h.left]
  rw [lines, lines, hheader]
  cases hm : m.emittedFields with
  | nil =>
      rw [hm] at hfields
      rw [List.map_eq_nil_iff.mp hfields.symm]
  | cons f fs =>
      cases hn : n.emittedFields with
      | nil =>
          rw [hm, hn] at hfields
          cases hfields
      | cons g gs =>
          rw [hm, hn] at hlines
          simp only [hlines]

theorem Enumeration.lines_of_view {e f : Enumeration} (h : e.view = f.view) (printWidth : Nat) :
    e.lines printWidth = f.lines printWidth := by
  rw [view, view, Prod.mk.injEq] at h
  have hvalues : e.values.map EnumValue.declaration = f.values.map EnumValue.declaration := by
    refine map_eq_of_map_eq (fun v _ w _ heq => ?_) h.right
    rw [EnumValue.declaration, EnumValue.declaration, heq]
  have hlines : e.values.map (fun v => (⟨1, v.declaration ++ [',']⟩ : Line)) =
      f.values.map fun v => ⟨1, v.declaration ++ [',']⟩ := by
    refine map_eq_of_map_eq (fun v _ w _ heq => ?_) hvalues
    rw [heq]
  have hnil : e.values = [] <-> f.values = [] := by
    rw [← List.map_eq_nil_iff (f := EnumValue.name), h.right, List.map_eq_nil_iff]
  have hobject : e.object = f.object := by
    rw [object, object]
    cases he : e.values with
    | nil => rw [hnil.mp he]
    | cons v vs =>
        cases hf : f.values with
        | nil =>
            rw [hnil.mpr hf] at he
            cases he
        | cons w ws =>
            rw [he, hf] at hvalues
            simp only [hvalues]
  have hheader : e.header = f.header := by
    unfold header
    rw [h.left]
  have hflat : e.flatLine = f.flatLine := by
    unfold flatLine
    rw [hheader, hobject]
  have halias : e.aliasLine = f.aliasLine := by
    unfold aliasLine
    rw [h.left]
  simp only [lines, hflat, halias, hheader, hlines, hnil]

namespace Datamodel

theorem content_of_view {d other : Datamodel} (h : d.view = other.view) (o : FormatOptions) :
    d.content o = other.content o := by
  rw [view, view, Prod.mk.injEq] at h
  have hmodels : d.models.map Model.lines = other.models.map Model.lines :=
    map_eq_of_map_eq (fun _ _ _ _ hview => Model.lines_of_view hview) h.left
  have henums : d.enums.map (Enumeration.lines o.printWidth) =
      other.enums.map (Enumeration.lines o.printWidth) :=
    map_eq_of_map_eq (fun _ _ _ _ hview => Enumeration.lines_of_view hview o.printWidth) h.right
  rw [content, content, lines, lines, hmodels, henums]

end Datamodel

/-!
## One shape, one view

The statements of a datamodel tell its models and enumerations apart.
-/

theorem Field.view_of_member {f g : Field}
    (hf : TypeTree.isTypeWord (SchemaTypes.declaredType f.type) = true)
    (hg : TypeTree.isTypeWord (SchemaTypes.declaredType g.type) = true) (h : f.member = g.member) :
    (f.name, f.declaredType) = (g.name, g.declaredType) := by
  simp only [member, Member.property.injEq, List.cons.injEq, MemberPiece.name.injEq,
    MemberPiece.declared.injEq, and_true, Declaration.memberName, PropertyName.mk.injEq] at h
  rw [Declaration.memberKey_injective h.left.left, ← print_typeTree hf, h.right, print_typeTree hg]

theorem Model.view_of_shape {m n : Model} (hm : m.IsSpelled) (hn : n.IsSpelled)
    (h : m.statement.shape = n.statement.shape) : m.view = n.view := by
  simp only [statement, Statement.shape, Prod.mk.injEq, Statement.interface.injEq, and_true,
    true_and] at h
  have hmembers := congrArg Piece.nodes h.right
  rw [nodes_members, nodes_members] at hmembers
  rw [view, view, h.left]
  have hfields := map_eq_of_map_eq
    (fun f hf g hg heq => Field.view_of_member (hm.types f hf) (hn.types g hg) heq) hmembers
  rw [hfields]

theorem Enumeration.view_of_shape {e f : Enumeration} (h : e.constant.shape = f.constant.shape) :
    e.view = f.view := by
  simp only [constant, Statement.shape, Prod.mk.injEq, Statement.lexical.injEq, List.cons.injEq,
    Declarator.mk.injEq, Option.some.injEq, and_true, true_and, value, Expression.ascription.injEq,
    Expression.object.injEq] at h
  have hvalues : e.values.map EnumValue.name = f.values.map EnumValue.name := by
    refine map_eq_of_map_eq (fun v _ w _ heq => ?_) h.right
    simp only [EnumValue.entry, Entry.pair.injEq, Expression.string.injEq] at heq
    exact Declaration.literal_injective heq.right
  rw [view, view, h.left, hvalues]

namespace Datamodel

def shapes (models : List Model) (enums : List Enumeration) :
    List (Statement × List (Piece Member)) :=
  models.map (fun m => m.statement.shape) ++
    enums.flatMap fun e => [e.constant.shape, e.typeAlias.shape]

theorem nodes_shape (d : Datamodel) : Piece.nodes d.program.shape = shapes d.models d.enums := by
  rw [Program.shape, Piece.nodes_map, program, Item.arrange_stack, Piece.nodes_ofBlocks, blocks, shapes,
    List.flatMap_append, List.map_append, List.flatMap_map, List.flatMap_map, List.map_flatMap,
    List.map_flatMap, List.map_eq_flatMap]
  rfl

theorem enumViews_of_shapes {es fs : List Enumeration} (h : shapes [] es = shapes [] fs) :
    es.map Enumeration.view = fs.map Enumeration.view := by
  induction es generalizing fs with
  | nil =>
      cases fs with
      | nil => rfl
      | cons f fs => cases h
  | cons e es ih =>
      cases fs with
      | nil => cases h
      | cons f fs =>
          simp only [shapes, List.map_nil, List.nil_append, List.flatMap_cons, List.cons_append,
            List.cons.injEq] at h
          rw [List.map_cons, List.map_cons, Enumeration.view_of_shape h.left, ih h.right.right]

theorem views_of_shapes {ms ns : List Model} (hms : forall m, m ∈ ms -> m.IsSpelled)
    (hns : forall n, n ∈ ns -> n.IsSpelled) {es fs : List Enumeration}
    (h : shapes ms es = shapes ns fs) :
    ms.map Model.view = ns.map Model.view /\ es.map Enumeration.view = fs.map Enumeration.view := by
  induction ms generalizing ns with
  | nil =>
      cases ns with
      | nil => exact ⟨rfl, enumViews_of_shapes h⟩
      | cons n ns => cases es <;> cases h
  | cons m ms ih =>
      cases ns with
      | nil => cases fs <;> cases h
      | cons n ns =>
          simp only [shapes, List.map_cons, List.cons_append, List.cons.injEq] at h
          have hfirst := Model.view_of_shape (hms m List.mem_cons_self) (hns n List.mem_cons_self) h.left
          have hrest := ih (fun k hk => hms k (List.mem_cons_of_mem m hk))
            (fun k hk => hns k (List.mem_cons_of_mem n hk)) h.right
          exact ⟨by rw [List.map_cons, List.map_cons, hfirst, hrest.left], hrest.right⟩

theorem view_of_shape {d other : Datamodel} (hd : d.IsSpelled) (hother : other.IsSpelled)
    (h : d.program.shape = other.program.shape) : d.view = other.view := by
  have hnodes := congrArg Piece.nodes h
  rw [nodes_shape, nodes_shape] at hnodes
  obtain ⟨hmodels, henums⟩ := views_of_shapes hd.models hother.models hnodes
  rw [view, view, hmodels, henums]

end Datamodel

/-!
## One text, one view
-/

namespace Datamodel

variable {d other : Datamodel} {o : FormatOptions}

theorem content_eq_finish (h : d.IsSpelled) (o : FormatOptions) :
    d.content o = o.finish [] (d.program.print o.printWidth) := by
  rw [print_program h, FormatOptions.finish_of_normalized rfl
    fun l hl => feed_not_mem_lines h hl]
  rfl

theorem visible_content (h : d.IsSpelled) (hne : d.blocks ≠ []) (o : FormatOptions) :
    exists c more, d.content o = c :: more /\ Text.isBlank c = false := by
  obtain ⟨c, more, htext, hc⟩ :=
    Program.visible_renderAll (canonical_program h o.printWidth) (program_ne_nil hne) o.tabWidth
  rw [content_eq_finish h, FormatOptions.finish, htext]
  split
  · have hfeed : c ≠ '\n' := by
      rintro rfl
      cases hc
    exact ⟨c, _, by rw [Text.carriageReturns_cons, if_neg hfeed], hc⟩
  · exact ⟨c, more, rfl, hc⟩

/-- Equal texts are read as programs of one shape. -/
theorem view_of_content (hd : d.IsNamed) (hother : other.IsNamed)
    (h : d.content o = other.content o) : d.view = other.view := by
  have hd := hd.isSpelled
  have hother := hother.isSpelled
  have hnil : forall {a b : Datamodel}, b.IsSpelled -> a.blocks = [] -> a.content o = b.content o ->
      b.blocks = [] := by
    intro a b hb ha hab
    refine Classical.byContradiction fun hne => ?_
    obtain ⟨hmodels, henums⟩ := blocks_eq_nil ha
    obtain ⟨c, more, hcontent, -⟩ := visible_content hb hne o
    rw [hcontent, content, lines, hmodels, henums] at hab
    cases hab
  by_cases hd' : d.blocks = []
  · obtain ⟨hmodels, henums⟩ := blocks_eq_nil hd'
    obtain ⟨hmodels', henums'⟩ := blocks_eq_nil (hnil hother hd' h)
    rw [view, view, hmodels, henums, hmodels', henums']
  · have hother' : other.blocks ≠ [] := fun hnone => hd' (hnil hd hnone h.symm)
    rw [content_eq_finish hd, content_eq_finish hother] at h
    have hparse := parse?_finish (canonical_program hd o.printWidth) (program_ne_nil hd') []
    rw [h, parse?_finish (canonical_program hother o.printWidth) (program_ne_nil hother') [],
      Option.some.injEq] at hparse
    have hshape := congrArg Program.shape hparse
    rw [Program.shape_located (canonical_program hother o.printWidth),
      Program.shape_located (canonical_program hd o.printWidth)] at hshape
    exact view_of_shape hd hother hshape.symm

end Datamodel

/-!
## Blanks around texts
-/

namespace Model

theorem visible_lines (m : Model) :
    exists before s c, m.lines = before ++ [⟨0, s ++ [c]⟩] /\ Text.isBlank c = false := by
  rw [lines]
  cases m.emittedFields with
  | nil => exact ⟨[], m.header ++ " \x7b".toList, '\x7d', by simp, by decide⟩
  | cons f fs => exact ⟨_, [], '\x7d', rfl, by decide⟩

end Model

namespace Enumeration

theorem visible_lines (e : Enumeration) (printWidth : Nat) :
    exists before s c, e.lines printWidth = before ++ [⟨0, s ++ [c]⟩] /\ Text.isBlank c = false := by
  have halias : e.aliasLine = "export type ".toList ++ e.name ++ " = (typeof ".toList ++ e.name ++
      ")[keyof typeof ".toList ++ e.name ++ "]".toList ++ [';'] := by
    unfold aliasLine
    simp
  rw [lines, halias]
  exact ⟨_, _, ';', rfl, by decide⟩

end Enumeration

namespace Datamodel

variable {d : Datamodel}

/-- The last line of a datamodel ends with a visible character. -/
theorem visible_lines (hne : d.blocks ≠ []) (printWidth : Nat) :
    exists before s c, d.lines printWidth = before ++ [⟨0, s ++ [c]⟩] /\ Text.isBlank c = false := by
  have hblock : forall block,
      block ∈ d.models.map Model.lines ++ d.enums.map (Enumeration.lines printWidth) ->
        exists before s c, block = before ++ [⟨0, s ++ [c]⟩] /\ Text.isBlank c = false := by
    intro block hblock
    rw [List.mem_append, List.mem_map, List.mem_map] at hblock
    rcases hblock with ⟨m, -, rfl⟩ | ⟨e, -, rfl⟩
    · exact m.visible_lines
    · exact e.visible_lines printWidth
  have hblocks : d.models.map Model.lines ++ d.enums.map (Enumeration.lines printWidth) ≠ [] := by
    intro hnil
    rw [List.append_eq_nil_iff, List.map_eq_nil_iff, List.map_eq_nil_iff] at hnil
    exact hne (by rw [blocks, hnil.left, hnil.right]; rfl)
  rw [lines]
  generalize d.models.map Model.lines ++ d.enums.map (Enumeration.lines printWidth) = blocks
    at hblock hblocks
  induction blocks with
  | nil => exact absurd rfl hblocks
  | cons first rest ih =>
      cases rest with
      | nil =>
          obtain ⟨before, s, c, hfirst, hc⟩ := hblock first List.mem_cons_self
          exact ⟨before, s, c, by simp [List.intercalate, hfirst], hc⟩
      | cons second rest =>
          obtain ⟨before, s, c, hrest, hc⟩ :=
            ih (fun block hmem => hblock block (List.mem_cons_of_mem first hmem))
              (List.cons_ne_nil second rest)
          refine ⟨first ++ [Line.blank] ++ before, s, c, ?_, hc⟩
          rw [Item.intercalate_cons] at hrest ⊢
          rw [List.flatMap_cons, List.append_assoc [Line.blank], hrest]
          simp

theorem trim_append_blank {s blank : List Char} (hfirst : s.head?.any Text.isBlank = false)
    (hne : s ≠ []) (hlast : s.getLast?.any Text.isBlank = false)
    (hblank : blank.all Text.isBlank = true) : Text.trim (s ++ blank) = s := by
  have hstart : Text.trimStart (s ++ blank) = s ++ blank := by
    cases s with
    | nil => exact absurd rfl hne
    | cons c rest => exact Text.trimStart_cons (by simpa using hfirst) _
  have hreverse : blank.reverse.all Text.isBlank = true := by rwa [List.all_reverse]
  have hend : s.reverse.head?.any Text.isBlank = false := by rwa [List.head?_reverse]
  rw [Text.trim, hstart, Text.trimEnd, List.reverse_append,
    (Text.takeWhile_append_of_all hreverse hend).right, List.reverse_reverse]

/-- Trimming takes the last line ending away and nothing else. -/
theorem content_eq_trim (h : d.IsNamed) (o : FormatOptions) :
    d.content o =
      if Text.trim (d.content o) = [] then [] else Text.trim (d.content o) ++ o.lineEnd := by
  by_cases hne : d.blocks = []
  · obtain ⟨hmodels, henums⟩ := blocks_eq_nil hne
    have hnil : d.content o = [] := by
      rw [content, lines, hmodels, henums]
      rfl
    rw [hnil]
    rfl
  · obtain ⟨before, s, c, hlines, hc⟩ := visible_lines hne o.printWidth
    obtain ⟨first, more, hcontent, hfirst⟩ := visible_content h.isSpelled hne o
    obtain ⟨body, hbody⟩ : exists body, d.content o = body ++ [c] ++ o.lineEnd := by
      refine ⟨(before.flatMap fun l =>
        List.replicate (o.tabWidth * l.depth) ' ' ++ l.text ++ o.lineEnd) ++ s, ?_⟩
      rw [content, hlines, List.flatMap_append]
      simp
    have hlineEnd : o.lineEnd.all Text.isBlank = true := by
      rw [FormatOptions.lineEnd]
      split <;> decide
    have hhead : (body ++ [c]).head?.any Text.isBlank = false := by
      rw [hcontent] at hbody
      cases body with
      | nil => simpa using hc
      | cons b rest =>
          simp only [List.cons_append, List.cons.injEq] at hbody
          simpa [← hbody.left] using hfirst
    rw [hbody, trim_append_blank hhead (by simp) (by simpa using hc) hlineEnd, if_neg (by simp)]

end Datamodel

/-!
## Files that are up to date
-/

/-- A file generated for one datamodel is up to date for another one just where both show
the same view. -/
theorem isUpToDate_generated [Recovery] (s t : Settings) (d other : Datamodel) (g existing : Generated)
    (hformat : s.format = t.format) (hd : d.IsNamed) (hother : other.IsNamed)
    (hexisting : s.generate d = .ok existing) (hg : t.generate other = .ok g) :
    isUpToDate existing.content g.content = true <-> d.view = other.view := by
  have hcontents : Text.trim (d.content s.format) = Text.trim (other.content s.format) ->
      d.content s.format = other.content s.format := by
    intro htrim
    rw [Datamodel.content_eq_trim hd, htrim, ← Datamodel.content_eq_trim hother]
  rw [Settings.eq_generated hd hexisting, Settings.eq_generated hother hg, Settings.generated,
    Settings.generated, ← hformat, isUpToDate, beq_iff_eq]
  constructor
  · exact fun htrim => Datamodel.view_of_content hd hother (hcontents htrim)
  · intro hview
    rw [Datamodel.content_of_view hview]

/-- A datamodel with a relation and a value that has another name in the database. -/
def Datamodel.mapped : Datamodel :=
  { models :=
      [{ name := "User".toList
         fields :=
          [{ name := "id".toList, kind := .scalar, type := "Int".toList, isRequired := true },
            { name := "posts".toList, kind := .relation, type := "Post".toList, isList := true }] }]
    enums := [{ name := "Role".toList, values := [⟨"ADMIN".toList, some "admin".toList⟩] }] }

/-- The same datamodel without relations and with other names in the database. -/
def Datamodel.unmapped : Datamodel :=
  { models :=
      [{ name := "User".toList
         fields := [{ name := "id".toList, kind := .scalar, type := "Float".toList, isRequired := true }] }]
    enums := [.ofNames "Role".toList ["ADMIN".toList]] }

def Settings.inOut : Settings := { directory := "out".toList }

theorem isUpToDate_mapped :
    (Settings.inOut.generate .mapped = .ok (Settings.inOut.generated .mapped) /\
        Settings.inOut.generate .unmapped = .ok (Settings.inOut.generated .unmapped)) /\
      isUpToDate (Settings.inOut.generated .unmapped).content
        (Settings.inOut.generated .mapped).content = true := by
  have hmapped : Settings.inOut.generate .mapped = .ok (Settings.inOut.generated .mapped) := by
    rw [Settings.generate_of_named _ (by decide) (by decide), if_pos (by decide)]
  have hunmapped : Settings.inOut.generate .unmapped = .ok (Settings.inOut.generated .unmapped) := by
    rw [Settings.generate_of_named _ (by decide) (by decide), if_pos (by decide)]
  have hiff := isUpToDate_generated .inOut .inOut .unmapped .mapped (Settings.inOut.generated .mapped)
    (Settings.inOut.generated .unmapped) rfl (by decide) (by decide) hunmapped hmapped
  exact ⟨⟨hmapped, hunmapped⟩, hiff.mpr (by decide)⟩

end SchemaTypes
