import SchemaTypes.Proofs.Declaration.Binding
import SchemaTypes.Proofs.TypeScript.Reference

/-!
# What generated texts refer to

A field of an enumeration should refer to the type of its enumeration, and a field of a
scalar type to a built-in type that no declaration of the file hides.  The names of scalar
types, of built-in types and of declarations are not kept apart, so that this holds just
where the declarations of a datamodel happen to avoid the other two.
-/

namespace SchemaTypes

open TypeScript

/-!
## Scalar types
-/

/-- The types that are not declared by their own names. -/
def scalarTypes : List (List Char) :=
  ["Decimal", "Int", "Float", "BigInt", "DateTime", "Boolean", "Json", "String"].map String.toList

def builtInTypes : List (List Char) :=
  ["number", "Date", "boolean", "any", "string"].map String.toList

theorem declaredType_mem_builtInTypes {name : List Char} (h : name ∈ scalarTypes) :
    declaredType name ∈ builtInTypes := by
  have hall : forall name, name ∈ scalarTypes -> declaredType name ∈ builtInTypes := by decide
  exact hall name h

theorem declaredType_eq_self {name : List Char} :
    declaredType name = name <-> name ∉ scalarTypes := by
  constructor
  · intro heq hmem
    have hall : forall name, name ∈ scalarTypes -> declaredType name ≠ name := by decide
    exact hall name hmem heq
  · intro hmem
    have hword : forall word, String.ofList name = word -> word.toList ∈ scalarTypes -> False := by
      rintro word rfl hscalar
      rw [String.toList_ofList] at hscalar
      exact hmem hscalar
    unfold declaredType
    split
    case h_9 => rfl
    all_goals
      rename_i heq
      exact (hword _ heq (by decide)).elim

/-!
## References of datamodels
-/

def Model.reference (m : Model) (f : Field) : Reference :=
  ⟨m.name, f.name, declaredType f.type⟩

/-- What the fields of a datamodel are declared to refer to. -/
def Datamodel.references (d : Datamodel) : List Reference :=
  d.models.flatMap fun m => m.emittedFields.map m.reference

theorem Field.base?_member (f : Field) : f.member.base? = some (SchemaTypes.declaredType f.type) := by
  have hbase : f.typeTree.base? = some (SchemaTypes.declaredType f.type) := by
    rw [typeTree, plainType]
    cases f.isRequired <;> cases f.isList <;> rfl
  simp only [member, Member.base?, List.findSome?_cons, MemberPiece.base?, hbase]

theorem Model.references?_statement (m : Model) :
    m.statement.references? = some (m.emittedFields.map m.reference) := by
  rw [statement, Statement.references?, mapM_eq_some_iff, ← Item.nodes_arrange none, nodes_members,
    List.map_map, List.map_map]
  refine List.map_congr_left fun f _ => ?_
  simp only [Function.comp, Member.reference?, f.key?_member, f.base?_member, Option.bind_some,
    Option.map_some, reference]

def references? (text : List Char) : Option (List Reference) :=
  let plain := Text.normalizeLines text
  if Text.allBlank plain then some [] else (Program.parse? plain).bind Program.references?

namespace Datamodel

variable {d : Datamodel}

theorem references?_program (d : Datamodel) : d.program.references? = some d.references := by
  have hstatements : (Item.values d.program).mapM Statement.references? =
      some (d.models.map (fun m => m.emittedFields.map m.reference) ++
        d.enums.flatMap fun _ => [[], []]) := by
    rw [values_program, mapM_eq_some_iff, List.map_append, List.map_append, List.map_map,
      List.map_map, List.map_flatMap, List.map_flatMap]
    congr 1
    exact List.map_congr_left fun m _ => m.references?_statement
  have henums : (d.enums.flatMap fun _ => [[], []]).flatten = ([] : List Reference) := by
    simp
  rw [Program.references?, hstatements, Option.map_some, List.flatten_append, henums,
    List.append_nil, references, List.flatMap_def]

theorem references?_content (h : d.IsSpelled) (o : FormatOptions) :
    references? (d.content o) = some d.references := by
  by_cases hne : d.blocks = []
  · obtain ⟨hmodels, henums⟩ := blocks_eq_nil hne
    simp [references?, content, lines, references, hmodels, henums, List.intercalate,
      Text.normalizeLines, Text.allBlank]
  · obtain ⟨hblank, program, hparse, hshape⟩ := parse?_content h hne o
    simp only [references?, hblank, hparse, Bool.false_eq_true, if_false, Option.bind_some]
    rw [Program.references?_of_shape hshape, references?_program]

/-!
## What the names of a datamodel stand for
-/

theorem typeAlias_mem_bindings {e : Enumeration} (he : e ∈ d.enums) :
    Binding.typeAlias e.name ∈ d.bindings :=
  List.mem_append_right _ (List.mem_flatMap.mpr ⟨e, he, List.mem_pair.mpr (.inr rfl)⟩)

theorem exists_binding_iff {name : List Char} :
    (exists b, b ∈ d.bindings /\ b.name = name) <->
      name ∈ d.models.map Model.name ++ d.enums.map Enumeration.name := by
  rw [List.mem_append, List.mem_map, List.mem_map]
  constructor
  · rintro ⟨b, hb, rfl⟩
    rw [bindings, List.mem_append, List.mem_map, List.mem_flatMap] at hb
    rcases hb with ⟨m, hm, rfl⟩ | ⟨e, he, hb⟩
    · exact .inl ⟨m, hm, rfl⟩
    · exact .inr ⟨e, he, (Enumeration.name_of_mem_bindings hb).symm⟩
  · rintro (⟨m, hm, rfl⟩ | ⟨e, he, rfl⟩)
    · exact ⟨m.binding, List.mem_append_left _ (List.mem_map_of_mem hm), rfl⟩
    · exact ⟨.typeAlias e.name, typeAlias_mem_bindings he, rfl⟩

theorem typeAt?_references (h : d.clash? = none) {m : Model} (hm : m ∈ d.models) {f : Field}
    (hf : f ∈ m.emittedFields) :
    Reference.typeAt? d.references m.name f.name = some (declaredType f.type) := by
  obtain ⟨hnames, hfields, -⟩ := clash?_eq_none.mp h
  refine Reference.typeAt?_eq_some (r := m.reference f)
    (List.mem_flatMap.mpr ⟨m, hm, List.mem_map_of_mem hf⟩) ?_
  intro other hother hinterface hkey
  obtain ⟨n, hn, hother⟩ := List.mem_flatMap.mp hother
  obtain ⟨g, hg, rfl⟩ := List.mem_map.mp hother
  obtain rfl : n = m := List.inj_on_of_nodup_map (List.Nodup.of_append_left hnames) hn hm hinterface
  obtain rfl : g = f := List.inj_on_of_nodup_map (hfields n hn) (List.mem_of_mem_filter hg)
    (List.mem_of_mem_filter hf) hkey
  rfl

theorem typeNamed?_bindings (h : d.clash? = none) {e : Enumeration} (he : e ∈ d.enums) :
    Binding.typeNamed? d.bindings e.name = some (.typeAlias e.name) := by
  have hnames := (clash?_eq_none.mp h).left
  refine Binding.typeNamed?_eq_some (typeAlias_mem_bindings he) rfl ?_
  intro other hother htype hname
  rw [bindings, List.mem_append, List.mem_map, List.mem_flatMap] at hother
  rcases hother with ⟨m, hm, rfl⟩ | ⟨f, hf, hother⟩
  · have hdisjoint := List.disjoint_of_nodup_append hnames (List.mem_map_of_mem hm)
    rw [show m.name = e.name from hname] at hdisjoint
    exact (hdisjoint (List.mem_map_of_mem he)).elim
  · rw [Enumeration.bindings, List.mem_pair] at hother
    rcases hother with rfl | rfl
    · cases htype
    · rw [show f.name = e.name from hname]

/-!
## References that hold
-/

/-- The references and bindings of a file say what the fields of a datamodel say: a field of
a declared enumeration refers to the type of the enumeration, and a field of a scalar type
to a built-in type whose name the file does not bind. -/
structure ReferencesHold (d : Datamodel) (refs : List Reference) (bs : List Binding) : Prop where
  enums : forall m, m ∈ d.models -> forall f, f ∈ m.fields -> f.kind = .enum ->
    forall e, e ∈ d.enums -> f.type = e.name ->
      Reference.typeAt? refs m.name f.name = some e.name /\
        Binding.typeNamed? bs e.name = some (.typeAlias e.name)
  scalars : forall m, m ∈ d.models -> forall f, f ∈ m.fields -> f.kind = .scalar ->
    f.type ∈ scalarTypes ->
      exists name, Reference.typeAt? refs m.name f.name = some name /\ name ∈ builtInTypes /\
        forall b, b ∈ bs -> b.name ≠ name

/-- A field keeps clear of built-in types: the enumeration that it refers to is not named like
a scalar type, and no declaration is named like the type that its scalar type is declared by. -/
structure IsClear (d : Datamodel) (f : Field) : Prop where
  enum : f.kind = .enum -> f.type ∈ d.enums.map Enumeration.name -> f.type ∉ scalarTypes
  scalar : f.kind = .scalar -> f.type ∈ scalarTypes ->
    declaredType f.type ∉ d.models.map Model.name ++ d.enums.map Enumeration.name

theorem mem_emittedFields {m : Model} {f : Field} (hf : f ∈ m.fields)
    (hkind : f.kind = .scalar \/ f.kind = .enum) : f ∈ m.emittedFields := by
  refine List.mem_filter.mpr ⟨hf, ?_⟩
  rcases hkind with hkind | hkind <;> rw [hkind] <;> rfl

theorem referencesHold_iff (h : d.clash? = none) :
    d.ReferencesHold d.references d.bindings <->
      forall m, m ∈ d.models -> forall f, f ∈ m.fields -> d.IsClear f := by
  constructor
  · intro hhold m hm f hf
    refine ⟨fun hkind hmem => ?_, fun hkind hscalar hmem => ?_⟩
    · obtain ⟨e, he, hname⟩ := List.mem_map.mp hmem
      have htype := (hhold.enums m hm f hf hkind e he hname.symm).left
      rw [typeAt?_references h hm (mem_emittedFields hf (.inr hkind)), hname,
        Option.some.injEq] at htype
      exact declaredType_eq_self.mp htype
    · obtain ⟨name, htype, -, hfree⟩ := hhold.scalars m hm f hf hkind hscalar
      rw [typeAt?_references h hm (mem_emittedFields hf (.inl hkind)), Option.some.injEq] at htype
      obtain ⟨b, hb, hname⟩ := exists_binding_iff.mpr hmem
      exact hfree b hb (hname.trans htype)
  · intro hclear
    refine ⟨fun m hm f hf hkind e he htype => ?_, fun m hm f hf hkind hscalar => ?_⟩
    · have hmem : f.type ∈ d.enums.map Enumeration.name := htype ▸ List.mem_map_of_mem he
      have hself := declaredType_eq_self.mpr ((hclear m hm f hf).enum hkind hmem)
      rw [typeAt?_references h hm (mem_emittedFields hf (.inr hkind)), hself, htype]
      exact ⟨rfl, typeNamed?_bindings h he⟩
    · refine ⟨_, typeAt?_references h hm (mem_emittedFields hf (.inl hkind)),
        declaredType_mem_builtInTypes hscalar, fun b hb hname => ?_⟩
      exact (hclear m hm f hf).scalar hkind hscalar (exists_binding_iff.mp ⟨b, hb, hname⟩)

/-- The references of a datamodel without clashes hold just where its fields keep clear of
built-in types.  They are what is read from a generated text, if the declarations and types
are named by words. -/
theorem references_hold [Recovery] (d : Datamodel) (hclash : d.clash? = none) :
    (d.ReferencesHold d.references d.bindings <->
        forall m, m ∈ d.models -> forall f, f ∈ m.fields -> d.IsClear f) /\
      forall (s : Settings) (g : Generated), d.HasWords -> s.generate d = .ok g ->
        references? g.content = some d.references /\ bindings? g.content = some d.bindings := by
  refine ⟨referencesHold_iff hclash, fun s g hwords hgenerate => ?_⟩
  obtain ⟨hspelled, hcontent⟩ := Settings.content_of_words hwords hgenerate
  rw [hcontent]
  exact ⟨references?_content hspelled _, bindings?_content hspelled _⟩

def posting : Datamodel :=
  { models :=
      [{ name := "Post".toList
         fields :=
          [{ name := "state".toList, kind := .enum, type := "State".toList, isRequired := true },
            { name := "edited".toList, kind := .scalar, type := "DateTime".toList, isList := true }] }]
    enums := [.ofNames "State".toList ["DRAFT".toList, "PUBLIC".toList]] }

theorem references_hold_posting :
    (posting.clash? = none /\ posting.HasWords /\
        Settings.generate { directory := "out".toList } posting =
          .ok (Settings.generated { directory := "out".toList } posting)) /\
      posting.ReferencesHold posting.references posting.bindings /\
      references? (Settings.generated { directory := "out".toList } posting).content =
        some
          [⟨"Post".toList, "state".toList, "State".toList⟩,
            ⟨"Post".toList, "edited".toList, "Date".toList⟩] := by
  have hclash : posting.clash? = none := by decide
  have hnamed : posting.IsNamed := by decide
  have hwords : posting.HasWords :=
    ⟨fun m hm => (hnamed.models m hm).isSpelled.toHasWords,
      fun e he => (hnamed.enums e he).isSpelled.toHasWords⟩
  have hgenerate : Settings.generate { directory := "out".toList } posting =
      .ok (Settings.generated { directory := "out".toList } posting) := by
    rw [Settings.generate_of_named _ hclash hnamed, if_pos (by decide)]
  have hclear : forall m, m ∈ posting.models -> forall f, f ∈ m.fields -> posting.IsClear f := by
    intro m hm f hf
    obtain rfl := List.mem_singleton.mp hm
    rcases List.mem_pair.mp hf with rfl | rfl
    · exact ⟨by decide, by decide⟩
    · exact ⟨by decide, by decide⟩
  obtain ⟨hiff, hread⟩ := references_hold posting hclash
  exact ⟨⟨hclash, hwords, hgenerate⟩, hiff.mpr hclear, (hread _ _ hwords hgenerate).left⟩

/-- An enumeration with the name of a scalar type, and a model with the name of a type that
times are declared by. -/
def shadowing : Datamodel :=
  { models :=
      [{ name := "User".toList
         fields :=
          [{ name := "level".toList, kind := .enum, type := "Int".toList, isRequired := true },
            { name := "born".toList, kind := .scalar, type := "DateTime".toList, isRequired := true }] },
        { name := "Date".toList }]
    enums := [.ofNames "Int".toList ["LOW".toList]] }

/-- Such a datamodel has no clash, but its enumeration is declared as a number, and its times
as the model. -/
theorem references_fail_shadowing :
    Settings.generate { directory := "out".toList } shadowing =
        .ok (Settings.generated { directory := "out".toList } shadowing) /\
      references? (Settings.generated { directory := "out".toList } shadowing).content =
        some
          [⟨"User".toList, "level".toList, "number".toList⟩,
            ⟨"User".toList, "born".toList, "Date".toList⟩] /\
      bindings? (Settings.generated { directory := "out".toList } shadowing).content =
        some
          [.interface "User".toList ["level".toList, "born".toList], .interface "Date".toList [],
            .constant "Int".toList ["LOW".toList], .typeAlias "Int".toList] /\
      shadowing.clash? = none /\
      ¬ shadowing.ReferencesHold shadowing.references shadowing.bindings := by
  have hclash : shadowing.clash? = none := by decide
  have hnamed : shadowing.IsNamed := by decide
  refine ⟨?_, references?_content hnamed.isSpelled _, bindings?_content hnamed.isSpelled _, hclash, ?_⟩
  · rw [Settings.generate_of_named _ hclash hnamed, if_pos (by decide)]
  · rw [referencesHold_iff hclash]
    intro hclear
    have hlevel := hclear _ List.mem_cons_self _ List.mem_cons_self
    exact hlevel.enum rfl (by decide) (by decide)

end Datamodel
end SchemaTypes
