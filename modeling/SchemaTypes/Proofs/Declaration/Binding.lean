import SchemaTypes.Proofs.Datamodel.Clash
import SchemaTypes.Proofs.Declaration.Exactness
import SchemaTypes.Proofs.TypeScript.Binding

/-!
# What generated texts bind

A datamodel binds an interface for each model, and a constant and a type for each
enumeration.  Where its declarations and types are named by words, a generated text binds
just that, and no name twice.  Names of fields and values can be any text.
-/

namespace SchemaTypes

open TypeScript

/-!
## Bindings of datamodels
-/

def Model.binding (m : Model) : Binding :=
  .interface m.name (m.emittedFields.map Field.name)

def Enumeration.bindings (e : Enumeration) : List Binding :=
  [.constant e.name (e.values.map EnumValue.name), .typeAlias e.name]

def Datamodel.bindings (d : Datamodel) : List Binding :=
  d.models.map Model.binding ++ d.enums.flatMap Enumeration.bindings

/-!
## Keys

A key stands for the name it was made of, whatever that name is.
-/

namespace Declaration

theorem char?_literalPiece (c : Char) : (literalPiece c).char? = some c := by
  unfold literalPiece
  split <;> rfl

theorem decode?_literal (s : List Char) : Quoted.decode? (literal s) = some s := by
  rw [Quoted.decode?, pieces?_literal, Option.bind_some, mapM_eq_some_iff, List.map_map]
  exact List.map_congr_left fun c _ => char?_literalPiece c

theorem key?_literal (s : List Char) : PropertyName.key? ⟨literal s, true⟩ = some s := by
  rw [PropertyName.key?, if_pos rfl, decode?_literal]

theorem key?_entryName (name : List Char) : (entryName name).key? = some name := by
  rw [entryName, entryKey]
  cases hname : isIdentifier name with
  | true => simp [PropertyName.key?, isPlainWord_of_isIdentifier hname]
  | false => exact key?_literal name

theorem key?_memberName (name : List Char) : (memberName name).key? = some name := by
  by_cases habstract : name = "abstract".toList
  · rw [memberName, memberKey, if_pos habstract, beq_iff_eq.mpr habstract, Bool.true_or]
    exact key?_literal name
  · rw [memberName, memberKey, if_neg habstract, beq_false_of_ne habstract, Bool.false_or]
    exact key?_entryName name

end Declaration

/-!
## Bindings of declarations
-/

theorem Field.key?_member (f : Field) : f.member.key? = some f.name := by
  rw [member, Member.key?, List.findSome?_cons, MemberPiece.key?, Declaration.key?_memberName]

theorem EnumValue.key?_entry (v : EnumValue) : v.entry.key? = some v.name :=
  Declaration.key?_entryName v.name

theorem Model.binding?_statement (m : Model) : m.statement.binding? = some m.binding := by
  have hkeys : (Item.values m.members).mapM Member.key? = some (m.emittedFields.map Field.name) := by
    rw [← Item.nodes_arrange none, nodes_members, mapM_eq_some_iff, List.map_map, List.map_map]
    exact List.map_congr_left fun f _ => f.key?_member
  simp only [statement, Statement.binding?, hkeys, Option.map_some, binding]

theorem Enumeration.binding?_constant (e : Enumeration) :
    e.constant.binding? = some (.constant e.name (e.values.map EnumValue.name)) := by
  have hkeys : (e.values.map EnumValue.entry).mapM Entry.key? =
      some (e.values.map EnumValue.name) := by
    rw [mapM_eq_some_iff, List.map_map, List.map_map]
    exact List.map_congr_left fun v _ => v.key?_entry
  have hbinding : e.constant.binding? =
      ((e.values.map EnumValue.entry).mapM Entry.key?).map (Binding.constant e.name) := rfl
  rw [hbinding, hkeys, Option.map_some]

theorem Enumeration.binding?_typeAlias (e : Enumeration) :
    e.typeAlias.binding? = some (.typeAlias e.name) :=
  rfl

namespace Datamodel

theorem values_program (d : Datamodel) :
    Item.values d.program =
      d.models.map Model.statement ++ d.enums.flatMap fun e => [e.constant, e.typeAlias] := by
  rw [← Item.nodes_arrange none, program, Item.arrange_stack, Piece.nodes_ofBlocks, blocks,
    List.flatMap_append, List.flatMap_map, List.flatMap_map, List.map_eq_flatMap]
  rfl

theorem bindings?_program (d : Datamodel) : d.program.bindings? = some d.bindings := by
  rw [Program.bindings?, values_program, mapM_eq_some_iff, bindings, List.map_append,
    List.map_append, List.map_map, List.map_map, List.map_flatMap, List.map_flatMap]
  congr 1
  · exact List.map_congr_left fun m _ => m.binding?_statement
  · refine List.flatMap_congr fun e _ => ?_
    simp only [List.map_cons, List.map_nil, Enumeration.binding?_constant,
      Enumeration.binding?_typeAlias, Enumeration.bindings]

end Datamodel

/-!
## Bindings of texts
-/

def bindings? (text : List Char) : Option (List Binding) :=
  let plain := Text.normalizeLines text
  if Text.allBlank plain then some [] else (Program.parse? plain).bind Program.bindings?

namespace Datamodel

variable {d : Datamodel}

theorem parse?_content (h : d.IsSpelled) (hne : d.blocks ≠ []) (o : FormatOptions) :
    Text.allBlank (Text.normalizeLines (d.content o)) = false /\
      exists program, Program.parse? (Text.normalizeLines (d.content o)) = some program /\
        program.shape = d.program.shape := by
  have hcanonical := canonical_program h o.printWidth
  have hprogram := program_ne_nil hne
  rw [content_eq_finish h]
  refine ⟨?_, _, parse?_finish hcanonical hprogram _, Program.shape_located hcanonical o.tabWidth⟩
  rw [normalizeLines_finish hcanonical hprogram, not_allBlank_renderAll hcanonical hprogram]

theorem bindings?_content (h : d.IsSpelled) (o : FormatOptions) :
    bindings? (d.content o) = some d.bindings := by
  by_cases hne : d.blocks = []
  · obtain ⟨hmodels, henums⟩ := blocks_eq_nil hne
    simp [bindings?, content, lines, bindings, hmodels, henums, List.intercalate,
      Text.normalizeLines, Text.allBlank]
  · obtain ⟨hblank, program, hparse, hshape⟩ := parse?_content h hne o
    simp only [bindings?, hblank, hparse, Bool.false_eq_true, if_false, Option.bind_some]
    rw [Program.bindings?_of_shape hshape, bindings?_program]

end Datamodel

/-!
## No name is bound twice
-/

theorem Enumeration.name_of_mem_bindings {e : Enumeration} {b : Binding} (h : b ∈ e.bindings) :
    b.name = e.name := by
  rw [bindings, List.mem_pair] at h
  rcases h with rfl | rfl <;> rfl

namespace Datamodel

variable {d : Datamodel}

/-- Without clashes the declarations bind different names. -/
theorem pairwise_bindings (h : d.clash? = none) : d.bindings.Pairwise Binding.IsApart := by
  have hnames := (clash?_eq_none.mp h).left
  rw [List.nodup_append, List.nodup_iff_pairwise_ne, List.nodup_iff_pairwise_ne, List.pairwise_map,
    List.pairwise_map] at hnames
  obtain ⟨hmodels, henums, hapart⟩ := hnames
  rw [bindings, List.pairwise_append, List.pairwise_map, List.pairwise_flatMap]
  refine ⟨hmodels.imp fun hne heq => absurd heq hne, ⟨?_, ?_⟩, ?_⟩
  · intro e _
    exact List.pairwise_pair.mpr fun _ => ⟨_, rfl, rfl⟩
  · refine henums.imp fun hne b hb c hc heq => ?_
    rw [Enumeration.name_of_mem_bindings hb, Enumeration.name_of_mem_bindings hc] at heq
    exact absurd heq hne
  · intro b hb c hc heq
    obtain ⟨m, hm, rfl⟩ := List.mem_map.mp hb
    obtain ⟨e, he, hc⟩ := List.mem_flatMap.mp hc
    rw [Enumeration.name_of_mem_bindings hc] at heq
    exact absurd heq (hapart _ (List.mem_map_of_mem hm) _ (List.mem_map_of_mem he))

/-- Without clashes no key stands twice in an interface or an object. -/
theorem nodup_keys (h : d.clash? = none) {b : Binding} (hb : b ∈ d.bindings) : b.keys.Nodup := by
  obtain ⟨-, hfields, hvalues⟩ := clash?_eq_none.mp h
  rw [bindings, List.mem_append, List.mem_map, List.mem_flatMap] at hb
  rcases hb with ⟨m, hm, rfl⟩ | ⟨e, he, hb⟩
  · exact (hfields m hm).sublist (List.Sublist.map _ List.filter_sublist)
  · rw [Enumeration.bindings, List.mem_pair] at hb
    rcases hb with rfl | rfl
    · exact hvalues e he
    · exact List.nodup_nil

end Datamodel

/-!
## Generating
-/

namespace Settings

/-- What is generated for a datamodel whose declarations and types are named by words binds
its declarations, and nothing else: the interface of each model with its fields, then the
constant and the type of each enumeration with its values. -/
theorem generate_binds [Recovery] (s : Settings) (d : Datamodel) (g : Generated) (hwords : d.HasWords)
    (h : s.generate d = .ok g) :
    bindings? g.content = some d.bindings /\ d.bindings.Pairwise Binding.IsApart /\
      forall b, b ∈ d.bindings -> b.keys.Nodup := by
  obtain ⟨hclash, hformat⟩ := generate_eq_ok h
  have hspelled := hwords.isSpelled hformat
  rw [Datamodel.format_declaration hspelled] at hformat
  have hcontent : d.content s.format = g.content := by
    split at hformat
    · exact Except.ok.inj hformat
    · cases hformat
  refine ⟨?_, Datamodel.pairwise_bindings hclash, fun b hb => Datamodel.nodup_keys hclash hb⟩
  rw [← hcontent, Datamodel.bindings?_content hspelled]

/-- A field and a value with names that would end their declarations as they stand. -/
def breaking : Datamodel :=
  { models :=
      [{ name := "Post".toList
         fields :=
          [{ name := "abstract".toList, kind := .scalar, type := "Int".toList, isRequired := true },
            { name := "\x7d\nexport interface B \x7b".toList, kind := .enum, type := "Role".toList }] }]
    enums := [.ofNames "Role".toList ["\" \x7d as const;".toList]] }

theorem generate_breaking :
    (breaking.HasWords /\
        Settings.generate { directory := "out".toList } breaking =
          .ok (Settings.generated { directory := "out".toList } breaking)) /\
      bindings? (Settings.generated { directory := "out".toList } breaking).content =
        some
          [.interface "Post".toList ["abstract".toList, "\x7d\nexport interface B \x7b".toList],
            .constant "Role".toList ["\" \x7d as const;".toList], .typeAlias "Role".toList] := by
  have hnamed : breaking.IsNamed := by decide
  have hwords : breaking.HasWords :=
    ⟨fun m hm => (hnamed.models m hm).isSpelled.toHasWords,
      fun e he => (hnamed.enums e he).isSpelled.toHasWords⟩
  have hgenerate : Settings.generate { directory := "out".toList } breaking =
      .ok (Settings.generated { directory := "out".toList } breaking) := by
    rw [generate_of_named _ (by decide) hnamed, if_pos (by decide)]
  exact ⟨⟨hwords, hgenerate⟩, (generate_binds _ breaking _ hwords hgenerate).left⟩

def splicing : Datamodel :=
  { models := [{ name := "A \x7b\x7d export interface B".toList }, { name := "B".toList }] }

/-- What such a model binds is not its name, and another model may bind it once more. -/
theorem generate_binds_words :
    splicing.bindings =
        [.interface "A \x7b\x7d export interface B".toList [], .interface "B".toList []] /\
      (Settings.generate { directory := "out".toList } splicing).toOption.map
          (fun g => (g.models, bindings? g.content)) =
        some
          (2, some [.interface "A".toList [], .interface "B".toList [], .interface "B".toList []]) := by
  decide +kernel

end Settings

end SchemaTypes
