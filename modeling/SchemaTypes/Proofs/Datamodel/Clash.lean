import Mathlib.Data.List.Nodup
import SchemaTypes.Datamodel.Clash

/-!
# Datamodels without clashes

A datamodel has no clash just where its declarations have distinct names, and where the
fields of each model and the values of each enumeration have.
-/

namespace SchemaTypes

theorem firstRepeated_eq_none {seen names : List (List Char)} :
    firstRepeated seen names = none <-> names.Nodup /\ forall name, name ∈ names -> name ∉ seen := by
  induction names generalizing seen with
  | nil => simp [firstRepeated]
  | cons name rest ih =>
      rw [firstRepeated, List.nodup_cons, List.forall_mem_cons]
      by_cases hseen : name ∈ seen
      · simp [hseen]
      · rw [if_neg hseen, ih]
        constructor
        · rintro ⟨hrest, hfresh⟩
          refine ⟨⟨fun hmem => hfresh name hmem List.mem_cons_self, hrest⟩, hseen, ?_⟩
          exact fun other hmem hold => hfresh other hmem (List.mem_cons_of_mem _ hold)
        · rintro ⟨⟨hname, hrest⟩, -, hfresh⟩
          refine ⟨hrest, fun other hmem hold => ?_⟩
          rcases List.mem_cons.mp hold with rfl | hold
          · exact hname hmem
          · exact hfresh other hmem hold

theorem firstRepeated_nil_eq_none {names : List (List Char)} :
    firstRepeated [] names = none <-> names.Nodup := by
  simp [firstRepeated_eq_none]

theorem Model.clash?_eq_none {m : Model} : m.clash? = none <-> (m.fields.map Field.name).Nodup := by
  rw [clash?, Option.map_eq_none_iff, firstRepeated_nil_eq_none]

theorem Enumeration.clash?_eq_none {e : Enumeration} :
    e.clash? = none <-> (e.values.map EnumValue.name).Nodup := by
  rw [clash?, Option.map_eq_none_iff, firstRepeated_nil_eq_none]

namespace Datamodel

theorem firstClash_eq_none {seen : List (List Char)} {named : List (List Char × Option Clash)} :
    firstClash seen named = none <->
      firstRepeated seen (named.map Prod.fst) = none /\ forall c, c ∈ named -> c.2 = none := by
  induction named generalizing seen with
  | nil => simp [firstClash, firstRepeated]
  | cons c rest ih =>
      obtain ⟨name, inside⟩ := c
      rw [firstClash.eq_def, List.map_cons, firstRepeated, List.forall_mem_cons]
      by_cases hseen : name ∈ seen
      · simp [hseen]
      · simp only [if_neg hseen]
        cases inside with
        | some clash => simp
        | none => simpa using ih

theorem clash?_eq_none {d : Datamodel} :
    d.clash? = none <->
      (d.models.map Model.name ++ d.enums.map Enumeration.name).Nodup /\
        (forall m, m ∈ d.models -> (m.fields.map Field.name).Nodup) /\
        forall e, e ∈ d.enums -> (e.values.map EnumValue.name).Nodup := by
  have hnames : d.namedClashes.map Prod.fst =
      d.models.map Model.name ++ d.enums.map Enumeration.name := by
    rw [namedClashes, List.map_append, List.map_map, List.map_map]
    rfl
  rw [clash?, firstClash_eq_none, hnames, firstRepeated_nil_eq_none, namedClashes,
    List.forall_mem_append, List.forall_mem_map, List.forall_mem_map]
  simp only [Model.clash?_eq_none, Enumeration.clash?_eq_none]

end Datamodel
end SchemaTypes
