import SchemaTypes.Proofs.TypeScript.Binding

/-!
# What programs refer to

The type of a member is built from one name, which may be repeated or stand beside null.
The name stands for the type that the program binds under it, if there is one, and for a
type from elsewhere if there is none.  Programs of one shape have the same references.
-/

namespace SchemaTypes
namespace TypeScript

def TypeTree.base? : TypeTree -> Option (List Char)
  | text name => some name
  | array (text name) => some name
  | union (text name :: _) => some name
  | _ => none

def MemberPiece.base? : MemberPiece -> Option (List Char)
  | declared t => t.base?
  | _ => none

def Member.base? : Member -> Option (List Char)
  | property pieces => pieces.findSome? MemberPiece.base?
  | text _ => none

/-!
## References
-/

/-- A member of an interface refers to a type by its name. -/
structure Reference where
  interface : List Char
  key : List Char
  type : List Char
  deriving DecidableEq, Repr

def Member.reference? (interface : List Char) (member : Member) : Option Reference :=
  member.key?.bind fun key => member.base?.map fun type => ⟨interface, key, type⟩

namespace Statement

def references? : Statement -> Option (List Reference)
  | .interface _ name _ _ _ members => (Item.values members).mapM (Member.reference? name)
  | _ => some []

theorem references?_of_shape {s t : Statement} (h : s.shape = t.shape) :
    s.references? = t.references? := by
  rcases shape_cases h with rfl |
    ⟨exported, name, parameters, parents, closed, members, others, rfl, rfl, harrange⟩
  · rfl
  · rw [references?, references?, Item.values_of_arrange harrange]

end Statement

namespace Program

def references? (program : Program) : Option (List Reference) :=
  ((Item.values program).mapM Statement.references?).map List.flatten

theorem references?_of_shape {program other : Program} (h : program.shape = other.shape) :
    program.references? = other.references? := by
  rw [references?, references?, mapM_values_of_shape Statement.references?_of_shape h]

end Program

/-!
## What names stand for
-/

theorem find?_eq_some_of_unique {α : Type} {p : α -> Bool} {as : List α} {a : α} (ha : a ∈ as)
    (hp : p a = true) (hunique : forall b, b ∈ as -> p b = true -> b = a) :
    as.find? p = some a := by
  cases hfind : as.find? p with
  | none => exact absurd hp (List.find?_eq_none.mp hfind a ha)
  | some b => rw [hunique b (List.mem_of_find?_eq_some hfind) (List.find?_some hfind)]

namespace Reference

def typeAt? (refs : List Reference) (interface key : List Char) : Option (List Char) :=
  (refs.find? fun r => r.interface == interface && r.key == key).map Reference.type

theorem typeAt?_eq_some {refs : List Reference} {r : Reference} (hr : r ∈ refs)
    (hunique : forall other, other ∈ refs -> other.interface = r.interface -> other.key = r.key ->
      other = r) : typeAt? refs r.interface r.key = some r.type := by
  rw [typeAt?, find?_eq_some_of_unique hr (by simp), Option.map_some]
  intro other hother hsame
  rw [Bool.and_eq_true, beq_iff_eq, beq_iff_eq] at hsame
  exact hunique other hother hsame.left hsame.right

end Reference

namespace Binding

def isType : Binding -> Bool
  | interface _ _ => true
  | constant _ _ => false
  | typeAlias _ => true

def typeNamed? (bs : List Binding) (name : List Char) : Option Binding :=
  bs.find? fun b => b.isType && b.name == name

theorem typeNamed?_eq_some {bs : List Binding} {b : Binding} (hb : b ∈ bs) (htype : b.isType = true)
    (hunique : forall other, other ∈ bs -> other.isType = true -> other.name = b.name -> other = b) :
    typeNamed? bs b.name = some b := by
  refine find?_eq_some_of_unique hb (by simp [htype]) ?_
  intro other hother hsame
  rw [Bool.and_eq_true, beq_iff_eq] at hsame
  exact hunique other hother hsame.left hsame.right

end Binding

end TypeScript
end SchemaTypes
