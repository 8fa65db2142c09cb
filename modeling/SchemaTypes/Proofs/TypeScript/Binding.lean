import SchemaTypes.Proofs.TypeScript.Stacking
import SchemaTypes.Proofs.TypeScript.ProgramReading

/-!
# What programs bind

An exported interface binds a name with the keys of its members, an exported constant
object one with the keys of its entries, and an exported type one without keys.  Keys are
taken as the texts that they stand for.  Programs of one shape have the same bindings.
-/

namespace SchemaTypes

theorem mapM_eq_some_iff {α β : Type} {f : α -> Option β} {as : List α} {bs : List β} :
    as.mapM f = some bs <-> as.map f = bs.map some := by
  induction as generalizing bs with
  | nil => cases bs <;> simp
  | cons a rest ih =>
      rw [List.mapM_cons, List.map_cons]
      cases bs with
      | nil => cases f a <;> cases rest.mapM f <;> simp
      | cons b bs =>
          rw [List.map_cons, List.cons.injEq, ← ih]
          cases f a <;> cases rest.mapM f <;> simp

namespace TypeScript

/-!
## Keys
-/

namespace Quoted

/-- The characters that are escaped by a letter or by themselves. -/
def escapes : List (Char × Char) :=
  [('n', '\n'), ('r', '\r'), ('t', '\t'), ('b', '\x08'), ('v', '\x0b'), ('f', '\x0c'), ('"', '"'),
    ('\'', '\''), ('\\', '\\')]

def Piece.char? : Piece -> Option Char
  | plain c => some c
  | escape [c] => escapes.lookup c
  | escape _ => none

/-- The text that a literal stands for, if no character in it is escaped by number. -/
def decode? (s : List Char) : Option (List Char) :=
  (pieces? s).bind fun ps => ps.mapM Piece.char?

end Quoted

/-- The key that a name stands for.  Numbers and computed names are given none. -/
def PropertyName.key? (n : PropertyName) : Option (List Char) :=
  if n.quoted then Quoted.decode? n.text
  else if isPlainWord n.text then some n.text
  else none

def MemberPiece.key? : MemberPiece -> Option (List Char)
  | name n => n.key?
  | _ => none

def Member.key? : Member -> Option (List Char)
  | property pieces => pieces.findSome? MemberPiece.key?
  | text _ => none

def Entry.key? : Entry -> Option (List Char)
  | pair key _ => key.key?
  | _ => none

/-!
## Bindings
-/

inductive Binding where
  | interface (name : List Char) (keys : List (List Char))
  | constant (name : List Char) (keys : List (List Char))
  | typeAlias (name : List Char)
  deriving DecidableEq, Repr

namespace Binding

def name : Binding -> List Char
  | interface name _ => name
  | constant name _ => name
  | typeAlias name => name

def keys : Binding -> List (List Char)
  | interface _ keys => keys
  | constant _ keys => keys
  | typeAlias _ => []

/-- One name is bound twice only where a constant has a type of its own name. -/
def IsApart (a b : Binding) : Prop :=
  a.name = b.name -> exists keys, a = .constant a.name keys /\ b = .typeAlias a.name

end Binding

def Item.values {α : Type} (items : List (Item α)) : List α :=
  items.filterMap fun
    | .comment _ => none
    | .node _ _ a => some a

theorem Item.nodes_arrange {α : Type} (last? : Option Nat) (items : List (Item α)) :
    Piece.nodes (arrange last? items) = values items := by
  induction items generalizing last? with
  | nil => rfl
  | cons item rest ih =>
      cases item with
      | node row endRow a => exact congrArg (a :: ·) (ih (some endRow))
      | comment c =>
          rw [arrange, piece]
          split <;> exact ih (some c.endRow)

theorem Item.values_of_arrange {α : Type} {last? : Option Nat} {items others : List (Item α)}
    (h : arrange last? items = arrange last? others) : values items = values others := by
  rw [← nodes_arrange last?, h, nodes_arrange]

namespace Statement

/-- What a statement binds, if it is an exported interface, an exported type or an exported
constant with an object for its value. -/
def binding? : Statement -> Option Binding
  | .interface exported name parameters parents exact members =>
      match exported, parameters, parents, exact with
      | some ⟨false, false⟩, [], none, false =>
          ((Item.values members).mapM Member.key?).map (Binding.interface name)
      | _, _, _, _ => none
  | .typeAlias (some ⟨false, false⟩) name [] _ => some (.typeAlias name)
  | .lexical (some ⟨false, false⟩) ['c', 'o', 'n', 's', 't']
      [⟨name, false, none, some (.ascription (.object entries) .constant)⟩] =>
      (entries.mapM Entry.key?).map (Binding.constant name)
  | _ => none

theorem binding?_of_shape {s t : Statement} (h : s.shape = t.shape) : s.binding? = t.binding? := by
  rcases shape_cases h with rfl |
    ⟨exported, name, parameters, parents, closed, members, others, rfl, rfl, harrange⟩
  · rfl
  · have hvalues := Item.values_of_arrange harrange
    simp only [binding?, hvalues]

end Statement

namespace Program

/-- What is read from the statements of a program depends on its shape only, if what is read
from each statement does. -/
theorem mapM_values_of_shape {α : Type} {f : Statement -> Option α}
    (hf : forall {s t : Statement}, s.shape = t.shape -> f s = f t) {program other : Program}
    (h : program.shape = other.shape) :
    (Item.values program).mapM f = (Item.values other).mapM f := by
  have hpieces := Piece.list_map_eq_of_map_eq (fun _ _ => hf) h
  have hvalues := congrArg Piece.nodes hpieces
  rw [Piece.nodes_map, Piece.nodes_map, Item.nodes_arrange, Item.nodes_arrange] at hvalues
  refine Option.ext fun answers => ?_
  rw [mapM_eq_some_iff, mapM_eq_some_iff, hvalues]

def bindings? (program : Program) : Option (List Binding) :=
  (Item.values program).mapM Statement.binding?

theorem bindings?_of_shape {program other : Program} (h : program.shape = other.shape) :
    program.bindings? = other.bindings? :=
  mapM_values_of_shape Statement.binding?_of_shape h

end Program

end TypeScript
end SchemaTypes
