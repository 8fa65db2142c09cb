import SchemaTypes.Proofs.TypeScript.ItemReading

/-!
# Items in any layout

Items are arranged by the line ends between them alone: a row is left free in front of an
item where two line ends stand behind the item before it.
-/

namespace SchemaTypes
namespace TypeScript

namespace Lexeme

def lead : List Lexeme -> List Char
  | [] => []
  | l :: _ => l.gap.text

@[simp] theorem lead_cons (l : Lexeme) (ls : List Lexeme) : lead (l :: ls) = l.gap.text :=
  rfl

end Lexeme

structure Neighbor (α : Type) where
  /-- What stands between the two, in front of the lexemes of the value. -/
  between : List Lexeme
  /-- A row is left free between the two. -/
  apart : Bool
  value : α
  lexemes : List Lexeme

namespace Neighbor

variable {α : Type}

def lexemesOf (ns : List (Neighbor α)) : List Lexeme :=
  ns.flatMap fun n => n.between ++ n.lexemes

/-- The line ends in front of the value are those that its place asks for. -/
def Stands (n : Neighbor α) : Prop :=
  n.apart = decide (1 < Lexeme.rows n.between + Text.lineFeeds (Lexeme.lead n.lexemes))

def flagged (n : Neighbor α) : Bool × α :=
  (n.apart, n.value)

def item {β : Type} (row : Nat) (n : Neighbor α) (b : β) : Item β :=
  .node (row + Lexeme.rows n.between + Text.lineFeeds (Lexeme.lead n.lexemes))
    (row + Lexeme.rows (n.between ++ n.lexemes)) b

theorem piece_item {β : Type} {n : Neighbor α} (h : n.Stands) (row : Nat) (b : β) :
    (n.item row b).piece (some row) = .node n.apart b := by
  rw [Stands] at h
  rw [item, Item.piece, Item.isApart, Option.any_some, h, Nat.add_assoc]
  simp only [Nat.add_lt_add_iff_left]

@[simp] theorem lexemesOf_cons (n : Neighbor α) (ns : List (Neighbor α)) :
    lexemesOf (n :: ns) = n.between ++ n.lexemes ++ lexemesOf ns :=
  rfl

theorem length_le_lexemesOf {ns : List (Neighbor α)} (h : forall n, n ∈ ns -> n.lexemes ≠ []) :
    ns.length ≤ (lexemesOf ns).length := by
  induction ns with
  | nil => exact Nat.zero_le _
  | cons n ns ih =>
      have hmore := ih fun m hm => h m (List.mem_cons_of_mem n hm)
      have hfirst := List.length_pos_iff.mpr (h n List.mem_cons_self)
      simp only [lexemesOf_cons, List.length_cons, List.length_append]
      omega

theorem length_le_of_mem {n : Neighbor α} {ns : List (Neighbor α)} (h : n ∈ ns) :
    n.lexemes.length ≤ (lexemesOf ns).length := by
  induction ns with
  | nil => cases h
  | cons m ns ih =>
      simp only [lexemesOf_cons, List.length_append]
      rcases List.mem_cons.mp h with rfl | hmem
      · omega
      · have hle := ih hmem
        omega

end Neighbor

namespace Parser

open Neighbor

section

variable {α β γ : Type} (ends : List Token -> Prop) (q : Parser (List (Item β))) (shape : β -> γ)
  (expected : α -> γ)

/-- The parser reads a value with what stands in front of it as one item of an expected
shape, on the rows where its lexemes stand. -/
def ReadsNeighbor (n : Neighbor α) : Prop :=
  forall (row : Nat) (rest : List Token), ends rest -> exists b, shape b = expected n.value /\
    q.run (Lexeme.place row (n.between ++ n.lexemes) ++ rest) =
      some ([n.item row b], rest)

variable {ends q shape expected}

theorem ends_lexemesOf {ns : List (Neighbor α)}
    (hends : forall n, n ∈ ns -> forall row rest,
      ends (Lexeme.place row (n.between ++ n.lexemes) ++ rest))
    {rest : List Token} (hrest : ends rest) (row : Nat) :
    ends (Lexeme.place row (lexemesOf ns) ++ rest) := by
  cases ns with
  | nil => exact hrest
  | cons n ns =>
      rw [lexemesOf_cons, Lexeme.place_append, List.append_assoc]
      exact hends n List.mem_cons_self row _

theorem run_neighbors {ns : List (Neighbor α)} {rest : List Token}
    (hread : forall n, n ∈ ns -> ReadsNeighbor ends q shape expected n)
    (hstands : forall n, n ∈ ns -> n.Stands)
    (hends : forall n, n ∈ ns -> forall row rest,
      ends (Lexeme.place row (n.between ++ n.lexemes) ++ rest))
    (hrest : ends rest) (hnone : q.run rest = none) {fuel : Nat} (hfuel : ns.length ≤ fuel)
    (row : Nat) :
    exists chunks, (manyFrom q fuel).run (Lexeme.place row (lexemesOf ns) ++ rest) =
        some (chunks, rest) /\
      (Item.arrange (some row) chunks.flatten).map (Piece.map shape) =
        ns.map fun n => .node n.apart (expected n.value) := by
  induction ns generalizing row fuel with
  | nil => exact ⟨[], run_manyFrom_nil hnone fuel, rfl⟩
  | cons n ns ih =>
      obtain ⟨fuel, rfl⟩ : exists m, fuel = m + 1 :=
        ⟨fuel - 1, by simp only [List.length_cons] at hfuel; omega⟩
      obtain ⟨chunks, hmore, harrange⟩ := ih (fun m hm => hread m (List.mem_cons_of_mem n hm))
        (fun m hm => hstands m (List.mem_cons_of_mem n hm))
        (fun m hm => hends m (List.mem_cons_of_mem n hm)) (Nat.le_of_succ_le_succ hfuel)
        (row + Lexeme.rows (n.between ++ n.lexemes))
      obtain ⟨b, hb, hfirst⟩ := hread n List.mem_cons_self row _
        (ends_lexemesOf (fun m hm => hends m (List.mem_cons_of_mem n hm)) hrest
          (row + Lexeme.rows (n.between ++ n.lexemes)))
      refine ⟨[n.item row b] :: chunks, ?_, ?_⟩
      · rw [lexemesOf_cons, Lexeme.place_append, List.append_assoc]
        exact run_manyFrom_cons hfirst hmore
      · rw [List.flatten_cons, List.singleton_append, Item.arrange, List.map_cons, List.map_cons,
          piece_item (hstands n List.mem_cons_self), Piece.map, hb, ← harrange]
        rfl

end

end Parser
end TypeScript
end SchemaTypes
