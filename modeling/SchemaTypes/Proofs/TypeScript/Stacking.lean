import SchemaTypes.Proofs.TypeScript.Rearrangement

/-!
# Stacks of nodes

Blocks of nodes stand one below the other without comments, with one empty line between
blocks.
-/

namespace SchemaTypes
namespace TypeScript

variable {α : Type}

/-- Nodes with nothing left free between them, at least one. -/
abbrev Block (α : Type) := α × List α

def Block.toList (b : Block α) : List α :=
  b.1 :: b.2

namespace Piece

/-- The pieces of blocks, with a row left free in front of all but perhaps the first. -/
def ofBlocks (apart : Bool) : List (Block α) -> List (Piece α)
  | [] => []
  | g :: rest => node apart g.1 :: g.2.map (node false) ++ ofBlocks true rest

@[simp] theorem nodes_cons_node (apart : Bool) (a : α) (ps : List (Piece α)) :
    nodes (node apart a :: ps) = a :: nodes ps :=
  rfl

theorem nodes_append (ps qs : List (Piece α)) : nodes (ps ++ qs) = nodes ps ++ nodes qs :=
  List.filterMap_append

theorem nodes_map {β : Type} (f : α -> β) (ps : List (Piece α)) :
    nodes (ps.map (map f)) = (nodes ps).map f := by
  rw [nodes, List.filterMap_map, nodes, List.map_filterMap]
  congr 1
  funext p
  cases p <;> rfl

theorem nodes_map_nodes {β : Type} (apart : β -> Bool) (f : β -> α) (bs : List β) :
    nodes (bs.map fun b => node (apart b) (f b)) = bs.map f := by
  induction bs with
  | nil => rfl
  | cons b rest ih => exact congrArg (f b :: ·) ih

theorem nodes_map_node (as : List α) : nodes (as.map (node false)) = as :=
  (nodes_map_nodes (fun _ => false) id as).trans (List.map_id as)

@[simp] theorem nodes_ofBlocks (apart : Bool) (blocks : List (Block α)) :
    nodes (ofBlocks apart blocks) = blocks.flatMap Block.toList := by
  induction blocks generalizing apart with
  | nil => rfl
  | cons g rest ih =>
      rw [ofBlocks, List.cons_append, nodes_cons_node, nodes_append, nodes_map_node, ih,
        List.flatMap_cons]
      rfl

theorem eq_node_of_mem_ofBlocks {apart : Bool} {blocks : List (Block α)} {p : Piece α}
    (h : p ∈ ofBlocks apart blocks) : exists free a, p = node free a := by
  induction blocks generalizing apart with
  | nil => cases h
  | cons g rest ih =>
      rw [ofBlocks, List.cons_append, List.mem_cons, List.mem_append, List.mem_map] at h
      rcases h with rfl | ⟨a, -, rfl⟩ | hrest
      · exact ⟨_, _, rfl⟩
      · exact ⟨_, _, rfl⟩
      · exact ih hrest

theorem texts_of_nodes {ps : List (Piece α)} (h : forall p, p ∈ ps -> exists free a, p = node free a) :
    texts ps = [] := by
  induction ps with
  | nil => rfl
  | cons p rest ih =>
      obtain ⟨free, a, rfl⟩ := h p List.mem_cons_self
      exact ih fun q hq => h q (List.mem_cons_of_mem _ hq)

theorem areSound_of_nodes {ps : List (Piece α)}
    (h : forall p, p ∈ ps -> exists free a, p = node free a) : areSound ps = true := by
  induction ps with
  | nil => rfl
  | cons p rest ih =>
      obtain ⟨free, a, rfl⟩ := h p List.mem_cons_self
      exact ih fun q hq => h q (List.mem_cons_of_mem _ hq)

theorem opens_ofBlocks (blocks : List (Block α)) : Opens (ofBlocks false blocks) := by
  intro p hp
  cases blocks with
  | nil => cases hp
  | cons g rest =>
      rw [ofBlocks, List.cons_append, List.head?_cons, Option.some.injEq] at hp
      rw [← hp]
      rfl

end Piece

namespace Item

def stack (blocks : List (Block α)) : List (Item α) :=
  Piece.placed ['\n'] (fun _ => 0) (fun _ a => a) [] 0 (Piece.ofBlocks false blocks)

@[simp] theorem arrange_stack (blocks : List (Block α)) :
    arrange none (stack blocks) = Piece.ofBlocks false blocks := by
  have htexts : forall s, s ∈ Piece.texts (Piece.ofBlocks false blocks) -> Text.trim s = s := by
    rw [Piece.texts_of_nodes fun p hp => Piece.eq_node_of_mem_ofBlocks hp]
    intro s hs
    cases hs
  have harrange : (arrange none (stack blocks)).map (Piece.map id) =
      (Piece.ofBlocks false blocks).map (Piece.map id) :=
    Piece.arrange_placed rfl (Piece.opens_ofBlocks blocks) (fun _ _ _ => rfl) htexts [] 0
  rwa [Piece.map_id, List.map_id, List.map_id] at harrange

theorem stack_ne_nil {blocks : List (Block α)} (h : blocks ≠ []) : stack blocks ≠ [] := by
  cases blocks with
  | nil => exact absurd rfl h
  | cons g rest => exact List.cons_ne_nil _ _

theorem set_nodes (depth : Nat) (print : α -> List Line) (as : List α) (lines : List Line) :
    (as.map (Piece.node false)).foldl (Piece.set depth print) lines = lines ++ as.flatMap print := by
  induction as generalizing lines with
  | nil => simp
  | cons a rest ih =>
      rw [List.map_cons, List.foldl_cons, ih, List.flatMap_cons]
      simp [Piece.set]

theorem set_blocks (depth : Nat) (print : α -> List Line) (blocks : List (Block α))
    (lines : List Line) :
    (Piece.ofBlocks true blocks).foldl (Piece.set depth print) lines =
      lines ++ blocks.flatMap fun g => Line.blank :: g.toList.flatMap print := by
  induction blocks generalizing lines with
  | nil => simp [Piece.ofBlocks]
  | cons g rest ih =>
      rw [Piece.ofBlocks, List.foldl_append, List.foldl_cons, set_nodes, ih, List.flatMap_cons]
      simp [Piece.set, Block.toList]

theorem intercalate_cons {β : Type} (separator first : List β) (rest : List (List β)) :
    List.intercalate separator (first :: rest) = first ++ rest.flatMap (separator ++ ·) := by
  induction rest generalizing first with
  | nil => simp [List.intercalate]
  | cons second rest ih =>
      have hrest := ih second
      rw [List.intercalate] at hrest ⊢
      rw [List.intersperse_cons_cons, List.flatten_cons, List.flatten_cons, hrest, List.flatMap_cons]
      simp

theorem layout_stack (depth : Nat) (print : α -> List Line) (blocks : List (Block α)) :
    layout depth print (stack blocks) =
      List.intercalate [Line.blank] (blocks.map fun g => g.toList.flatMap print) := by
  rw [layout_eq, arrange_stack]
  cases blocks with
  | nil => rfl
  | cons g rest =>
      rw [Piece.ofBlocks, List.foldl_append, List.foldl_cons, set_nodes, set_blocks, List.map_cons,
        intercalate_cons, List.flatMap_map]
      simp [Piece.set, Block.toList]

end Item

end TypeScript
end SchemaTypes
