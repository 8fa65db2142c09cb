import SchemaTypes.Proofs.Format.Stability
import SchemaTypes.Proofs.Json.OneLine
import SchemaTypes.Proofs.Text.Joining

/-!
# Faults of sources

A fault is looked for from the root of a tree down, and a node that is not marked as one with
an error is passed over with all that is below it.  Where the marks are right, the fault found
is the first of all nodes.  A failed formatting tells the place of one node on one line.
-/

namespace SchemaTypes
namespace TypeScript
namespace SourceTree

/-!
## The nodes of a tree

The nodes stand in the order in which the places they take up begin.
-/

mutual

def nodes : SourceTree -> List NodeInfo
  | node info children => info :: nodesOf children

def nodesOf : List SourceTree -> List NodeInfo
  | [] => []
  | t :: rest => t.nodes ++ nodesOf rest

end

/-- Every node that is a fault, or has one below it, is marked as a node with an error. -/
inductive IsMarked : SourceTree -> Prop where
  | node {info : NodeInfo} {children : List SourceTree}
      (hmark : forall n, n ∈ (SourceTree.node info children).nodes -> n.isFault = true ->
        info.hasError = true)
      (h : forall t, t ∈ children -> IsMarked t) : IsMarked (.node info children)

theorem info_mem_nodes (t : SourceTree) : t.info ∈ t.nodes := by
  cases t with
  | node info children => exact List.mem_cons_self

/-!
## The fault that is found
-/

mutual

theorem of_firstFault? : forall {t : SourceTree} {n : NodeInfo}, t.firstFault? = some n ->
    n ∈ t.nodes /\ n.isFault = true
  | node info children, n, h => by
      rw [firstFault?] at h
      by_cases hfault : info.isFault = true
      · rw [if_pos hfault] at h
        cases h
        exact ⟨List.mem_cons_self, hfault⟩
      · rw [if_neg hfault] at h
        have hbelow := of_firstFaultAmong? h
        exact ⟨List.mem_cons_of_mem info hbelow.left, hbelow.right⟩

theorem of_firstFaultAmong? : forall {ts : List SourceTree} {n : NodeInfo},
    firstFaultAmong? ts = some n -> n ∈ nodesOf ts /\ n.isFault = true
  | [], n, h => by
      rw [firstFaultAmong?] at h
      cases h
  | node info children :: rest, n, h => by
      have hlater : firstFaultAmong? rest = some n ->
          n ∈ nodesOf (node info children :: rest) /\ n.isFault = true := by
        intro hrest
        have hfound := of_firstFaultAmong? hrest
        exact ⟨List.mem_append_right _ hfound.left, hfound.right⟩
      rw [firstFaultAmong?] at h
      split at h
      · cases hfirst : firstFault? (node info children) with
        | some fault =>
            rw [hfirst] at h
            cases h
            have hfound := of_firstFault? hfirst
            exact ⟨List.mem_append_left _ hfound.left, hfound.right⟩
        | none =>
            rw [hfirst] at h
            exact hlater h
      · exact hlater h

end

/-- No fault lies in a node that is not searched. -/
theorem IsMarked.find?_eq_none {t : SourceTree} (h : t.IsMarked)
    (hsearched : t.info.isSearched = false) : t.nodes.find? NodeInfo.isFault = none := by
  cases h with
  | node hmark _ =>
      apply List.find?_eq_none.mpr
      intro n hn hfault
      have herror := hmark n hn hfault
      rw [info, NodeInfo.isSearched, herror, Bool.true_or] at hsearched
      cases hsearched

mutual

theorem firstFault?_eq : forall {t : SourceTree}, t.IsMarked ->
    t.firstFault? = t.nodes.find? NodeInfo.isFault
  | node info children, h => by
      cases h with
      | node _ hchildren =>
          rw [firstFault?, nodes, List.find?_cons, firstFaultAmong?_eq hchildren]
          cases info.isFault <;> rfl

theorem firstFaultAmong?_eq : forall {ts : List SourceTree}, (forall t, t ∈ ts -> t.IsMarked) ->
    firstFaultAmong? ts = (nodesOf ts).find? NodeInfo.isFault
  | [], _ => by
      rw [firstFaultAmong?, nodesOf, List.find?_nil]
  | node info children :: rest, h => by
      have hmarked : (node info children).IsMarked := h _ List.mem_cons_self
      have hrest := firstFaultAmong?_eq fun t ht => h t (List.mem_cons_of_mem _ ht)
      rw [nodesOf, List.find?_append, firstFaultAmong?, hrest, firstFault?_eq hmarked]
      cases hsearched : info.isSearched with
      | true =>
          rw [if_pos rfl]
          cases (node info children).nodes.find? NodeInfo.isFault <;> rfl
      | false =>
          rw [hmarked.find?_eq_none hsearched]
          rfl

end

theorem fault_mem_nodes (t : SourceTree) : t.fault ∈ t.nodes := by
  rw [fault]
  cases h : t.firstFault? with
  | none => exact t.info_mem_nodes
  | some n => exact (of_firstFault? h).left

/-- The fault of a tree with right marks is its first faulty node, if it has one. -/
theorem IsMarked.fault_eq {t : SourceTree} (h : t.IsMarked) :
    t.fault = (t.nodes.find? NodeInfo.isFault).getD t.info := by
  rw [fault, firstFault?_eq h]

end SourceTree

/-!
## What is told about it
-/

theorem NodeInfo.newline_not_mem_reason {n : NodeInfo} (hkind : '\n' ∉ n.kind.toList)
    (source : List Char) : '\n' ∉ (n.reason source).toList := by
  rw [reason]
  split
  · rw [String.toList_append, List.mem_append, not_or]
    exact ⟨by decide, hkind⟩
  · have hshown : '\n' ∉ Text.collapse ((n.text source).take shownLength) := by
      intro h
      rcases Text.of_mem_collapse h with h | ⟨_, h⟩
      · cases h
      · cases h
    simp only [String.toList_append, String.toList_ofList, List.mem_append, not_or]
    exact ⟨⟨by decide, hshown⟩, by decide⟩

end TypeScript

open TypeScript

theorem FormatError.newline_not_mem_message {e : FormatError} (h : '\n' ∉ e.reason.toList) :
    '\n' ∉ e.message.toList := by
  have hline := newline_not_mem_toString_nat e.line
  have hcolumn := newline_not_mem_toString_nat e.column
  unfold FormatError.message
  simp only [String.toList_append, List.mem_append, not_or]
  exact ⟨⟨⟨⟨⟨by decide, hline⟩, by decide⟩, hcolumn⟩, by decide⟩, h⟩

variable [Recovery]

theorem format_eq_failure {o : FormatOptions} {source : List Char} {e : FormatError} :
    format o source = .error (.failure e) <->
      Text.allBlank (Text.normalizeLines source) = false /\
        Program.parse? (Text.normalizeLines source) = none /\
        e = syntaxError (Text.normalizeLines source) := by
  cases hblank : Text.allBlank (Text.normalizeLines source) with
  | true => simp [format_of_blank hblank]
  | false =>
      cases hparse : Program.parse? (Text.normalizeLines source) with
      | none => simp [format_of_not_program hblank hparse, eq_comm]
      | some program =>
          rw [format_of_parse hblank hparse]
          split <;> simp

/-- A failed formatting tells the place of a node of the source, on one line if the names of
nodes are on one line. -/
theorem format_failure_told {o : FormatOptions} {source : List Char} {e : FormatError}
    (hkinds : forall n, n ∈ (Recovery.tree (Text.normalizeLines source)).nodes -> '\n' ∉ n.kind.toList)
    (h : format o source = .error (.failure e)) :
    (exists n, n ∈ (Recovery.tree (Text.normalizeLines source)).nodes /\
      e.line = n.row + 1 /\ e.column = n.column + 1) /\
    '\n' ∉ e.message.toList := by
  obtain ⟨_, _, rfl⟩ := format_eq_failure.mp h
  have hmem := (Recovery.tree (Text.normalizeLines source)).fault_mem_nodes
  constructor
  · exact ⟨_, hmem, rfl, rfl⟩
  · apply FormatError.newline_not_mem_message
    exact NodeInfo.newline_not_mem_reason (hkinds _ hmem) _

end SchemaTypes
