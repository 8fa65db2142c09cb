import SchemaTypes.Proofs.TypeScript.Rearrangement

/-!
# Reading items

The items of an arrangement are read one after the other, each with the comments in front
of it.
-/

namespace SchemaTypes
namespace TypeScript

/-!
## Comments of gaps
-/

namespace Gap

def placedComments (row : Nat) : List (List Char × List Char) -> List Comment
  | [] => []
  | (b, c) :: rest =>
      ⟨c, row + Text.lineFeeds b⟩ ::
        placedComments (row + Text.lineFeeds b + Text.lineFeeds c) rest

theorem filterMap_triviaOfBlank (s : List Char) :
    (triviaOfBlank s).filterMap Trivia.comment? = [] := by
  cases s <;> rfl

theorem filterMap_place (row : Nat) (g : Gap) :
    (g.place row).filterMap Trivia.comment? = placedComments row g.comments := by
  have hcomments : forall (row : Nat) (cs : List (List Char × List Char)),
      (placeComments row cs).filterMap Trivia.comment? = placedComments row cs := by
    intro row cs
    induction cs generalizing row with
    | nil => rfl
    | cons c cs ih =>
        cases c with
        | mk b c =>
            simp [placeComments, placedComments, filterMap_triviaOfBlank, Trivia.comment?, ih]
  rw [place, List.filterMap_append, hcomments, filterMap_triviaOfBlank, List.append_nil]

theorem placedComments_snoc (row : Nat) (cs : List (List Char × List Char)) (b s : List Char) :
    placedComments row (cs ++ [(b, s)]) =
      placedComments row cs ++
        [⟨s, row + Text.lineFeeds (commentsText cs) + Text.lineFeeds b⟩] := by
  induction cs generalizing row with
  | nil => simp [placedComments, commentsText]
  | cons c cs ih =>
      cases c with
      | mk d c => simp [placedComments, commentsText, ih, Nat.add_assoc]

end Gap

theorem Lexeme.comments_token_eq (l : Lexeme) (row : Nat) :
    (l.token row).comments = Gap.placedComments row l.gap.comments :=
  Gap.filterMap_place row l.gap

/-!
## One item
-/

namespace Lexeme

theorem getLast?_place {ls : List Lexeme} (h : ls ≠ []) (row : Nat) :
    (place row ls).getLast?.map Token.endRow = some (row + rows ls) := by
  induction ls generalizing row with
  | nil => exact absurd rfl h
  | cons l ls ih =>
      cases ls with
      | nil =>
          simp [Token.endRow, token, rows, Nat.add_assoc]
      | cons m ms =>
          have hrest := ih (List.cons_ne_nil m ms) (row + rows [l])
          rw [place_cons, rows_cons l (m :: ms), ← Nat.add_assoc, ← hrest, place_cons,
            List.getLast?_cons_cons]

end Lexeme

namespace Parser

variable {α : Type} {p : Parser α} {rest : List Token}

theorem run_asItem {l : Lexeme} {ls : List Lexeme} {row : Nat} {a : α}
    (h : p.run (Lexeme.place row (l :: ls) ++ rest) = some (a, rest)) :
    (asItem p).run (Lexeme.place row (l :: ls) ++ rest) =
      some (.node (row + Text.lineFeeds l.gap.text) (row + Lexeme.rows (l :: ls)) a, rest) := by
  have hend := Token.endRowUpTo_append (Lexeme.place row (l :: ls)) rest
  rw [Lexeme.getLast?_place (List.cons_ne_nil l ls)] at hend
  have hstart : (((Lexeme.place row (l :: ls) ++ rest).head?.map Token.row).getD 0) =
      row + Text.lineFeeds l.gap.text := rfl
  simp only [asItem, StateT.run_bind, StateT.run_get, StateT.run_pure, Option.pure_def,
    Option.bind_eq_bind, Option.bind_some, h, hend, hstart, Option.getD_some]

end Parser

/-!
## Arrangements, node by node
-/

namespace Piece

variable {α : Type} (margin : List Char) (spell : Gap -> α -> List Lexeme) (height : α -> Nat)
  (place : Nat -> α -> α)

def commentItems (row : Nat) (cs : List (List Char × List Char)) : List (Item α) :=
  (Gap.placedComments row cs).map .comment

theorem commentItems_snoc (row : Nat) (cs : List (List Char × List Char)) (b s : List Char) :
    commentItems row (cs ++ [(b, s)]) =
      (commentItems row cs ++
        [.comment ⟨s, row + Text.lineFeeds (Gap.commentsText cs) + Text.lineFeeds b⟩] :
        List (Item α)) := by
  simp [commentItems, Gap.placedComments_snoc]

theorem lineFeeds_commentsText_snoc (cs : List (List Char × List Char)) (b s : List Char) :
    Text.lineFeeds (Gap.commentsText (cs ++ [(b, s)])) =
      Text.lineFeeds (Gap.commentsText cs) + Text.lineFeeds b + Text.lineFeeds s := by
  rw [commentsText_snoc, Text.lineFeeds_append, Text.lineFeeds_append]

theorem leftOver_of_no_nodes {ps : List (Piece α)} (h : nodes ps = []) (first : List Char)
    (pending : List (List Char × List Char)) (row : Nat) :
    lexemesOf margin spell first pending ps = [] /\
      commentItems row (leftOver margin first pending ps) =
        commentItems row pending ++
          placed margin height place first (row + Text.lineFeeds (Gap.commentsText pending)) ps := by
  induction ps generalizing first pending with
  | nil => exact ⟨rfl, (List.append_nil _).symm⟩
  | cons p rest ih =>
      cases p with
      | beside s =>
          have hrest := ih h margin (pending ++ [([' '], s)])
          refine ⟨hrest.left, ?_⟩
          rw [leftOver, hrest.right, commentItems_snoc, lineFeeds_commentsText_snoc, placed]
          simp [Text.lineFeeds, Nat.add_assoc]
      | comment apart s =>
          have hrest := ih h margin (pending ++ [(lead first apart, s)])
          refine ⟨hrest.left, ?_⟩
          rw [leftOver, hrest.right, commentItems_snoc, lineFeeds_commentsText_snoc, placed]
          simp [Nat.add_assoc]
      | node apart a => cases h

theorem exists_first_node {ps : List (Piece α)} {a : α} {more : List α} (h : nodes ps = a :: more)
    (first : List Char) (pending : List (List Char × List Char)) (row : Nat) :
    exists (g : Gap) (rest : List (Piece α)), nodes rest = more /\
      lexemesOf margin spell first pending ps = spell g a ++ lexemesOf margin spell margin [] rest /\
      leftOver margin first pending ps = leftOver margin margin [] rest /\
      commentItems row pending ++
          placed margin height place first (row + Text.lineFeeds (Gap.commentsText pending)) ps =
        commentItems row g.comments ++
          .node (row + Text.lineFeeds g.text) (row + Text.lineFeeds g.text + height a)
              (place (row + Text.lineFeeds g.text) a) ::
            placed margin height place margin (row + Text.lineFeeds g.text + height a) rest := by
  induction ps generalizing first pending with
  | nil => cases h
  | cons p rest ih =>
      cases p with
      | beside s =>
          obtain ⟨g, after, hnodes, hlexemes, hleft, hitems⟩ :=
            ih h margin (pending ++ [([' '], s)])
          refine ⟨g, after, hnodes, hlexemes, hleft, ?_⟩
          rw [← hitems, commentItems_snoc, lineFeeds_commentsText_snoc, placed]
          simp [Text.lineFeeds, Nat.add_assoc]
      | comment apart s =>
          obtain ⟨g, after, hnodes, hlexemes, hleft, hitems⟩ :=
            ih h margin (pending ++ [(lead first apart, s)])
          refine ⟨g, after, hnodes, hlexemes, hleft, ?_⟩
          rw [← hitems, commentItems_snoc, lineFeeds_commentsText_snoc, placed]
          simp [Nat.add_assoc]
      | node apart b =>
          obtain ⟨rfl, hmore⟩ := List.cons.inj h
          refine ⟨⟨pending, lead first apart⟩, rest, hmore, rfl, rfl, ?_⟩
          rw [placed]
          simp [Gap.text, Nat.add_assoc]

end Piece

/-!
## Arrangements as a whole
-/

namespace Parser

section

variable {α : Type} {margin : List Char} {core : Gap -> α -> List Lexeme} {height : α -> Nat}
  {place : Nat -> α -> α}

def nodeItems (height : α -> Nat) (place : Nat -> α -> α) (row : Nat) (g : Gap) (a : α) :
    List (Item α) :=
  Piece.commentItems row g.comments ++
    [.node (row + Text.lineFeeds g.text) (row + Text.lineFeeds g.text + height a)
      (place (row + Text.lineFeeds g.text) a)]

def ReadsNode (q : Parser (List (Item α))) (core : Gap -> α -> List Lexeme) (height : α -> Nat)
    (place : Nat -> α -> α) (ending : List Lexeme) (a : α) : Prop :=
  forall (g : Gap) (row next : Nat) (rest : List Token),
    Lexeme.rows (core g a) = Text.lineFeeds g.text + height a /\
    q.run (Lexeme.place row (ending ++ core g a) ++ (Lexeme.place next ending ++ rest)) =
      some (nodeItems height place row g a, Lexeme.place next ending ++ rest)

variable (margin) in
theorem run_nodes {q : Parser (List (Item α))} {ending : List Lexeme}
    (hending : Lexeme.rows ending = 0) {rest : List Token} {ps : List (Piece α)}
    (hread : forall a, a ∈ Piece.nodes ps -> ReadsNode q core height place ending a)
    (hnone : forall row, q.run (Lexeme.place row ending ++ rest) = none) (first : List Char)
    (pending : List (List Char × List Char)) (row : Nat) {fuel : Nat}
    (hfuel : (Piece.nodes ps).length ≤ fuel) :
    exists (chunks : List (List (Item α))) (after : Nat),
      after = row + Lexeme.rows
        (Piece.lexemesOf margin (fun g a => core g a ++ ending) first pending ps) /\
      (manyFrom q fuel).run
          (Lexeme.place row (ending ++
            Piece.lexemesOf margin (fun g a => core g a ++ ending) first pending ps) ++ rest) =
        some (chunks, Lexeme.place after ending ++ rest) /\
      chunks.flatten ++ Piece.commentItems after (Piece.leftOver margin first pending ps) =
        Piece.commentItems row pending ++
          Piece.placed margin height place first
            (row + Text.lineFeeds (Gap.commentsText pending)) ps := by
  induction hnodes : Piece.nodes ps generalizing ps first pending row fuel with
  | nil =>
      obtain ⟨hlexemes, hitems⟩ := Piece.leftOver_of_no_nodes margin
        (fun g a => core g a ++ ending) height place hnodes first pending row
      refine ⟨[], row, by rw [hlexemes, Lexeme.rows_nil, Nat.add_zero], ?_, hitems⟩
      rw [hlexemes, List.append_nil]
      exact run_manyFrom_nil (hnone row) fuel
  | cons a more ih =>
      obtain ⟨fuel, rfl⟩ : exists n, fuel = n + 1 :=
        ⟨fuel - 1, by rw [hnodes] at hfuel; simp only [List.length_cons] at hfuel; omega⟩
      obtain ⟨g, after, hafter, hlexemes, hleft, hitems⟩ := Piece.exists_first_node margin
        (fun g a => core g a ++ ending) height place hnodes first pending row
      rw [hnodes] at hread hfuel
      have hfirst := hread a List.mem_cons_self g row (row + Lexeme.rows (core g a))
      have hheight := (hfirst []).left
      obtain ⟨chunks, last, hlast, hrun, hrest⟩ := @ih after
        (fun b hb => hread b (by rw [hafter] at hb; exact List.mem_cons_of_mem a hb)) margin []
        (row + Lexeme.rows (core g a)) fuel (by rw [hafter]; simpa using hfuel) hafter
      refine ⟨nodeItems height place row g a :: chunks, last, ?_, ?_, ?_⟩
      · rw [hlast, hlexemes, Lexeme.rows_append, Lexeme.rows_append, hending]
        omega
      · have htokens : Lexeme.place row (ending ++ ((core g a ++ ending) ++
              Piece.lexemesOf margin (fun g a => core g a ++ ending) margin [] after)) ++ rest =
            Lexeme.place row (ending ++ core g a) ++ (Lexeme.place (row + Lexeme.rows (core g a))
              (ending ++ Piece.lexemesOf margin (fun g a => core g a ++ ending) margin [] after) ++
                rest) := by
          simp [hending]
        rw [hlexemes, htokens]
        rw [Lexeme.place_append (row + Lexeme.rows (core g a)), List.append_assoc] at hrun ⊢
        exact run_manyFrom_cons (hfirst _).right hrun
      · rw [hleft, hitems, List.flatten_cons, List.append_assoc, hrest, hheight, nodeItems]
        simp [Piece.commentItems, Gap.placedComments, Gap.commentsText, Nat.add_assoc]

end

end Parser

end TypeScript
end SchemaTypes
