import SchemaTypes.Proofs.TypeScript.Arrangement
import SchemaTypes.Proofs.Text.Joining

/-!
# Arrangements read again

The gaps of an arrangement are read as the comments in them, and the rows on which they
are found arrange the items as before.
-/

namespace SchemaTypes
namespace TypeScript

/-!
## Gaps with one more comment
-/

namespace Gap

theorem endsBefore_append {c next : List Char} (h : endsBefore c next = true) (more : List Char) :
    endsBefore c (next ++ more) = true := by
  rw [endsBefore, Bool.or_eq_true, Bool.and_eq_true] at h ⊢
  cases h with
  | inl hblock => exact .inl hblock
  | inr hline =>
      refine .inr ⟨hline.left, ?_⟩
      cases next with
      | nil => simp at hline
      | cons d next => simpa using hline.right

theorem commentsLex_snoc {cs : List (List Char × List Char)} {b s next : List Char}
    (h : commentsLex cs b = true) (hs : endsBefore s next = true) (hnext : next.all isGap = true) :
    commentsLex (cs ++ [(b, s)]) next = true := by
  induction cs with
  | nil =>
      have hb : b.all isGap = true := h
      simp [commentsLex, commentsText, hb, hs, hnext]
  | cons c cs ih =>
      cases c with
      | mk d c =>
          simp only [commentsLex, Bool.and_eq_true] at h
          have hends := endsBefore_append h.left.right (s ++ next)
          simp only [List.cons_append, commentsLex, Bool.and_eq_true]
          refine ⟨⟨h.left.left, ?_⟩, ih h.right⟩
          simpa [commentsText] using hends

theorem reads_snoc {cs : List (List Char × List Char)} {b s next : List Char}
    (h : (Gap.mk cs b).reads = true) (hs : endsBefore s next = true)
    (hclean : s.all Text.isClean = true) (hnext : (Gap.ofBlank next).reads = true) :
    (Gap.mk (cs ++ [(b, s)]) next).reads = true := by
  simp only [reads, lexes, text, Bool.and_eq_true, List.all_append] at h hnext ⊢
  refine ⟨commentsLex_snoc h.left hs hnext.left, ?_, hnext.right.right⟩
  simpa [commentsText, hclean] using h.right

end Gap

/-!
## Sound arrangements
-/

namespace Piece

variable {α β : Type}

def isComment (s : List Char) : Bool :=
  (Gap.isBlockComment s || Gap.isLineComment s) && s.all Text.isClean

def closes (s : List Char) (rest : List (Piece α)) : Bool :=
  Gap.isBlockComment s || !(rest.head?.any isBeside)

def areSound : List (Piece α) -> Bool
  | [] => true
  | beside s :: rest => isComment s && closes s rest && areSound rest
  | comment _ s :: rest => isComment s && closes s rest && areSound rest
  | node _ _ :: rest => areSound rest

def nextBlank (first final : List Char) : List (Piece α) -> List Char
  | [] => final
  | beside _ :: _ => [' ']
  | comment apart _ :: _ => lead first apart
  | node apart _ :: _ => lead first apart

structure IsMargin (s : List Char) : Prop where
  pad : Lexeme.isPad s = true
  head : s.head? = some '\n'

theorem isMargin (tabWidth depth : Nat) : IsMargin (Line.margin tabWidth depth) :=
  ⟨Line.isPad_margin tabWidth depth, rfl⟩

theorem isMargin_feed : IsMargin ['\n'] :=
  ⟨rfl, rfl⟩

section

variable {margin final : List Char} {spell : Gap -> α -> List Lexeme}

theorem reads_lead {first : List Char} (h : Lexeme.isPad first = true) (apart : Bool) :
    (Gap.ofBlank (lead first apart)).reads = true := by
  cases apart with
  | false => exact Lexeme.reads_ofBlank h
  | true => exact Lexeme.reads_ofBlank (by simpa [lead, Lexeme.isPad] using h)

theorem reads_nextBlank {first : List Char} (hfirst : Lexeme.isPad first = true)
    (hfinal : Lexeme.isPad final = true) (ps : List (Piece α)) :
    (Gap.ofBlank (nextBlank first final ps)).reads = true := by
  cases ps with
  | nil => exact Lexeme.reads_ofBlank hfinal
  | cons p rest =>
      cases p with
      | beside s => rfl
      | comment apart s => exact reads_lead hfirst apart
      | node apart a => exact reads_lead hfirst apart

theorem endsBefore_nextBlank {s : List Char} (hs : isComment s = true)
    (hmargin : IsMargin margin) (hfinal : IsMargin final) {rest : List (Piece α)}
    (hcloses : closes s rest = true) :
    Gap.endsBefore s (nextBlank margin final rest) = true := by
  have hlead : forall apart, (lead margin apart).head? = some '\n' := by
    intro apart
    cases apart with
    | false => exact hmargin.head
    | true => rfl
  rw [isComment, Bool.and_eq_true, Bool.or_eq_true] at hs
  rw [closes, Bool.or_eq_true, Bool.not_eq_true'] at hcloses
  rw [Gap.endsBefore, Bool.or_eq_true, Bool.and_eq_true]
  cases hblock : Gap.isBlockComment s with
  | true => exact .inl rfl
  | false =>
      rw [hblock] at hs hcloses
      refine .inr ⟨hs.left.resolve_left (by decide), ?_⟩
      have hbeside := hcloses.resolve_left (by decide)
      cases rest with
      | nil => simp [nextBlank, hfinal.head]
      | cons p rest =>
          cases p with
          | beside s => cases hbeside
          | comment apart s => simp [nextBlank, hlead]
          | node apart a => simp [nextBlank, hlead]

/-- The comments so far and the blanks in front of the next piece make a gap. -/
def Gathers (final first : List Char) (pending : List (List Char × List Char))
    (ps : List (Piece α)) : Prop :=
  (Gap.mk pending (nextBlank first final ps)).reads = true

theorem Gathers.snoc {first s : List Char} {pending : List (List Char × List Char)} {p : Piece α}
    {rest : List (Piece α)} (h : Gathers final first pending (p :: rest))
    (hs : isComment s = true) (hcloses : closes s rest = true)
    (hmargin : IsMargin margin) (hfinal : IsMargin final) :
    Gathers final margin (pending ++ [(nextBlank first final (p :: rest), s)]) rest := by
  have hclean : s.all Text.isClean = true := by
    rw [isComment, Bool.and_eq_true] at hs
    exact hs.right
  exact Gap.reads_snoc h (endsBefore_nextBlank hs hmargin hfinal hcloses) hclean
    (reads_nextBlank hmargin.pad hfinal.pad rest)

theorem reads_leftOver {ps : List (Piece α)} (hsound : areSound ps = true)
    (hmargin : IsMargin margin) (hfinal : IsMargin final) (first : List Char)
    {pending : List (List Char × List Char)} (h : Gathers final first pending ps) :
    (Gap.mk (leftOver margin first pending ps) final).reads = true := by
  induction ps generalizing first pending with
  | nil => exact h
  | cons p rest ih =>
      cases p with
      | beside s =>
          simp only [areSound, Bool.and_eq_true] at hsound
          exact ih hsound.right margin
            (h.snoc hsound.left.left hsound.left.right hmargin hfinal)
      | comment apart s =>
          simp only [areSound, Bool.and_eq_true] at hsound
          exact ih hsound.right margin
            (h.snoc hsound.left.left hsound.left.right hmargin hfinal)
      | node apart a => exact ih hsound margin (reads_nextBlank hmargin.pad hfinal.pad rest)

open Lexeme in
theorem apart_lexemesOf {ps : List (Piece α)} (hsound : areSound ps = true)
    (hmargin : IsMargin margin) (hfinal : IsMargin final)
    (hspell : forall a, a ∈ nodes ps -> forall g, g.reads = true -> forall rest, Apart rest ->
      Apart (spell g a ++ rest))
    (first : List Char) {pending : List (List Char × List Char)}
    (h : Gathers final first pending ps) {rest : List Lexeme} (hrest : Apart rest) :
    Apart (lexemesOf margin spell first pending ps ++ rest) := by
  induction ps generalizing first pending with
  | nil => exact hrest
  | cons p ps ih =>
      cases p with
      | beside s =>
          simp only [areSound, Bool.and_eq_true] at hsound
          exact ih hsound.right hspell margin
            (h.snoc hsound.left.left hsound.left.right hmargin hfinal)
      | comment apart s =>
          simp only [areSound, Bool.and_eq_true] at hsound
          exact ih hsound.right hspell margin
            (h.snoc hsound.left.left hsound.left.right hmargin hfinal)
      | node apart a =>
          have hmore := ih hsound (fun b hb => hspell b (List.mem_cons_of_mem a hb)) margin
            (reads_nextBlank hmargin.pad hfinal.pad ps)
          rw [lexemesOf, List.append_assoc]
          exact hspell a List.mem_cons_self _ h _ hmore

end

/-!
## Rows
-/

def texts : List (Piece α) -> List (List Char)
  | [] => []
  | beside s :: rest => s :: texts rest
  | comment _ s :: rest => s :: texts rest
  | node _ _ :: rest => texts rest

section

variable (margin : List Char) (height : α -> Nat) (place : Nat -> α -> α)

/-- The items of an arrangement that is read from `row` on.  A node that starts on a row is
found to be `place` of that row. -/
def placed (first : List Char) (row : Nat) : List (Piece α) -> List (Item α)
  | [] => []
  | beside s :: rest => .comment ⟨s, row⟩ :: placed margin (row + Text.lineFeeds s) rest
  | comment apart s :: rest =>
      .comment ⟨s, row + Text.lineFeeds (lead first apart)⟩ ::
        placed margin (row + Text.lineFeeds (lead first apart) + Text.lineFeeds s) rest
  | node apart a :: rest =>
      .node (row + Text.lineFeeds (lead first apart))
          (row + Text.lineFeeds (lead first apart) + height a)
          (place (row + Text.lineFeeds (lead first apart)) a) ::
        placed margin (row + Text.lineFeeds (lead first apart) + height a) rest

end

theorem lineFeeds_lead (first : List Char) (apart : Bool) :
    Text.lineFeeds (lead first apart) = Text.lineFeeds first + apart.toNat := by
  cases apart with
  | false => rfl
  | true => simp [lead, Text.lineFeeds]

section

variable {margin : List Char} {height : α -> Nat} {place : Nat -> α -> α} {f : α -> β}

theorem arrange_placed_behind (hmargin : Text.lineFeeds margin = 1) {ps : List (Piece α)}
    (hplace : forall a, a ∈ nodes ps -> forall row, f (place row a) = f a)
    (htexts : forall s, s ∈ texts ps -> Text.trim s = s) (row : Nat) :
    (Item.arrange (some row) (placed margin height place margin row ps)).map (map f) =
      ps.map (map f) := by
  have hapart : forall (row : Nat) (apart : Bool),
      Item.isApart (some row) (row + Text.lineFeeds (lead margin apart)) = apart := by
    intro row apart
    rw [lineFeeds_lead, hmargin]
    cases apart <;> simp [Item.isApart]
  induction ps generalizing row with
  | nil => rfl
  | cons p rest ih =>
      cases p with
      | beside s =>
          have hs := htexts s List.mem_cons_self
          have hrest := ih hplace (fun t ht => htexts t (List.mem_cons_of_mem s ht))
            (row + Text.lineFeeds s)
          simp only [placed, Item.arrange, List.map_cons, Item.endRow, Comment.endRow, hrest]
          simp [Item.piece, hs]
      | comment apart s =>
          have hs := htexts s List.mem_cons_self
          have hrest := ih hplace (fun t ht => htexts t (List.mem_cons_of_mem s ht))
            (row + Text.lineFeeds (lead margin apart) + Text.lineFeeds s)
          have hrow : Text.lineFeeds (lead margin apart) ≠ 0 := by
            rw [lineFeeds_lead, hmargin]
            omega
          simp only [placed, Item.arrange, List.map_cons, Item.endRow, Comment.endRow, hrest]
          simp [Item.piece, hs, hrow, hapart]
      | node apart a =>
          have hrest := ih (fun b hb => hplace b (List.mem_cons_of_mem a hb)) htexts
            (row + Text.lineFeeds (lead margin apart) + height a)
          simp only [placed, Item.arrange, List.map_cons, Item.endRow, hrest]
          simp [Item.piece, hapart, map, hplace a List.mem_cons_self]

theorem arrange_placed (hmargin : Text.lineFeeds margin = 1) {ps : List (Piece α)}
    (hopens : Opens ps) (hplace : forall a, a ∈ nodes ps -> forall row, f (place row a) = f a)
    (htexts : forall s, s ∈ texts ps -> Text.trim s = s) (first : List Char) (row : Nat) :
    (Item.arrange none (placed margin height place first row ps)).map (map f) =
      ps.map (map f) := by
  cases ps with
  | nil => rfl
  | cons p rest =>
      have hp := hopens p rfl
      cases p with
      | beside s => cases hp
      | comment apart s =>
          cases apart with
          | true => cases hp
          | false =>
              have hs := htexts s List.mem_cons_self
              have hrest : forall row,
                  (Item.arrange (some row) (placed margin height place margin row rest)).map (map f) =
                    rest.map (map f) :=
                arrange_placed_behind hmargin hplace fun t ht => htexts t (List.mem_cons_of_mem s ht)
              simp only [placed, Item.arrange, List.map_cons, Item.endRow, Comment.endRow, hrest]
              simp [Item.piece, hs, Item.isApart]
      | node apart a =>
          cases apart with
          | true => cases hp
          | false =>
              have hrest : forall row,
                  (Item.arrange (some row) (placed margin height place margin row rest)).map (map f) =
                    rest.map (map f) :=
                arrange_placed_behind hmargin (fun b hb => hplace b (List.mem_cons_of_mem a hb)) htexts
              simp only [placed, Item.arrange, List.map_cons, Item.endRow, hrest]
              simp [Item.piece, Item.isApart, map, hplace a List.mem_cons_self]

end

end Piece

namespace Item

theorem trim_of_mem_texts {α : Type} (last? : Option Nat) (items : List (Item α)) :
    forall s, s ∈ Piece.texts (arrange last? items) -> Text.trim s = s := by
  induction items generalizing last? with
  | nil => intro s hs; cases hs
  | cons item rest ih =>
      intro s hs
      rw [arrange] at hs
      cases item with
      | comment c =>
          have hcases : s = Text.trim c.text \/ s ∈ Piece.texts (arrange (some c.endRow) rest) := by
            rw [piece] at hs
            split at hs <;> exact List.mem_cons.mp hs
          cases hcases with
          | inl heq => rw [heq, Text.trim_trim]
          | inr hrest => exact ih _ s hrest
      | node row endRow a => exact ih _ s hs

end Item

end TypeScript
end SchemaTypes
