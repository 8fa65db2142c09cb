import SchemaTypes.Proofs.Text.LineEndings
import SchemaTypes.TypeScript.Lexer

/-!
# Gaps

What stands in front of a token, given without its place in the source.  The text of
a gap whose comments end where they should is read as that gap.
-/

namespace SchemaTypes

theorem forall_mem_of_all {α : Type} {p : α -> Prop} [DecidablePred p] {xs : List α}
    (h : xs.all (fun x => decide (p x)) = true) : forall x, x ∈ xs -> p x := by
  simpa using h

namespace Text

@[simp] theorem lineFeeds_nil : lineFeeds [] = 0 :=
  rfl

@[simp] theorem lineFeeds_append (s t : List Char) :
    lineFeeds (s ++ t) = lineFeeds s + lineFeeds t :=
  List.count_append

theorem takeWhile_append_of_all {p : Char -> Bool} {s : List Char} (hs : s.all p = true)
    {rest : List Char} (hrest : (rest.head?.any p) = false) :
    (s ++ rest).takeWhile p = s ∧ (s ++ rest).dropWhile p = rest := by
  induction s with
  | nil =>
      cases rest with
      | nil => exact ⟨rfl, rfl⟩
      | cons c more =>
          have hc : p c = false := by simpa using hrest
          simp [hc]
  | cons c more ih =>
      rw [List.all_cons, Bool.and_eq_true] at hs
      simp [hs.left, ih hs.right]

/-- The characters that no reading of a text drops or refuses. -/
def isClean (c : Char) : Bool :=
  c != '\x00' && c != '\r'

theorem nul_not_mem_of_isClean {s : List Char} (h : s.all isClean = true) : '\x00' ∉ s := by
  intro hmem
  cases List.all_eq_true.mp h _ hmem

theorem normalizeLines_of_isClean {s : List Char} (h : s.all isClean = true) (rest : List Char) :
    normalizeLines (s ++ rest) = s ++ normalizeLines rest := by
  have hplain : '\r' ∉ s := by
    intro hmem
    cases List.all_eq_true.mp h _ hmem
  rw [normalizeLines_append (fun hlast => absurd (List.mem_of_getLast? hlast) hplain),
    normalizeLines_of_plain hplain]

end Text

namespace TypeScript

/-!
## Gaps
-/

/-- The blanks and comments in front of a lexeme: the comments, each with the blanks in
front of it, and the blanks behind the last one. -/
structure Gap where
  comments : List (List Char × List Char) := []
  blank : List Char := []

namespace Gap

def ofBlank (s : List Char) : Gap :=
  { blank := s }

def commentsText (cs : List (List Char × List Char)) : List Char :=
  cs.flatMap fun c => c.1 ++ c.2

def text (g : Gap) : List Char :=
  commentsText g.comments ++ g.blank

def triviaOfBlank : List Char -> List Trivia
  | [] => []
  | c :: rest => [.blank (c :: rest)]

def placeComments (row : Nat) : List (List Char × List Char) -> List Trivia
  | [] => []
  | (b, c) :: rest =>
      triviaOfBlank b ++ .comment ⟨c, row + Text.lineFeeds b⟩ ::
        placeComments (row + Text.lineFeeds b + Text.lineFeeds c) rest

def place (row : Nat) (g : Gap) : List Trivia :=
  placeComments row g.comments ++ triviaOfBlank g.blank

@[simp] theorem text_ofBlank (s : List Char) : (ofBlank s).text = s :=
  rfl

@[simp] theorem place_ofBlank (row : Nat) (s : List Char) :
    (ofBlank s).place row = triviaOfBlank s :=
  rfl

theorem triviaText_triviaOfBlank (s : List Char) :
    (triviaOfBlank s).flatMap Trivia.text = s := by
  cases s with
  | nil => rfl
  | cons c rest => simp [triviaOfBlank, Trivia.text]

theorem triviaText_placeComments (row : Nat) (cs : List (List Char × List Char)) :
    (placeComments row cs).flatMap Trivia.text = commentsText cs := by
  induction cs generalizing row with
  | nil =>
      rfl
  | cons c rest ih =>
      cases c with
      | mk b c =>
          simp [placeComments, commentsText, triviaText_triviaOfBlank, Trivia.text] at ih ⊢
          exact ih _

theorem triviaText_place (row : Nat) (g : Gap) : (g.place row).flatMap Trivia.text = g.text := by
  rw [place, List.flatMap_append, triviaText_placeComments, triviaText_triviaOfBlank]
  rfl

/-- The gap that was placed as these blanks and comments, behind a blank of its own. -/
def ofTrivia (blank : List Char) : List Trivia -> Gap
  | [] => ⟨[], blank⟩
  | .blank s :: rest => ofTrivia (blank ++ s) rest
  | .comment c :: rest =>
      ⟨(blank, c.text) :: (ofTrivia [] rest).comments, (ofTrivia [] rest).blank⟩

theorem ofTrivia_triviaOfBlank (blank s : List Char) (rest : List Trivia) :
    ofTrivia blank (triviaOfBlank s ++ rest) = ofTrivia (blank ++ s) rest := by
  cases s with
  | nil => rw [triviaOfBlank, List.nil_append, List.append_nil]
  | cons c s => rfl

theorem ofTrivia_placeComments (row : Nat) (cs : List (List Char × List Char)) (b : List Char) :
    ofTrivia [] (placeComments row cs ++ triviaOfBlank b) = ⟨cs, b⟩ := by
  induction cs generalizing row with
  | nil =>
      have hblank := ofTrivia_triviaOfBlank [] b []
      rwa [List.append_nil] at hblank
  | cons c rest ih =>
      rw [placeComments, List.append_assoc, ofTrivia_triviaOfBlank, List.nil_append, List.cons_append,
        ofTrivia, ih]

theorem ofTrivia_place (row : Nat) (g : Gap) : ofTrivia [] (g.place row) = g :=
  ofTrivia_placeComments row g.comments g.blank

/-!
## Comments that end where they should
-/

def isLineComment : List Char -> Bool
  | '/' :: '/' :: s => s.all (!endsLineComment ·)
  | _ => false

def isBlockComment : List Char -> Bool
  | '/' :: '*' :: s => Lexer.blockComment s == some (s, [])
  | _ => false

/-- A comment ends in front of a text: a line comment needs a line feed behind it. -/
def endsBefore (c next : List Char) : Bool :=
  isBlockComment c || (isLineComment c && next.head? == some '\n')

/-- The comments, with the blanks that follow the last one, are read as they are. -/
def commentsLex : List (List Char × List Char) -> List Char -> Bool
  | [], blank => blank.all isGap
  | (b, c) :: rest, blank =>
      b.all isGap && endsBefore c (commentsText rest ++ blank) && commentsLex rest blank

def lexes (g : Gap) : Bool :=
  commentsLex g.comments g.blank

/-- The gap is read as it is, whatever is done to line ends. -/
def reads (g : Gap) : Bool :=
  g.lexes && g.text.all Text.isClean

theorem lexes_of_reads {g : Gap} (h : g.reads = true) : g.lexes = true := by
  rw [reads, Bool.and_eq_true] at h
  exact h.left

theorem isClean_of_reads {g : Gap} (h : g.reads = true) : g.text.all Text.isClean = true := by
  rw [reads, Bool.and_eq_true] at h
  exact h.right

theorem blockComment_append {s : List Char} (h : Lexer.blockComment s = some (s, []))
    (rest : List Char) : Lexer.blockComment (s ++ rest) = some (s, rest) := by
  fun_induction Lexer.blockComment s with
  | case1 more =>
      simp only [Option.some.injEq, Prod.mk.injEq] at h
      rw [h.right]
      rfl
  | case2 c s hopen ih =>
      cases hs : Lexer.blockComment s with
      | none =>
          rw [hs] at h
          cases h
      | some found =>
          rw [hs] at h
          simp only [Option.map_some, Option.some.injEq, Prod.mk.injEq, List.cons.injEq, true_and] at h
          have hfound : found = (s, []) := Prod.ext h.left h.right
          have hrest := ih (by rw [hs, hfound])
          rw [List.cons_append, Lexer.blockComment.eq_2 _ _ ?_, hrest]
          · rfl
          · intro more hc hmore
            cases s with
            | nil =>
                rw [Lexer.blockComment] at hs
                cases hs
            | cons d s' =>
                rw [List.cons_append, List.cons.injEq] at hmore
                exact hopen s' hc (by rw [hmore.left])
  | case3 =>
      cases h

theorem comment?_append {c next : List Char} (h : endsBefore c next = true)
    (rest : List Char) :
    Lexer.comment? (c ++ (next ++ rest)) = some (c, next ++ rest) := by
  unfold endsBefore at h
  rw [Bool.or_eq_true, Bool.and_eq_true] at h
  cases h with
  | inl hblock =>
      unfold isBlockComment at hblock
      split at hblock
      · rename_i s
        have hs := blockComment_append (eq_of_beq hblock) (next ++ rest)
        simp [Lexer.comment?, hs]
      · cases hblock
  | inr hline =>
      obtain ⟨hline, hnext⟩ := hline
      unfold isLineComment at hline
      split at hline
      · rename_i s
        cases next with
        | nil =>
            cases hnext
        | cons d more =>
            have hd : d = '\n' := by simpa using hnext
            subst hd
            have hends : (('\n' :: (more ++ rest)).head?.any (!endsLineComment ·)) = false := by
              simp [endsLineComment]
            have hs := Text.takeWhile_append_of_all hline hends
            simp only [List.cons_append] at hs ⊢
            rw [Lexer.comment?, hs.left, hs.right]
      · cases hline

theorem head_comment {c next : List Char} (h : endsBefore c next = true) :
    c.head? = some '/' := by
  unfold endsBefore at h
  rw [Bool.or_eq_true, Bool.and_eq_true] at h
  cases h with
  | inl hblock =>
      unfold isBlockComment at hblock
      split at hblock
      · rfl
      · cases hblock
  | inr hline =>
      obtain ⟨hline, -⟩ := hline
      unfold isLineComment at hline
      split at hline
      · rfl
      · cases hline

theorem length_comment {c next : List Char} (h : endsBefore c next = true) : 2 ≤ c.length := by
  unfold endsBefore at h
  rw [Bool.or_eq_true, Bool.and_eq_true] at h
  cases h with
  | inl hblock =>
      unfold isBlockComment at hblock
      split at hblock
      · simp
      · cases hblock
  | inr hline =>
      obtain ⟨hline, -⟩ := hline
      unfold isLineComment at hline
      split at hline
      · simp
      · cases hline

/-!
## Reading gaps
-/

def stops (rest : List Char) : Bool :=
  rest.head?.all fun c => !isGap c && c != '/'

theorem gap_stop {rest : List Char} (h : stops rest = true) (fuel row : Nat) :
    Lexer.gap fuel row rest = ([], rest) := by
  cases fuel with
  | zero =>
      rfl
  | succ fuel =>
      cases rest with
      | nil =>
          rfl
      | cons c more =>
          have hc : isGap c = false ∧ c ≠ '/' := by simpa [stops] using h
          have hcomment : Lexer.comment? (c :: more) = none := by
            rw [Lexer.comment?]
            · intro s hs
              exact absurd (List.cons.inj hs).left hc.right
            · intro s hs
              exact absurd (List.cons.inj hs).left hc.right
          simp [Lexer.gap, hc.left, hcomment]

theorem gap_blank {s rest : List Char} (hs : s.all isGap = true)
    (hrest : (rest.head?.any isGap) = false) (fuel row : Nat) :
    Lexer.gap (fuel + 1) row (s ++ rest) =
      match s with
      | [] => Lexer.gap (fuel + 1) row rest
      | _ =>
          let (more, left) := Lexer.gap fuel (row + Text.lineFeeds s) rest
          (triviaOfBlank s ++ more, left) := by
  cases s with
  | nil =>
      rfl
  | cons c more =>
      have hsplit := Text.takeWhile_append_of_all hs hrest
      rw [Lexer.gap, hsplit.left, hsplit.right]
      rfl

theorem gap_comment {c next : List Char} (h : endsBefore c next = true) (rest : List Char)
    (fuel row : Nat) :
    Lexer.gap (fuel + 1) row (c ++ (next ++ rest)) =
      let (more, left) := Lexer.gap fuel (row + Text.lineFeeds c) (next ++ rest)
      (.comment ⟨c, row⟩ :: more, left) := by
  have hread := comment?_append h rest
  obtain ⟨s, hc⟩ : exists s, c = '/' :: s := by
    have hhead := head_comment h
    cases c with
    | nil => cases hhead
    | cons d s => exact ⟨s, by rw [Option.some.inj hhead]⟩
  have hgap : (c ++ (next ++ rest)).takeWhile isGap = [] := by
    rw [hc]
    rfl
  rw [Lexer.gap, hgap]
  simp only [hread]

theorem gap_comments {cs : List (List Char × List Char)} {blank : List Char}
    (h : commentsLex cs blank = true) {rest : List Char} (hrest : stops rest = true)
    {fuel : Nat} (hfuel : (commentsText cs ++ blank).length < fuel) (row : Nat) :
    Lexer.gap fuel row (commentsText cs ++ blank ++ rest) =
      (placeComments row cs ++ triviaOfBlank blank, rest) := by
  induction cs generalizing fuel row with
  | nil =>
      have hhead : (rest.head?.any isGap) = false := by
        cases rest with
        | nil => rfl
        | cons c more =>
            have hc : isGap c = false ∧ c ≠ '/' := by simpa [stops] using hrest
            simpa using hc.left
      obtain ⟨fuel, rfl⟩ : exists n, fuel = n + 1 := ⟨fuel - 1, by omega⟩
      have hblank : blank.all isGap = true := h
      have hread := gap_blank hblank hhead fuel row
      simp only [commentsText, List.flatMap_nil, List.nil_append, placeComments]
      rw [hread]
      cases blank with
      | nil => exact gap_stop hrest _ _
      | cons c more => simp [gap_stop hrest]
  | cons first more ih =>
      cases first with
      | mk b c =>
          simp only [commentsLex, Bool.and_eq_true] at h
          obtain ⟨⟨hb, hc⟩, hmore⟩ := h
          have htext : commentsText ((b, c) :: more) = b ++ (c ++ commentsText more) := by
            simp [commentsText]
          have hlength := length_comment hc
          rw [htext] at hfuel ⊢
          simp only [List.append_assoc, List.length_append] at hfuel ⊢
          have hhead : ((c ++ (commentsText more ++ (blank ++ rest))).head?.any isGap) = false := by
            rw [List.head?_append, head_comment hc]
            rfl
          have hread : forall (fuel row : Nat), (commentsText more ++ blank).length < fuel ->
              Lexer.gap (fuel + 1) row (c ++ (commentsText more ++ (blank ++ rest))) =
                (.comment ⟨c, row⟩ :: (placeComments (row + Text.lineFeeds c) more ++
                  triviaOfBlank blank), rest) := by
            intro fuel row hfuel
            have hcomment := gap_comment hc rest fuel row
            rw [ih hmore hfuel] at hcomment
            rw [List.append_assoc] at hcomment
            exact hcomment
          obtain ⟨fuel, rfl⟩ : exists n, fuel = n + 2 := ⟨fuel - 2, by omega⟩
          rw [gap_blank hb hhead (fuel + 1) row]
          cases b with
          | nil =>
              simp only
              rw [hread _ _ (by rw [List.length_append]; omega)]
              simp [placeComments, triviaOfBlank]
          | cons d b =>
              simp only
              rw [hread _ _ (by rw [List.length_append]; simp at hfuel; omega)]
              simp [placeComments, triviaOfBlank]

theorem gap_place {g : Gap} (h : g.lexes = true) {rest : List Char} (hrest : stops rest = true)
    {fuel : Nat} (hfuel : g.text.length < fuel) (row : Nat) :
    Lexer.gap fuel row (g.text ++ rest) = (g.place row, rest) :=
  gap_comments h hrest hfuel row

/-- A gap that is not empty keeps the characters of tokens apart. -/
theorem head_text {g : Gap} (h : g.lexes = true) {c : Char} (hc : g.text.head? = some c) :
    isGap c = true \/ c = '/' := by
  obtain ⟨comments, blank⟩ := g
  cases comments with
  | nil =>
      cases blank with
      | nil => cases hc
      | cons d rest =>
          simp only [text, commentsText, List.flatMap_nil, List.nil_append, List.head?_cons,
            Option.some.injEq] at hc
          simp only [lexes, commentsLex, List.all_cons, Bool.and_eq_true] at h
          rw [← hc]
          exact .inl h.left
  | cons first more =>
      obtain ⟨b, d⟩ := first
      simp only [lexes, commentsLex, Bool.and_eq_true] at h
      cases b with
      | nil =>
          have hhead := head_comment h.left.right
          cases d with
          | nil => cases hhead
          | cons e rest =>
              simp only [List.head?_cons, Option.some.injEq] at hhead
              simp [text, commentsText] at hc
              exact .inr (hc.symm.trans hhead)
      | cons e rest =>
          simp [text, commentsText] at hc
          rw [← hc]
          exact .inl (by simpa using (List.all_eq_true.mp h.left.left e List.mem_cons_self))

end Gap

end TypeScript
end SchemaTypes
