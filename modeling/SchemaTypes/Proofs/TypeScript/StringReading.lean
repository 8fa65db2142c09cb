import SchemaTypes.Proofs.TypeScript.LiteralValue
import SchemaTypes.Proofs.TypeScript.Lossless
import SchemaTypes.Proofs.TypeScript.Requoting

/-!
# What is read as a string

A string is read part by part behind its opening quote.  Beside characters and escapes,
blanks that start with a line break may stand in front of its closing quote or of a
comment.  Whatever is read as a string of a source is read as one by itself, and requoting
a single-quoted string changes its parts one by one, so that it is a string again.
-/

namespace SchemaTypes
namespace TypeScript

namespace Lexer

/-!
## Comments by themselves
-/

def EndsBefore (s next : List Char) : Prop :=
  Gap.isBlockComment s = true \/
    Gap.isLineComment s = true /\ next.head?.any endsLineComment = true

theorem blockComment_cons {c : Char} {s : List Char} (h : ¬(c = '*' /\ s.head? = some '/')) :
    blockComment (c :: s) = (blockComment s).map fun (t, rest) => (c :: t, rest) := by
  rw [blockComment.eq_2]
  intro rest hc hs
  exact h ⟨hc, by rw [hs, List.head?_cons]⟩

theorem blockComment_cons_self {c : Char} {s : List Char} (h : ¬(c = '*' /\ s.head? = some '/')) :
    blockComment (c :: s) = some (c :: s, []) <-> blockComment s = some (s, []) := by
  rw [blockComment_cons h]
  cases blockComment s with
  | none => simp
  | some found => simp [Prod.ext_iff]

/-- The text of a block comment is read as it is without what follows it. -/
theorem blockComment_self {s t rest : List Char} (h : blockComment s = some (t, rest)) :
    blockComment t = some (t, []) := by
  fun_induction blockComment s generalizing t rest with
  | case1 more =>
      cases h
      rfl
  | case2 c s hopen ih =>
      obtain ⟨⟨u, r⟩, hu, heq⟩ := Option.map_eq_some_iff.mp h
      cases heq
      have hhead : ¬(c = '*' /\ u.head? = some '/') := by
        rintro ⟨rfl, hslash⟩
        cases u with
        | nil => cases hslash
        | cons d u =>
            obtain rfl : d = '/' := by simpa using hslash
            exact hopen _ rfl (blockComment_split hu)
      rw [blockComment_cons hhead, ih hu]
      rfl
  | case3 => cases h

theorem endsBefore_of_comment? {s c rest : List Char} (h : comment? s = some (c, rest))
    (hrest : rest ≠ []) : EndsBefore c rest := by
  unfold comment? at h
  split at h
  · rename_i more
    cases h
    refine .inr ⟨List.all_takeWhile, ?_⟩
    have hends := List.head?_dropWhile_not (fun d => !endsLineComment d) more
    cases hdrop : more.dropWhile (!endsLineComment ·) with
    | nil => exact absurd hdrop hrest
    | cons d left =>
        rw [hdrop] at hends
        simpa using hends
  · obtain ⟨⟨t, r⟩, ht, heq⟩ := Option.map_eq_some_iff.mp h
    cases heq
    have hself := blockComment_self ht
    exact .inl (by simp [Gap.isBlockComment, hself])
  · cases h

theorem comment?_of_endsBefore {c next : List Char} (h : EndsBefore c next) (rest : List Char) :
    comment? (c ++ (next ++ rest)) = some (c, next ++ rest) := by
  rcases h with hblock | ⟨hline, hnext⟩
  · exact Gap.comment?_append (by rw [Gap.endsBefore, hblock, Bool.true_or]) rest
  · unfold Gap.isLineComment at hline
    split at hline
    · rename_i s
      have hends : (next ++ rest).head?.any (!endsLineComment ·) = false := by
        cases next with
        | nil => cases hnext
        | cons d next =>
            simpa using hnext
      have hsplit := Text.takeWhile_append_of_all hline hends
      simp only [List.cons_append]
      rw [comment?, hsplit.left, hsplit.right]
    · cases hline

theorem head_of_endsBefore {c next : List Char} (h : EndsBefore c next) :
    exists more, c = '/' :: more := by
  rcases h with h | ⟨h, -⟩
  · unfold Gap.isBlockComment at h
    split at h
    · exact ⟨_, rfl⟩
    · cases h
  · unfold Gap.isLineComment at h
    split at h
    · exact ⟨_, rfl⟩
    · cases h

theorem EndsBefore.of_head {c next other : List Char} (h : EndsBefore c next)
    (hhead : next.head? = other.head?) : EndsBefore c other := by
  rcases h with hblock | ⟨hline, hnext⟩
  · exact .inl hblock
  · exact .inr ⟨hline, by rw [← hhead]; exact hnext⟩

end Lexer

namespace Quoted

/-!
## Parts
-/

inductive Part where
  | piece (p : Piece)
  /-- A comment, with the blanks in front of it. -/
  | comment (gap s : List Char)
  /-- The blanks in front of the closing quote. -/
  | blank (s : List Char)
  deriving DecidableEq, Repr

def Part.text : Part -> List Char
  | piece p => p.text
  | comment gap s => gap ++ s
  | blank s => s

def partsText (ps : List Part) : List Char :=
  ps.flatMap Part.text

@[simp] theorem partsText_nil : partsText [] = [] :=
  rfl

@[simp] theorem partsText_cons (p : Part) (ps : List Part) :
    partsText (p :: ps) = p.text ++ partsText ps :=
  rfl

def isBreak (s : List Char) : Bool :=
  s.all isGap && s.head?.any fun c => c == '\n' || c == '\r'

def Reads (quote : Char) : List Part -> Prop
  | [] => True
  | .piece p :: ps => p.Fits quote (partsText ps ++ [quote]) /\ Reads quote ps
  | .comment gap s :: ps =>
      isBreak gap = true /\ Lexer.EndsBefore s (partsText ps ++ [quote]) /\ Reads quote ps
  | .blank s :: ps => isBreak s = true /\ ps = []

theorem isBreak_takeWhile {c : Char} (hc : (c == '\n' || c == '\r') = true) (s : List Char) :
    isBreak ((c :: s).takeWhile isGap) = true := by
  have hgap : isGap c = true := by
    rw [Bool.or_eq_true, beq_iff_eq, beq_iff_eq] at hc
    rcases hc with rfl | rfl <;> decide
  rw [isBreak, List.all_takeWhile, List.takeWhile_cons_of_pos hgap, List.head?_cons,
    Option.any_some, hc]
  rfl

theorem head_append_quote (s : List Char) (quote : Char) (rest : List Char) :
    (s ++ [quote] ++ rest).head? = (s ++ [quote]).head? := by
  cases s <;> rfl

theorem reads_of_stringFrom {quote : Char} {fuel : Nat} {s t rest : List Char}
    (h : Lexer.stringFrom quote fuel s = some (t, rest)) :
    exists ps, Reads quote ps /\ t = partsText ps ++ [quote] := by
  induction fuel generalizing s t rest with
  | zero => cases h
  | succ fuel ih =>
      cases Lexer.stringStep_of_stringFrom h with
      | close => exact ⟨[], trivial, rfl⟩
      | @escape _ e _ _ _ hescape hmore =>
          obtain ⟨ps, hps, rfl⟩ := ih hmore
          have hread := Lexer.isEscape_of_escape? hescape
          rw [Lexer.stringFrom_split hmore] at hread
          have hfits := hread.alike (.inl (head_append_quote (partsText ps) quote _))
          refine ⟨.piece (.escape e) :: ps, ⟨hfits, hps⟩, ?_⟩
          simp [Part.text, Piece.text]
      | @comment _ s _ _ _ _ hbreak hcomment hmore =>
          obtain ⟨ps, hps, rfl⟩ := ih hmore
          rw [Lexer.stringFrom_split hmore] at hcomment
          have hends := Lexer.endsBefore_of_comment? hcomment (by simp)
          have hends := hends.of_head (head_append_quote (partsText ps) quote _)
          refine ⟨.comment _ _ :: ps, ⟨isBreak_takeWhile hbreak s, hends, hps⟩, ?_⟩
          simp [Part.text]
      | @blank _ s _ hbreak hclose =>
          refine ⟨[.blank _], ⟨isBreak_takeWhile hbreak s, rfl⟩, ?_⟩
          simp [Part.text]
      | @plain c _ _ _ hplain hmore =>
          obtain ⟨ps, hps, rfl⟩ := ih hmore
          exact ⟨.piece (.plain c) :: ps, ⟨hplain, hps⟩, rfl⟩

theorem length_partsText_lt {quote : Char} {p : Part} {ps : List Part} (h : Reads quote (p :: ps))
    {fuel : Nat} (hfuel : (partsText (p :: ps)).length < fuel + 1) :
    (partsText ps).length < fuel := by
  have hne : forall {s : List Char}, isBreak s = true -> 0 < s.length := by
    intro s hs
    cases s with
    | nil => cases hs
    | cons c s => exact Nat.succ_pos _
  have hpart : 0 < p.text.length := by
    cases p with
    | piece p => cases p <;> exact Nat.succ_pos _
    | comment gap s =>
        rw [Part.text, List.length_append]
        exact Nat.add_pos_left (hne h.left) _
    | blank s => exact hne h.left
  rw [partsText_cons, List.length_append] at hfuel
  omega

/-- Blanks that start with a line break are no other part of a string. -/
theorem isBreak_split {quote : Char} (hquote : quote = '"' \/ quote = '\'') {gap s : List Char}
    (hgap : isBreak gap = true) (hs : s.head?.any isGap = false) :
    exists c more, gap ++ s = c :: more /\ (c == quote) = false /\ (c == '\\') = false /\
      (c == '\n' || c == '\r') = true /\ (c :: more).takeWhile isGap = gap /\
      (c :: more).dropWhile isGap = s := by
  rw [isBreak, Bool.and_eq_true] at hgap
  obtain ⟨hall, hhead⟩ := hgap
  obtain ⟨htake, hdrop⟩ := Text.takeWhile_append_of_all hall hs
  cases gap with
  | nil => cases hhead
  | cons c gap =>
      have hbreak : (c == '\n' || c == '\r') = true := hhead
      have hplain : (c == quote) = false /\ (c == '\\') = false := by
        have hends : c = '\n' \/ c = '\r' := by simpa using hbreak
        rcases hends with rfl | rfl <;> rcases hquote with rfl | rfl <;> decide
      exact ⟨c, gap ++ s, rfl, hplain.left, hplain.right, hbreak, htake, hdrop⟩

theorem stringFrom_comment {quote : Char} (hquote : quote = '"' \/ quote = '\'')
    {gap s c rest more left : List Char} {fuel : Nat} (hgap : isBreak gap = true)
    (hs : s.head?.any isGap = false) (hcomment : Lexer.comment? s = some (c, rest))
    (hmore : Lexer.stringFrom quote fuel rest = some (more, left)) :
    Lexer.stringFrom quote (fuel + 1) (gap ++ s) = some (gap ++ c ++ more, left) := by
  obtain ⟨d, tail, hsplit, hclose, hslash, hbreak, htake, hdrop⟩ := isBreak_split hquote hgap hs
  rw [hsplit, Lexer.stringFrom, htake, hdrop]
  simp [hclose, hslash, hbreak, hcomment, hmore]

theorem stringFrom_blank {quote : Char} (hquote : quote = '"' \/ quote = '\'')
    {gap : List Char} (hgap : isBreak gap = true) (fuel : Nat) (rest : List Char) :
    Lexer.stringFrom quote (fuel + 1) (gap ++ quote :: rest) = some (gap ++ [quote], rest) := by
  have hstop : (quote :: rest).head?.any isGap = false := by
    rcases hquote with rfl | rfl <;> rfl
  have hcomment : Lexer.comment? (quote :: rest) = none := by
    rcases hquote with rfl | rfl <;> rfl
  obtain ⟨d, tail, hsplit, hclose, hslash, hbreak, htake, hdrop⟩ := isBreak_split hquote hgap hstop
  rw [hsplit, Lexer.stringFrom, htake, hdrop]
  simp [hclose, hslash, hbreak, hcomment]

theorem stringFrom_partsText {quote : Char} (hquote : quote = '"' \/ quote = '\'')
    {ps : List Part} (h : Reads quote ps) (rest : List Char) {fuel : Nat}
    (hfuel : (partsText ps).length < fuel) :
    Lexer.stringFrom quote fuel (partsText ps ++ [quote] ++ rest) =
      some (partsText ps ++ [quote], rest) := by
  have hslash : quote ≠ '\\' := by
    rcases hquote with rfl | rfl <;> decide
  induction ps generalizing fuel with
  | nil =>
      obtain ⟨fuel, rfl⟩ : exists n, fuel = n + 1 := ⟨fuel - 1, by omega⟩
      simp [Lexer.stringFrom]
  | cons p ps ih =>
      obtain ⟨fuel, rfl⟩ : exists n, fuel = n + 1 := ⟨fuel - 1, by omega⟩
      have hlength := length_partsText_lt h hfuel
      cases p with
      | piece p =>
          obtain ⟨hpiece, hps⟩ := h
          have halike : Lexer.GoesOnAlike (partsText ps ++ [quote])
              (partsText ps ++ [quote] ++ rest) :=
            .inl (head_append_quote (partsText ps) quote rest).symm
          have hmore := hpiece.stringFrom hslash halike (ih hps hlength)
          simpa [Part.text] using hmore
      | comment gap s =>
          obtain ⟨hgap, hends, hps⟩ := h
          obtain ⟨more, rfl⟩ := Lexer.head_of_endsBefore hends
          have hread := Lexer.comment?_of_endsBefore hends rest
          have hmore := stringFrom_comment hquote hgap rfl hread (ih hps hlength)
          simpa [Part.text] using hmore
      | blank s =>
          obtain ⟨hgap, rfl⟩ := h
          have hmore := stringFrom_blank hquote hgap fuel rest
          simpa [Part.text] using hmore

/-!
## Requoting parts

A character that is no quote and no backslash splits a text for requoting, whatever
stands in front of it: a backslash there escapes it to no effect.
-/

def IsPlain (c : Char) : Prop :=
  c ≠ '"' /\ c ≠ '\\' /\ c ≠ '\''

theorem requoteInside_split {c : Char} (hc : IsPlain c) (s rest : List Char) :
    requoteInside (s ++ c :: rest) = requoteInside s ++ c :: requoteInside rest := by
  obtain ⟨hquote, hslash, hsingle⟩ := hc
  fun_induction requoteInside s with
  | case1 => exact requoteInside_cons hquote hslash rest
  | case2 => exact requoteInside.eq_4 c rest hsingle
  | case3 s ih =>
      rw [List.cons_append, List.cons_append, requoteInside, ih]
      rfl
  | case4 d s hd ih =>
      rw [List.cons_append, List.cons_append, requoteInside.eq_4 _ _ hd, ih]
      rfl
  | case5 s ih =>
      rw [List.cons_append, requoteInside, ih]
      rfl
  | case6 d s hend _ hpair hdouble ih =>
      rw [List.cons_append, requoteInside_cons hdouble (ne_slash hend hpair), ih]
      rfl

theorem escapesQuotes_split {c : Char} (hc : IsPlain c) (s rest : List Char) :
    escapesQuotes (requoteInside s ++ c :: rest) = escapesQuotes rest := by
  obtain ⟨hquote, hslash, hsingle⟩ := hc
  fun_induction requoteInside s with
  | case1 => exact escapesQuotes_plain hquote hslash rest
  | case2 => rfl
  | case3 s ih =>
      rw [List.cons_append, escapesQuotes_plain (by decide) (by decide), ih]
  | case4 d s hd ih => exact ih
  | case5 s ih => exact ih
  | case6 d s hend _ hpair hdouble ih =>
      rw [List.cons_append, escapesQuotes_plain hdouble (ne_slash hend hpair), ih]

/-!
## Requoting comments
-/

theorem head_requoteInside_slash {s : List Char} :
    (requoteInside s).head? = some '/' <-> s.head? = some '/' :=
  head_requoteInside_eq ⟨rfl, rfl, rfl⟩ s

theorem blockComment_requoteInside_cons {c : Char} {s : List Char}
    (h : Lexer.blockComment (c :: s) = some (c :: s, []))
    (ih : Lexer.blockComment s = some (s, []) ->
      Lexer.blockComment (requoteInside s) = some (requoteInside s, [])) :
    Lexer.blockComment (c :: requoteInside s) = some (c :: requoteInside s, []) := by
  by_cases hclose : c = '*' /\ s.head? = some '/'
  · obtain ⟨rfl, hslash⟩ := hclose
    cases s with
    | nil => cases hslash
    | cons d rest =>
        obtain rfl : d = '/' := by simpa using hslash
        obtain rfl : rest = [] := by simpa [Lexer.blockComment] using h
        rfl
  · have hopen : ¬(c = '*' /\ (requoteInside s).head? = some '/') := by
      rwa [head_requoteInside_slash]
    exact (Lexer.blockComment_cons_self hopen).mpr (ih ((Lexer.blockComment_cons_self hclose).mp h))

theorem blockComment_requoteInside {s : List Char} (h : Lexer.blockComment s = some (s, [])) :
    Lexer.blockComment (requoteInside s) = some (requoteInside s, []) := by
  have hself : forall {c : Char} {s : List Char}, c ≠ '*' ->
      (Lexer.blockComment (c :: s) = some (c :: s, []) <-> Lexer.blockComment s = some (s, [])) :=
    fun hc => Lexer.blockComment_cons_self fun hclose => hc hclose.left
  fun_induction requoteInside s with
  | case1 => exact h
  | case2 => exact h
  | case3 s ih =>
      rw [hself (by decide), hself (by decide)] at h
      exact (hself (by decide)).mpr (ih h)
  | case4 c s _ ih =>
      rw [hself (by decide)] at h
      exact (hself (by decide)).mpr (blockComment_requoteInside_cons h ih)
  | case5 s ih =>
      rw [hself (by decide)] at h
      exact (hself (by decide)).mpr ((hself (by decide)).mpr (ih h))
  | case6 c s _ _ _ _ ih => exact blockComment_requoteInside_cons h ih

theorem isBlockComment_split {s : List Char} (h : Gap.isBlockComment s = true) :
    exists t, s = t ++ ['/'] := by
  have hsplit : forall {s : List Char}, Lexer.blockComment s = some (s, []) ->
      exists t, s = t ++ ['/'] := by
    intro s h
    fun_induction Lexer.blockComment s with
    | case1 rest =>
        obtain rfl : rest = [] := by simpa using h
        exact ⟨['*'], rfl⟩
    | case2 c s hopen ih =>
        obtain ⟨found, hfound, heq⟩ := Option.map_eq_some_iff.mp h
        obtain rfl : found = (s, []) := by simpa [Prod.ext_iff] using heq
        obtain ⟨t, rfl⟩ := ih hfound
        exact ⟨c :: t, rfl⟩
    | case3 => cases h
  unfold Gap.isBlockComment at h
  split at h
  · obtain ⟨t, rfl⟩ := hsplit (eq_of_beq h)
    exact ⟨'/' :: '*' :: t, rfl⟩
  · cases h

/-- A plain character stands at the end of a comment or behind it, so that a comment and
what follows it are requoted one by one. -/
theorem isPlain_of_endsBefore {quote : Char} (hquote : quote = '"' \/ quote = '\'')
    {s t : List Char} (h : Lexer.EndsBefore s (t ++ [quote])) :
    exists c u, IsPlain c /\ (s = u ++ [c] \/ t = c :: u) := by
  have hplain : forall {c : Char}, endsLineComment c = true -> IsPlain c := by
    intro c hc
    refine ⟨?_, ?_, ?_⟩ <;> rintro rfl <;> cases hc
  rcases h with hblock | ⟨-, hnext⟩
  · obtain ⟨u, rfl⟩ := isBlockComment_split hblock
    exact ⟨'/', u, ⟨by decide, by decide, by decide⟩, .inl rfl⟩
  · cases t with
    | nil =>
        rcases hquote with rfl | rfl <;> cases hnext
    | cons c u =>
        exact ⟨c, u, hplain hnext, .inr rfl⟩

theorem endsBefore_requoteInside {s next other : List Char} (h : Lexer.EndsBefore s next)
    (hhead : next.head?.any endsLineComment = true -> other.head?.any endsLineComment = true) :
    Lexer.EndsBefore (requoteInside s) other := by
  rcases h with hblock | ⟨hline, hnext⟩
  · left
    unfold Gap.isBlockComment at hblock
    split at hblock
    · rename_i s
      have hread := blockComment_requoteInside (eq_of_beq hblock)
      rw [requoteInside_cons (by decide) (by decide), requoteInside_cons (by decide) (by decide)]
      simp [Gap.isBlockComment, hread]
    · cases hblock
  · right
    refine ⟨?_, hhead hnext⟩
    unfold Gap.isLineComment at hline
    split at hline
    · rename_i s
      rw [requoteInside_cons (by decide) (by decide), requoteInside_cons (by decide) (by decide)]
      rw [List.all_eq_true] at hline
      simp only [Gap.isLineComment, List.all_eq_true]
      intro c hc
      rcases mem_requoteInside hc with hmem | rfl
      · exact hline c hmem
      · rfl
    · cases hline

/-!
## Requoting strings
-/

/-- A part between single quotes as it stands between double quotes. -/
def Part.requote : Part -> Part
  | piece p => piece p.requote
  | comment gap s => comment gap (requoteInside s)
  | blank s => blank s

theorem isPlain_of_isGap {c : Char} (h : isGap c = true) : IsPlain c := by
  refine ⟨?_, ?_, ?_⟩ <;> rintro rfl <;> cases h

theorem requoteInside_break {s : List Char} (h : isBreak s = true) (rest : List Char) :
    requoteInside (s ++ rest) = s ++ requoteInside rest := by
  rw [isBreak, Bool.and_eq_true, List.all_eq_true] at h
  refine requoteInside_append (fun c hc => ?_) rest
  exact isPlain_of_isGap (h.left c hc)

theorem requoteInside_partsText {quote : Char} (hquote : quote = '"' \/ quote = '\'')
    {ps : List Part} (h : Reads quote ps) :
    requoteInside (partsText ps) = partsText (ps.map Part.requote) := by
  induction ps with
  | nil => rfl
  | cons p ps ih =>
      rw [partsText_cons, List.map_cons, partsText_cons]
      cases p with
      | piece p =>
          obtain ⟨hpiece, hps⟩ := h
          rw [Part.text, hpiece.requoteInside, ih hps]
          rfl
      | comment gap s =>
          obtain ⟨hgap, hends, hps⟩ := h
          have hsplit : requoteInside (s ++ partsText ps) =
              requoteInside s ++ requoteInside (partsText ps) := by
            obtain ⟨c, u, hc, rfl | hu⟩ := isPlain_of_endsBefore hquote hends
            · have hlast := requoteInside_split hc u []
              rw [requoteInside] at hlast
              rw [List.append_assoc, List.singleton_append, requoteInside_split hc, hlast,
                List.append_assoc, List.singleton_append]
            · rw [hu, requoteInside_split hc, requoteInside_cons hc.left hc.right.left]
          rw [Part.text, List.append_assoc, requoteInside_break hgap, hsplit, ih hps, Part.requote,
            Part.text, List.append_assoc]
      | blank s =>
          obtain ⟨hgap, rfl⟩ := h
          exact requoteInside_break hgap []

theorem any_head_append {p : Char -> Bool} {c : Char} (hc : p c = false) (s : List Char) :
    (s ++ [c]).head?.any p = s.head?.any p := by
  cases s with
  | nil => exact hc
  | cons d s => rfl

/-- Single-quoted parts are requoted into double-quoted ones. -/
theorem reads_requote {ps : List Part} (h : Reads '\'' ps) : Reads '"' (ps.map Part.requote) := by
  induction ps with
  | nil => trivial
  | cons p ps ih =>
      rw [List.map_cons]
      cases p with
      | piece p =>
          obtain ⟨hpiece, hps⟩ := h
          have halike := goesOnAlike_requoteInside (partsText ps)
          rw [requoteInside_partsText (.inr rfl) hps] at halike
          exact ⟨hpiece.requote halike, ih hps⟩
      | comment gap s =>
          obtain ⟨hgap, hends, hps⟩ := h
          refine ⟨hgap, endsBefore_requoteInside hends ?_, ih hps⟩
          intro hnext
          rw [any_head_append rfl] at hnext
          rw [any_head_append rfl, ← requoteInside_partsText (.inr rfl) hps,
            any_head_requoteInside ⟨rfl, rfl, rfl⟩]
          exact hnext
      | blank s =>
          obtain ⟨hgap, rfl⟩ := h
          exact ⟨hgap, rfl⟩

/-!
## Quotes inside

Between single quotes any double quote is requoted into an escaped one.  Between double
quotes one without a backslash can stand in a comment only.
-/

theorem escapesQuotes_append {s : List Char} (h : forall c, c ∈ s -> IsPlain c) (rest : List Char) :
    escapesQuotes (s ++ rest) = escapesQuotes rest := by
  induction s with
  | nil => rfl
  | cons c s ih =>
      obtain ⟨hquote, hslash, -⟩ := h c List.mem_cons_self
      rw [List.cons_append, escapesQuotes_plain hquote hslash]
      exact ih fun d hd => h d (List.mem_cons_of_mem c hd)

theorem escapesQuotes_break {s : List Char} (h : isBreak s = true) (rest : List Char) :
    escapesQuotes (s ++ rest) = escapesQuotes rest := by
  rw [isBreak, Bool.and_eq_true, List.all_eq_true] at h
  exact escapesQuotes_append (fun c hc => isPlain_of_isGap (h.left c hc)) rest

theorem Piece.Fits.escapesQuotes {p : Piece} {next : List Char} (h : p.Fits '"' next)
    (rest : List Char) :
    Quoted.escapesQuotes (p.text ++ rest) = Quoted.escapesQuotes rest := by
  cases p with
  | plain c => exact escapesQuotes_plain h.left h.right.left rest
  | escape s =>
      obtain ⟨c, more, rfl, hmore⟩ := head_of_isEscape h
      exact escapesQuotes_append hmore rest

theorem escapesQuotes_requoteInside {ps : List Part} (h : Reads '\'' ps) :
    escapesQuotes (requoteInside (partsText ps)) = true := by
  induction ps with
  | nil => rfl
  | cons p ps ih =>
      rw [partsText_cons]
      cases p with
      | piece p =>
          obtain ⟨hpiece, hps⟩ := h
          have hrequoted := hpiece.requote (goesOnAlike_requoteInside (partsText ps))
          rw [Part.text, hpiece.requoteInside, hrequoted.escapesQuotes, ih hps]
      | comment gap s =>
          obtain ⟨hgap, hends, hps⟩ := h
          rw [Part.text, List.append_assoc, requoteInside_break hgap, escapesQuotes_break hgap]
          obtain ⟨c, u, hc, rfl | hu⟩ := isPlain_of_endsBefore (.inr rfl) hends
          · rw [List.append_assoc, List.singleton_append, requoteInside_split hc,
              escapesQuotes_split hc, ih hps]
          · have hrest := ih hps
            rw [hu, requoteInside_cons hc.left hc.right.left,
              escapesQuotes_plain hc.left hc.right.left] at hrest
            rw [hu, requoteInside_split hc, escapesQuotes_split hc, hrest]
      | blank s =>
          obtain ⟨hgap, rfl⟩ := h
          rw [Part.text, requoteInside_break hgap, escapesQuotes_break hgap]
          rfl

def Part.outside : Part -> List Char
  | piece p => p.text
  | comment gap _ => gap
  | blank s => s

def outsideComments (ps : List Part) : List Char :=
  ps.flatMap Part.outside

theorem escapesQuotes_outside {ps : List Part} (h : Reads '"' ps) :
    escapesQuotes (outsideComments ps) = true := by
  induction ps with
  | nil => rfl
  | cons p ps ih =>
      rw [outsideComments, List.flatMap_cons]
      cases p with
      | piece p =>
          obtain ⟨hpiece, hps⟩ := h
          exact (hpiece.escapesQuotes _).trans (ih hps)
      | comment gap s =>
          obtain ⟨hgap, -, hps⟩ := h
          exact (escapesQuotes_break hgap _).trans (ih hps)
      | blank s =>
          obtain ⟨hgap, rfl⟩ := h
          exact escapesQuotes_break hgap []

/-!
## Strings of a source
-/

/-- The texts that are read as one string somewhere in a source. -/
def IsString (s : List Char) : Prop :=
  exists source tokens, tokens? source = some tokens /\
    exists t, t ∈ tokens /\ t.kind = .string /\ t.text = s

end Quoted

namespace Lexer

theorem string_of_next? {fuel : Nat} {operand inTemplate : Bool} {s t rest : List Char}
    (h : next? fuel operand inTemplate s = some (.string, t, rest)) :
    exists quote inside left, (quote = '"' \/ quote = '\'') /\ t = quote :: inside /\
      stringFrom quote fuel left = some (inside, rest) := by
  cases nextStep_of_next? h with
  | string hquote hbody => exact ⟨_, _, _, hquote, rfl, hbody⟩
  | template hkind => exact absurd rfl hkind

theorem string_of_tokensFrom {fuel row : Nat} {braces : List Nat} {operand : Bool} {cs : List Char}
    {ts : List Token} (h : tokensFrom fuel braces operand row cs = some ts) {t : Token}
    (ht : t ∈ ts) (hkind : t.kind = .string) :
    exists quote inside fuel left rest, (quote = '"' \/ quote = '\'') /\
      t.text = quote :: inside /\ stringFrom quote fuel left = some (inside, rest) := by
  induction fuel generalizing braces operand row cs ts with
  | zero => cases h
  | succ fuel ih =>
      unfold tokensFrom at h
      dsimp only at h
      split at h
      · split at h
        · cases h
          obtain rfl := List.mem_singleton.mp ht
          cases hkind
        · cases h
      · obtain ⟨⟨kind, text, rest⟩, hnext, h⟩ := Option.bind_eq_some_iff.mp h
        obtain ⟨more, hmore, h⟩ := Option.bind_eq_some_iff.mp h
        cases h
        rcases List.mem_cons.mp ht with rfl | ht
        · obtain rfl : kind = .string := hkind
          obtain ⟨quote, inside, left, hquote, htext, hread⟩ := string_of_next? hnext
          exact ⟨quote, inside, _, left, _, hquote, htext, hread⟩
        · exact ih hmore ht

end Lexer

namespace Quoted

theorem nul_not_mem_of_tokens {source : List Char} {ts : List Token} (h : tokens? source = some ts)
    {t : Token} (ht : t ∈ ts) : '\x00' ∉ t.text := by
  intro hmem
  have hsource : '\x00' ∈ source := by
    rw [← source_of_tokens h]
    exact List.mem_flatMap.mpr ⟨t, ht, List.mem_append_right _ hmem⟩
  rw [tokens?, if_pos (by simpa using hsource)] at h
  cases h

theorem reads_of_isString {s : List Char} (h : IsString s) :
    exists quote ps, (quote = '"' \/ quote = '\'') /\ Reads quote ps /\
      s = quote :: partsText ps ++ [quote] /\ '\x00' ∉ s := by
  obtain ⟨source, tokens, htokens, t, ht, hkind, rfl⟩ := h
  have hzero := nul_not_mem_of_tokens htokens ht
  unfold tokens? at htokens
  split at htokens
  · cases htokens
  · obtain ⟨quote, inside, fuel, left, rest, hquote, htext, hread⟩ :=
      Lexer.string_of_tokensFrom htokens ht hkind
    obtain ⟨ps, hps, rfl⟩ := reads_of_stringFrom hread
    exact ⟨quote, ps, hquote, hps, htext, hzero⟩

theorem tokens?_of_reads {quote : Char} (hquote : quote = '"' \/ quote = '\'') {ps : List Part}
    (h : Reads quote ps) {s : List Char} (hs : s = quote :: partsText ps ++ [quote])
    (hzero : '\x00' ∉ s) :
    tokens? s = some [⟨[], .string, s, 0⟩, ⟨[], .endOfSource, [], Text.lineFeeds s⟩] := by
  subst hs
  rw [List.cons_append] at hzero ⊢
  obtain ⟨fuel, hfuel⟩ : exists n, (partsText ps ++ [quote]).length = n + 1 :=
    ⟨(partsText ps).length, by simp⟩
  have hlength : (partsText ps).length < fuel + 3 := by
    rw [List.length_append, List.length_singleton] at hfuel
    omega
  have hread := stringFrom_partsText hquote h [] hlength
  rw [List.append_nil] at hread
  generalize partsText ps ++ [quote] = inside at *
  have hopen : (quote == '"' || quote == '\'') = true := by simpa using hquote
  have hnext : forall inTemplate, Lexer.next? (fuel + 2 + 1) false inTemplate (quote :: inside) =
      some (.string, quote :: inside, []) := by
    intro inTemplate
    simp [Lexer.next?, hopen, hread]
  have hgap : Lexer.gap (fuel + 2 + 1) 0 (quote :: inside) = ([], quote :: inside) := by
    refine Gap.gap_stop ?_ _ _
    rcases hquote with rfl | rfl <;> rfl
  have hend : forall row, Lexer.tokensFrom (fuel + 2) [] true row [] =
      some [⟨[], .endOfSource, [], row⟩] := by
    intro row
    rw [Lexer.tokensFrom, Gap.gap_stop rfl]
    rfl
  rw [tokens?, if_neg (by simpa using hzero), List.length_cons, hfuel, Lexer.tokensFrom, hgap]
  simp only [List.flatMap_nil, Text.lineFeeds_nil, Nat.zero_add, hnext]
  exact congrArg (Option.map (⟨[], .string, quote :: inside, 0⟩ :: ·)) (hend _)

theorem tokens?_of_isString {s : List Char} (h : IsString s) :
    tokens? s = some [⟨[], .string, s, 0⟩, ⟨[], .endOfSource, [], Text.lineFeeds s⟩] := by
  obtain ⟨quote, ps, hquote, hps, hs, hzero⟩ := reads_of_isString h
  exact tokens?_of_reads hquote hps hs hzero

theorem isString_of_tokens {s : List Char} (row : Nat)
    (h : tokens? s = some [⟨[], .string, s, 0⟩, ⟨[], .endOfSource, [], row⟩]) : IsString s :=
  ⟨s, _, h, ⟨[], .string, s, 0⟩, List.mem_cons_self, rfl, rfl⟩

/-- A string is requoted into a double-quoted string that stands for the same units, and
requoting it again changes nothing.  A double quote stands escaped in it, unless the string
was double-quoted before and the quote is part of a comment. -/
theorem isString_requote {s : List Char} (h : IsString s) :
    IsString (requote s) /\
      (exists ps, Reads '"' ps /\ requote s = '"' :: partsText ps ++ ['"'] /\
        escapesQuotes (outsideComments ps) = true) /\
      (s.head? = some '\'' -> escapesQuotes (between (requote s)) = true) /\
      (s.head? = some '"' -> requote s = s) /\
      value? (requote s) = value? s /\ requote (requote s) = requote s := by
  obtain ⟨quote, ps, rfl | rfl, hps, hs, hzero⟩ := reads_of_isString h
  · have hsame : requote s = s := by rw [hs, List.cons_append, requote_double]
    refine ⟨hsame.symm ▸ h, ⟨ps, hps, hsame.trans hs, escapesQuotes_outside hps⟩, ?_,
      fun _ => hsame, value?_requote s, requote_requote s⟩
    rw [hs]
    intro hhead
    cases hhead
  · have hrequoted := reads_requote hps
    have htext := requoteInside_partsText (.inr rfl) hps
    have hrequote : requote s = '"' :: requoteInside (partsText ps) ++ ['"'] := by
      rw [hs, requote_quoted]
    rw [htext] at hrequote
    have hclean := not_mem_requote hzero (by decide) (by decide)
    have htokens := tokens?_of_reads (.inl rfl) hrequoted hrequote hclean
    refine ⟨isString_of_tokens _ htokens,
      ⟨_, hrequoted, hrequote, escapesQuotes_outside hrequoted⟩, ?_, ?_,
      value?_requote s, requote_requote s⟩
    · rw [hrequote, between_quoted, ← htext]
      exact fun _ => escapesQuotes_requoteInside hps
    · rw [hs]
      intro hhead
      cases hhead

theorem isString_requote_mixed :
    IsString "'a\"\\'\n/*\"*/\\x41'".toList /\
      value? "'a\"\\'\n/*\"*/\\x41'".toList =
        some [97, 34, 39, 10, 47, 42, 34, 42, 47, 65] /\
      requote "'a\"\\'\n/*\"*/\\x41'".toList = "\"a\\\"'\n/*\\\"*/\\x41\"".toList /\
      IsString "\"a\\\"'\n/*\\\"*/\\x41\"".toList /\
      value? "\"a\\\"'\n/*\\\"*/\\x41\"".toList =
        some [97, 34, 39, 10, 47, 42, 34, 42, 47, 65] := by
  have h : IsString "'a\"\\'\n/*\"*/\\x41'".toList := isString_of_tokens 1 rfl
  have hvalue : value? "'a\"\\'\n/*\"*/\\x41'".toList =
      some [97, 34, 39, 10, 47, 42, 34, 42, 47, 65] := by
    decide +kernel
  obtain ⟨hrequoted, -, -, -, hsame, -⟩ := isString_requote h
  exact ⟨h, hvalue, rfl, hrequoted, hsame.trans hvalue⟩

/-- A double quote in a comment of a double-quoted string stays as it is. -/
theorem requote_commented_quote :
    IsString "\"x\n/*\"*/\"".toList /\
      escapesQuotes (between (requote "\"x\n/*\"*/\"".toList)) = false :=
  ⟨isString_of_tokens 1 rfl, rfl⟩

end Quoted
end TypeScript
end SchemaTypes
