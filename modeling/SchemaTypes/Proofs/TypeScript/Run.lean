import SchemaTypes.Proofs.TypeScript.Lexeme
import SchemaTypes.TypeScript.Grammar.Statements

/-!
# Running parsers

What the parsers of single tokens and the combinations of parsers do on a given list
of tokens.  Each rule of the grammar is then run by rewriting.
-/

namespace SchemaTypes
namespace TypeScript

/-!
## Tokens
-/

namespace Token

theorem kind_of_isMark {t : Token} {c : Char} (h : t.isMark c = true) : t.kind = .mark := by
  simp only [isMark, Bool.and_eq_true, beq_iff_eq] at h
  exact h.left

theorem kind_of_isWord {t : Token} {w : String} (h : t.isWord w = true) : t.kind = .word := by
  simp only [isWord, Bool.and_eq_true, beq_iff_eq] at h
  exact h.left

theorem text_of_isMark {t : Token} {c : Char} (h : t.isMark c = true) : t.text = [c] := by
  simp only [isMark, Bool.and_eq_true, beq_iff_eq] at h
  exact h.right

theorem isMark_of_kind {t : Token} (h : t.kind ≠ .mark) (c : Char) : t.isMark c = false := by
  simp [isMark, h]

theorem isWord_of_kind {t : Token} (h : t.kind ≠ .word) (w : String) : t.isWord w = false := by
  simp [isWord, h]

theorem isMark_of_isMark {t : Token} {c d : Char} (h : t.isMark c = true) (hne : c ≠ d) :
    t.isMark d = false := by
  simp [isMark, text_of_isMark h, hne]

theorem isWord_of_isWord {t : Token} {w v : String} (h : t.isWord w = true) (hne : w ≠ v) :
    t.isWord v = false := by
  rw [Token.isWord, Bool.and_eq_true, beq_iff_eq, beq_iff_eq] at h
  rw [Token.isWord, h.right, Bool.and_eq_false_iff, beq_eq_false_iff_ne]
  refine .inr ?_
  rw [beq_eq_false_iff_ne]
  intro heq
  exact hne (String.toList_inj.mp heq)

theorem ne_endOfSource_of_isMark {t : Token} {c : Char} (h : t.isMark c = true) :
    t.kind ≠ .endOfSource := by
  rw [kind_of_isMark h]
  decide

theorem ne_endOfSource_of_isWord {t : Token} {w : String} (h : t.isWord w = true) :
    t.kind ≠ .endOfSource := by
  rw [kind_of_isWord h]
  decide

def written : List Token -> List Char
  | [] => []
  | t :: more => t.text ++ source more

theorem textUpTo_append (ts rest : List Token) : textUpTo (ts ++ rest) rest = written ts := by
  have hlength : (ts ++ rest).length - rest.length = ts.length := by simp
  have hgap : gapRead (ts ++ rest)[ts.length]? rest = [] := by
    cases rest with
    | nil => simp [gapRead]
    | cons r rest => simp [gapRead]
  unfold textUpTo
  simp only [hlength, hgap, List.take_left]
  cases ts with
  | nil => rfl
  | cons t more => simp [written]

theorem endRowUpTo_append (ts rest : List Token) :
    endRowUpTo (ts ++ rest) rest = (ts.getLast?.map endRow).getD 0 := by
  have hlength : (ts ++ rest).length - rest.length = ts.length := by simp
  have hgap : gapRead (ts ++ rest)[ts.length]? rest = [] := by
    cases rest with
    | nil => simp [gapRead]
    | cons r rest => simp [gapRead]
  unfold endRowUpTo
  simp only [hlength, hgap, List.take_left]
  rfl

end Token

/-!
## Tokens of lexemes
-/

namespace Lexeme

variable {g : Gap} {row : Nat} {b s : List Char} {c d : Char} {w v : String}

@[simp] theorem token_kind (l : Lexeme) : (l.token row).kind = l.kind := by
  rw [token]

@[simp] theorem token_text (l : Lexeme) : (l.token row).text = l.text := by
  rw [token]

@[simp] theorem isMark_mark : ((mark b c).token row).isMark d = (c == d) := by
  simp [Token.isMark]

@[simp] theorem isMark_word : ((word g s).token row).isMark d = false := by
  simp [Token.isMark]

@[simp] theorem isMark_keyword : ((keyword g w).token row).isMark d = false := by
  simp [Token.isMark]

@[simp] theorem isMark_number : ((number g s).token row).isMark d = false := by
  simp [Token.isMark]

@[simp] theorem isMark_string : ((string g s).token row).isMark d = false := by
  simp [Token.isMark]

@[simp] theorem isMark_leaf : ((leaf g s).token row).isMark d = false := by
  rw [leaf]
  split <;> simp

@[simp] theorem isWord_mark : ((mark b c).token row).isWord v = false := by
  simp [Token.isWord]

@[simp] theorem isWord_word : ((word g s).token row).isWord v = (s == v.toList) := by
  simp [Token.isWord]

@[simp] theorem isWord_keyword : ((keyword g w).token row).isWord v = (w == v) := by
  have heq : (w.toList == v.toList) = (w == v) := by
    rw [Bool.eq_iff_iff, beq_iff_eq, beq_iff_eq, String.toList_inj]
  simp [Token.isWord, heq]

@[simp] theorem isWord_number : ((number g s).token row).isWord v = false := by
  simp [Token.isWord]

@[simp] theorem isWord_string : ((string g s).token row).isWord v = false := by
  simp [Token.isWord]

theorem isWord_of_text {l : Lexeme} {w : String} (h : l.text ≠ w.toList) :
    (l.token row).isWord w = false := by
  rw [Token.isWord, token_text, beq_eq_false_iff_ne.mpr h, Bool.and_false]

theorem comments_token {l : Lexeme} (h : l.gap.comments = []) : (l.token row).comments = [] := by
  have hplace : l.gap.place row = Gap.triviaOfBlank l.gap.blank := by
    simp [Gap.place, h, Gap.placeComments]
  rw [Token.comments, token]
  simp only [hplace]
  cases l.gap.blank with
  | nil => rfl
  | cons c rest => rfl

@[simp] theorem comments_ofBlank (s : List Char) : (Gap.ofBlank s).comments = [] :=
  rfl

theorem glued_token_of_blank {l : Lexeme} (h : l.gap = .ofBlank (c :: b)) :
    (l.token row).glued = false := by
  simp [Token.glued, token, h, Gap.triviaOfBlank]

theorem source_place (row : Nat) (ls : List Lexeme) : Token.source (place row ls) = source ls := by
  induction ls generalizing row with
  | nil => rfl
  | cons l ls ih =>
      have hmore : (place (row + rows [l]) ls).flatMap (fun t => t.gapText ++ t.text) = source ls := ih _
      rw [place_cons, Token.source, List.flatMap_cons, hmore, source_cons, Token.gapText, token,
        Gap.triviaText_place]

theorem written_place (row : Nat) (l : Lexeme) (ls : List Lexeme) :
    Token.written (place row (l :: ls)) = l.text ++ source ls := by
  rw [place_cons, Token.written, source_place, token_text]

end Lexeme

/-!
## Parsers of single tokens
-/

namespace Parser

variable {α β : Type} {t : Token} {ts rest : List Token}

theorem run_failure : (failure : Parser α).run ts = none :=
  rfl

theorem run_peek : peek.run (t :: ts) = some (t, t :: ts) :=
  rfl

theorem run_second : second.run (t :: ts) = some (ts.head?, t :: ts) := by
  cases ts <;> rfl

theorem run_advance (h : t.kind ≠ .endOfSource) : advance.run (t :: ts) = some (t, ts) := by
  simp [advance, h]

theorem run_atMark (c : Char) : (atMark c).run (t :: ts) = some (t.isMark c, t :: ts) :=
  rfl

theorem run_atWord (w : String) : (atWord w).run (t :: ts) = some (t.isWord w, t :: ts) :=
  rfl

theorem run_atKind (k : TokenKind) : (atKind k).run (t :: ts) = some (t.kind == k, t :: ts) :=
  rfl

theorem run_require_true : (require true).run ts = some ((), ts) :=
  rfl

theorem run_require_false : (require false).run ts = none :=
  rfl

theorem run_mark {c : Char} (h : t.isMark c = true) : (mark c).run (t :: ts) = some (t, ts) := by
  have hkind := Token.ne_endOfSource_of_isMark h
  simp [mark, run_atMark, h, run_require_true, run_advance hkind]

theorem run_mark_none {c : Char} (h : t.isMark c = false) : (mark c).run (t :: ts) = none := by
  simp [mark, run_atMark, h, run_require_false]

theorem run_word {w : String} (h : t.isWord w = true) : (word w).run (t :: ts) = some (t, ts) := by
  have hkind := Token.ne_endOfSource_of_isWord h
  simp [word, run_atWord, h, run_require_true, run_advance hkind]

theorem run_word_none {w : String} (h : t.isWord w = false) : (word w).run (t :: ts) = none := by
  simp [word, run_atWord, h, run_require_false]

theorem run_mark? (c : Char) :
    (mark? c).run (t :: ts) = if t.isMark c then some (true, ts) else some (false, t :: ts) := by
  cases h : t.isMark c with
  | false => simp [mark?, run_atMark, h]
  | true =>
      have hkind := Token.ne_endOfSource_of_isMark h
      simp [mark?, run_atMark, h, run_advance hkind]

theorem run_either? (c d : Char) :
    (either? (mark? c) (mark? d)).run (t :: ts) =
      if t.isMark c || t.isMark d then some (true, ts) else some (false, t :: ts) := by
  cases hc : t.isMark c <;> cases hd : t.isMark d <;> simp [either?, run_mark?, hc, hd]

theorem run_word? (w : String) :
    (word? w).run (t :: ts) = if t.isWord w then some (true, ts) else some (false, t :: ts) := by
  cases h : t.isWord w with
  | false => simp [word?, run_atWord, h]
  | true =>
      have hkind := Token.ne_endOfSource_of_isWord h
      simp [word?, run_atWord, h, run_advance hkind]

theorem run_comments : comments.run (t :: ts) = some (t.comments, t :: ts) :=
  rfl

theorem run_commentTypes : commentTypes.run (t :: ts) = some (t.comments.map TypeTree.ofComment, t :: ts) :=
  rfl

theorem run_endsHere (context : Context) :
    (endsHere context).run ts = some (context.endsBefore ts, ts) :=
  rfl

theorem run_atMarks (op : String) :
    (atMarks op).run ts = some (startsWithMarks ts op.toList, ts) :=
  rfl

theorem run_wordOutside {excluded : List String} (hkind : t.kind = .word)
    (h : forall w, w ∈ excluded -> t.isWord w = false) :
    (wordOutside excluded).run (t :: ts) = some (t, ts) := by
  have hany : excluded.any t.isWord = false := by
    rw [List.any_eq_false]
    intro w hw
    rw [h w hw]
    decide
  have hend : t.kind ≠ .endOfSource := by
    rw [hkind]
    decide
  simp [wordOutside, run_peek, hkind, hany, run_require_true, run_advance hend]

theorem run_wordOutside_none {excluded : List String} (hkind : t.kind ≠ .word) :
    (wordOutside excluded).run (t :: ts) = none := by
  have hnot : (t.kind == .word) = false := beq_eq_false_iff_ne.mpr hkind
  simp only [wordOutside, StateT.run_bind, run_peek, Option.bind_eq_bind, Option.bind_some, hnot,
    Bool.false_and, run_require_false, Option.bind_none]

/-!
## Combinations
-/

theorem run_orElse_some {p q : Parser α} {r : α × List Token} (h : p.run ts = some r) :
    (p <|> q).run ts = some r := by
  have hrun : (p <|> q).run ts = (p.run ts <|> q.run ts) := rfl
  rw [hrun, h]
  rfl

theorem run_orElse_none {p q : Parser α} (h : p.run ts = none) : (p <|> q).run ts = q.run ts := by
  have hrun : (p <|> q).run ts = (p.run ts <|> q.run ts) := rfl
  rw [hrun, h]
  cases q.run ts <;> rfl

theorem run_bind_some {p : Parser α} {f : α -> Parser β} {a : α} (h : p.run ts = some (a, rest)) :
    (p >>= f).run ts = (f a).run rest := by
  simp [h]

theorem run_bind_none {p : Parser α} {f : α -> Parser β} (h : p.run ts = none) :
    (p >>= f).run ts = none := by
  simp [h]

theorem run_map_some {p : Parser α} {f : α -> β} {a : α} (h : p.run ts = some (a, rest)) :
    (f <$> p).run ts = some (f a, rest) := by
  simp [h]

theorem run_optional?_some {p : Parser α} {a : α} (h : p.run ts = some (a, rest)) :
    (optional? p).run ts = some (some a, rest) :=
  run_orElse_some (run_map_some h)

theorem run_optional?_none {p : Parser α} (h : p.run ts = none) :
    (optional? p).run ts = some (none, ts) := by
  rw [optional?, run_orElse_none]
  · rfl
  · simp [h]

theorem run_manyFrom_nil {p : Parser α} (h : p.run ts = none) (fuel : Nat) :
    (manyFrom p fuel).run ts = some ([], ts) := by
  cases fuel with
  | zero => rfl
  | succ fuel => simp [manyFrom, run_optional?_none h]

theorem run_manyFrom_cons {p : Parser α} {a : α} {as : List α} {mid : List Token} {fuel : Nat}
    (h : p.run ts = some (a, mid)) (hmore : (manyFrom p fuel).run mid = some (as, rest)) :
    (manyFrom p (fuel + 1)).run ts = some (a :: as, rest) := by
  simp [manyFrom, run_optional?_some h, hmore]

theorem run_many {p : Parser α} {as : List α} (h : (manyFrom p ts.length).run ts = some (as, rest)) :
    (many p).run ts = some (as, rest) := by
  simp [many, h]

theorem run_many_nil {p : Parser α} (h : p.run ts = none) : (many p).run ts = some ([], ts) :=
  run_many (run_manyFrom_nil h _)

theorem run_withText {p : Parser α} {a : α} {ts : List Token} (h : p.run (ts ++ rest) = some (a, rest)) :
    (withText p).run (ts ++ rest) = some ((a, Token.written ts), rest) := by
  simp only [withText, StateT.run_bind, StateT.run_get, Option.pure_def, Option.bind_eq_bind,
    Option.bind_some, h, Token.textUpTo_append, StateT.run_pure]

theorem run_textOf {p : Parser α} {a : α} {ts : List Token} (h : p.run (ts ++ rest) = some (a, rest)) :
    (textOf p).run (ts ++ rest) = some (Token.written ts, rest) := by
  simp only [textOf, StateT.run_bind, run_withText h, Option.bind_eq_bind, Option.bind_some]
  rfl

end Parser
end TypeScript
end SchemaTypes
