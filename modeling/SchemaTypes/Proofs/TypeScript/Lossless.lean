import SchemaTypes.Proofs.Steps
import SchemaTypes.Proofs.TypeScript.Literal

/-!
# Tokens give back their source

Each piece of a source is read from the front of what is left, so the gaps and texts of
the tokens, set one after the other, are the source again.
-/

namespace SchemaTypes
namespace TypeScript
namespace Lexer

variable {s t rest : List Char}

/-!
## Gaps
-/

theorem blockComment_split (h : blockComment s = some (t, rest)) : s = t ++ rest := by
  fun_induction blockComment s generalizing t rest with
  | case1 more =>
      cases h
      rfl
  | case2 c more _ ih =>
      obtain ⟨⟨s', r'⟩, hmore, heq⟩ := Option.map_eq_some_iff.mp h
      cases heq
      rw [ih hmore, List.cons_append]
  | case3 => cases h

theorem comment?_split (h : comment? s = some (t, rest)) : s = t ++ rest := by
  unfold comment? at h
  split at h
  · cases h
    simp
  · obtain ⟨⟨s', r'⟩, hmore, heq⟩ := Option.map_eq_some_iff.mp h
    cases heq
    rw [blockComment_split hmore]
    rfl
  · cases h

theorem gap_split (fuel row : Nat) (cs : List Char) :
    cs = (gap fuel row cs).1.flatMap Trivia.text ++ (gap fuel row cs).2 := by
  fun_induction gap fuel row cs with
  | case1 row cs => rfl
  | case2 fuel row cs _ s rest hcomment more rest' hgap ih =>
      rw [hgap] at ih
      rw [comment?_split hcomment, List.flatMap_cons, List.append_assoc, ← ih, Trivia.text]
  | case3 fuel row cs _ _ => rfl
  | case4 fuel row cs _ more rest' hgap ih =>
      rw [hgap] at ih
      rw [List.flatMap_cons, List.append_assoc, ← ih, Trivia.text, List.takeWhile_append_dropWhile]

theorem comment_opens (h : comment? s = some (t, rest)) : exists more, t = '/' :: more := by
  unfold comment? at h
  split at h
  · cases h
    exact ⟨_, rfl⟩
  · obtain ⟨_, _, heq⟩ := Option.map_eq_some_iff.mp h
    cases heq
    exact ⟨_, rfl⟩
  · cases h

theorem comments_gap (fuel row : Nat) (cs : List Char) {c : Comment}
    (hc : c ∈ (gap fuel row cs).1.filterMap Trivia.comment?) : exists more, c.text = '/' :: more := by
  fun_induction gap fuel row cs with
  | case1 row cs => cases hc
  | case2 fuel row cs _ s rest hcomment more rest' hgap ih =>
      rw [hgap] at ih
      rcases List.mem_cons.mp hc with rfl | hc
      · exact comment_opens hcomment
      · exact ih hc
  | case3 fuel row cs _ _ => cases hc
  | case4 fuel row cs _ more rest' hgap ih =>
      rw [hgap] at ih
      exact ih hc

/-!
## Words and numbers
-/

theorem namePartsFrom_split (fuel : Nat) (cs : List Char) :
    cs = (namePartsFrom fuel cs).1 ++ (namePartsFrom fuel cs).2 := by
  fun_induction namePartsFrom fuel cs with
  | case1 cs => rfl
  | case2 fuel cs s rest hescape more rest' hmore ih =>
      rw [hmore] at ih
      rw [nameEscape?_split hescape, List.append_assoc, ← ih]
  | case3 fuel c rest _ more rest' hmore _ ih =>
      rw [hmore] at ih
      rw [List.cons_append, ← ih]
  | case4 => rfl
  | case5 => rfl

theorem name?_split {fuel : Nat} (h : name? fuel s = some (t, rest)) : s = t ++ rest := by
  have hgo : forall first after : List Char,
      some (first ++ (namePartsFrom fuel after).1, (namePartsFrom fuel after).2) = some (t, rest) ->
      first ++ after = t ++ rest := by
    intro first after heq
    cases heq
    rw [List.append_assoc, ← namePartsFrom_split]
  unfold name? at h
  split at h
  · rename_i hescape
    rw [nameEscape?_split hescape]
    exact hgo _ _ h
  · split at h
    · split at h
      · exact hgo [_] _ h
      · cases h
    · cases h

theorem digitsFrom_split (isDigit : Char -> Bool) (cs : List Char) :
    cs = (digitsFrom isDigit cs).1 ++ (digitsFrom isDigit cs).2 := by
  fun_induction digitsFrom isDigit cs with
  | case1 => rfl
  | case2 c rest _ more rest' hmore ih =>
      rw [hmore] at ih
      rw [List.cons_append, List.cons_append, ← ih]
  | case3 => rfl
  | case4 c rest _ _ more rest' hmore ih =>
      rw [hmore] at ih
      rw [List.cons_append, ← ih]
  | case5 => rfl

theorem digits?_split {isDigit : Char -> Bool} (h : digits? isDigit s = some (t, rest)) :
    s = t ++ rest := by
  unfold digits? at h
  split at h
  · split at h
    · cases h
      rw [List.cons_append, ← digitsFrom_split]
    · cases h
  · cases h

theorem exponent_split (cs : List Char) : cs = (exponent cs).1 ++ (exponent cs).2 := by
  unfold exponent
  split
  · split
    · split
      · split
        · split
          next hdigits =>
            rw [digits?_split hdigits]
            rfl
          next => rfl
        · split
          next hdigits =>
            rw [digits?_split hdigits]
            rfl
          next => rfl
      · rfl
    · rfl
  · rfl

theorem bigMark_split (cs : List Char) : cs = (bigMark cs).1 ++ (bigMark cs).2 := by
  unfold bigMark
  split <;> rfl

theorem radixNumber?_split {zero mark : Char} {isDigit : Char -> Bool}
    (h : radixNumber? zero mark isDigit s = some (t, rest)) : zero :: mark :: s = t ++ rest := by
  obtain ⟨⟨ds, s'⟩, hdigits, h⟩ := Option.bind_eq_some_iff.mp h
  have h : (zero :: mark :: ds ++ (bigMark s').1, (bigMark s').2) = (t, rest) := Option.some.inj h
  obtain ⟨rfl, rfl⟩ := Prod.mk.inj h
  rw [digits?_split hdigits, List.append_assoc, ← bigMark_split s']
  rfl

theorem decimalNumber?_split (h : decimalNumber? s = some (t, rest)) : s = t ++ rest := by
  have hwithExponent : forall ds s' : List Char,
      some (ds ++ (exponent s').1, (exponent s').2) = some (t, rest) -> ds ++ s' = t ++ rest := by
    intro ds s' h
    obtain ⟨rfl, rfl⟩ := Prod.mk.inj (Option.some.inj h)
    rw [List.append_assoc, ← exponent_split s']
  unfold decimalNumber? at h
  split at h
  · obtain ⟨⟨ds, s'⟩, hdigits, h⟩ := Option.bind_eq_some_iff.mp h
    rw [digits?_split hdigits]
    exact hwithExponent ('.' :: ds) s' h
  · obtain ⟨⟨ds, s'⟩, hdigits, h⟩ := Option.bind_eq_some_iff.mp h
    rw [digits?_split hdigits]
    dsimp only at h
    split at h
    · cases h
      simp
    · rename_i more
      split at h
      · cases h
        rfl
      · have hmore : more = ((digits? isDigit more).getD ([], more)).1 ++
            ((digits? isDigit more).getD ([], more)).2 := by
          cases hfraction : digits? isDigit more with
          | none => rfl
          | some read => exact digits?_split hfraction
        have := hwithExponent _ _ h
        rwa [List.append_assoc, List.cons_append, ← hmore] at this
    · split at h
      · cases h
        rfl
      · exact hwithExponent ds s' h

theorem number?_split (h : number? s = some (t, rest)) : s = t ++ rest := by
  unfold number? at h
  split at h
  · rename_i m more
    simp only [Option.orElse_eq_orElse, Option.orElse_eq_or, Option.or_eq_some_iff] at h
    rcases h with hradix | ⟨_, hdecimal⟩
    · split at hradix
      · exact radixNumber?_split hradix
      · split at hradix
        · exact radixNumber?_split hradix
        · split at hradix
          · exact radixNumber?_split hradix
          · cases hradix
    · exact decimalNumber?_split hdecimal
  · exact decimalNumber?_split h

/-!
## Strings, templates and regular expressions
-/

/-- What is read of a string in one step, in front of a rest that is read in fewer. -/
inductive StringStep (quote : Char) (fuel : Nat) : List Char -> List Char -> List Char -> Prop where
  | close (rest : List Char) : StringStep quote fuel (quote :: rest) [quote] rest
  | escape {s e left more rest : List Char} (hescape : escape? s = some (e, left))
      (hmore : stringFrom quote fuel left = some (more, rest)) :
      StringStep quote fuel ('\\' :: s) ('\\' :: e ++ more) rest
  /-- A line break, blanks and a comment, behind which the string goes on at once. -/
  | comment {c : Char} {s left found more rest : List Char} (hbreak : (c == '\n' || c == '\r') = true)
      (hcomment : comment? ((c :: s).dropWhile isGap) = some (found, left))
      (hmore : stringFrom quote fuel left = some (more, rest)) :
      StringStep quote fuel (c :: s) ((c :: s).takeWhile isGap ++ found ++ more) rest
  /-- A line break and blanks in front of the closing quote. -/
  | blank {c : Char} {s rest : List Char} (hbreak : (c == '\n' || c == '\r') = true)
      (hclose : (c :: s).dropWhile isGap = quote :: rest) :
      StringStep quote fuel (c :: s) ((c :: s).takeWhile isGap ++ [quote]) rest
  | plain {c : Char} {s more rest : List Char}
      (hplain : c ≠ quote /\ c ≠ '\\' /\ c ≠ '\n' /\ c ≠ '\r')
      (hmore : stringFrom quote fuel s = some (more, rest)) :
      StringStep quote fuel (c :: s) (c :: more) rest

theorem stringStep_of_stringFrom {quote : Char} {fuel : Nat}
    (h : stringFrom quote (fuel + 1) s = some (t, rest)) : StringStep quote fuel s t rest := by
  unfold stringFrom at h
  split at h
  · cases h
  · rename_i c s
    split at h
    · rename_i hclose
      cases h
      obtain rfl := eq_of_beq hclose
      exact .close rest
    · rename_i hquote
      split at h
      · rename_i hslash
        obtain ⟨⟨e, left⟩, hescape, h⟩ := Option.bind_eq_some_iff.mp h
        obtain ⟨⟨more, r⟩, hmore, h⟩ := Option.bind_eq_some_iff.mp h
        cases h
        obtain rfl := eq_of_beq hslash
        exact .escape hescape hmore
      · rename_i hslash
        split at h
        · rename_i hbreak
          dsimp only at h
          split at h
          · rename_i hcomment
            obtain ⟨⟨more, r⟩, hmore, h⟩ := Option.bind_eq_some_iff.mp h
            cases h
            exact .comment hbreak hcomment hmore
          · split at h
            · rename_i hclose
              split at h
              · rename_i hquote
                cases h
                obtain rfl := eq_of_beq hquote
                exact .blank hbreak hclose
              · cases h
            · cases h
        · rename_i hbreak
          obtain ⟨⟨more, r⟩, hmore, h⟩ := Option.bind_eq_some_iff.mp h
          cases h
          exact .plain (by simpa using And.intro hquote (And.intro hslash hbreak)) hmore

theorem stringFrom_split {quote : Char} {fuel : Nat} (h : stringFrom quote fuel s = some (t, rest)) :
    s = t ++ rest := by
  induction fuel generalizing s t rest with
  | zero => cases h
  | succ fuel ih =>
      cases stringStep_of_stringFrom h with
      | close => rfl
      | escape hescape hmore =>
          rw [escape?_split hescape, ih hmore]
          simp
      | @comment c s _ _ _ _ _ hcomment hmore =>
          have hblank := List.takeWhile_append_dropWhile (p := isGap) (l := c :: s)
          rw [comment?_split hcomment, ih hmore] at hblank
          rw [List.append_assoc, List.append_assoc]
          exact hblank.symm
      | @blank c s _ _ hclose =>
          have hblank := List.takeWhile_append_dropWhile (p := isGap) (l := c :: s)
          rw [hclose] at hblank
          rw [List.append_assoc]
          exact hblank.symm
      | plain _ hmore =>
          rw [ih hmore]
          rfl

theorem templateFrom_split {fuel : Nat} {closed : Bool}
    (h : templateFrom fuel s = some (t, closed, rest)) : s = t ++ rest := by
  induction fuel generalizing s t rest closed with
  | zero => cases h
  | succ fuel ih =>
      unfold templateFrom at h
      split at h
      · cases h
      · cases h
        rfl
      · cases h
        rfl
      · obtain ⟨⟨e, s'⟩, hescape, h⟩ := Option.bind_eq_some_iff.mp h
        obtain ⟨⟨more, closed, r⟩, hmore, h⟩ := Option.bind_eq_some_iff.mp h
        cases h
        rw [escape?_split hescape, ih hmore]
        simp
      · obtain ⟨⟨more, closed, r⟩, hmore, h⟩ := Option.bind_eq_some_iff.mp h
        cases h
        rw [ih hmore]
        rfl

theorem regexFrom_split {inClass : Bool} (h : regexFrom inClass s = some (t, rest)) :
    s = t ++ rest := by
  fun_induction regexFrom inClass s generalizing t rest with
  | case1 => cases h
  | case2 => cases h
  | case3 inClass c s _ ih =>
      obtain ⟨⟨more, r⟩, hmore, heq⟩ := Option.map_eq_some_iff.mp h
      cases heq
      rw [ih hmore]
      rfl
  | case4 => cases h
  | case5 =>
      cases h
      rfl
  | case6 inClass c s =>
      rename_i ih
      obtain ⟨⟨more, r⟩, hmore, heq⟩ := Option.map_eq_some_iff.mp h
      cases heq
      rw [ih hmore]
      rfl

theorem regex?_split (h : regex? s = some (t, rest)) : '/' :: s = t ++ rest := by
  unfold regex? at h
  split at h
  · cases h
  · obtain ⟨⟨body, flags⟩, hbody, h⟩ := Option.bind_eq_some_iff.mp h
    cases h
    rw [regexFrom_split hbody, List.append_assoc, List.takeWhile_append_dropWhile]
    rfl

/-!
## Tokens
-/

/-- How the next token is read: its kind, its text and what is left. -/
inductive NextStep (fuel : Nat) : List Char -> TokenKind -> List Char -> List Char -> Prop where
  | string {quote : Char} {s body rest : List Char} (hquote : quote = '"' \/ quote = '\'')
      (hbody : stringFrom quote fuel s = some (body, rest)) :
      NextStep fuel (quote :: s) .string (quote :: body) rest
  | template {c : Char} {s body rest : List Char} {closed : Bool} {kind : TokenKind}
      (hkind : kind ≠ .string) (hbody : templateFrom fuel s = some (body, closed, rest)) :
      NextStep fuel (c :: s) kind (c :: body) rest
  | interpreterLine (s : List Char) :
      NextStep fuel s .interpreterLine (s.takeWhile (· != '\n')) (s.dropWhile (· != '\n'))
  | privateName {c : Char} {s body rest : List Char} (hbody : name? fuel s = some (body, rest)) :
      NextStep fuel (c :: s) .privateName (c :: body) rest
  | number {s t rest : List Char} (ht : number? s = some (t, rest)) : NextStep fuel s .number t rest
  | mark (t rest : List Char) : NextStep fuel (t ++ rest) .mark t rest
  | regex {s t rest : List Char} (ht : regex? s = some (t, rest)) :
      NextStep fuel ('/' :: s) .regex t rest
  | word {s t rest : List Char} (ht : name? fuel s = some (t, rest)) : NextStep fuel s .word t rest

theorem nextStep_of_next? {fuel : Nat} {operand inTemplate : Bool} {kind : TokenKind}
    (h : next? fuel operand inTemplate s = some (kind, t, rest)) : NextStep fuel s kind t rest := by
  unfold next? at h
  split at h
  · cases h
  · rename_i c s
    split at h
    · rename_i hquote
      obtain ⟨⟨body, r⟩, hbody, h⟩ := Option.bind_eq_some_iff.mp h
      cases h
      exact .string (by simpa using hquote) hbody
    · split at h
      · obtain ⟨⟨body, closed, r⟩, hbody, h⟩ := Option.bind_eq_some_iff.mp h
        cases h
        exact .template (by split <;> simp) hbody
      · split at h
        · obtain ⟨⟨body, closed, r⟩, hbody, h⟩ := Option.bind_eq_some_iff.mp h
          cases h
          exact .template (by split <;> simp) hbody
        · split at h
          · split at h
            · cases h
              exact .interpreterLine _
            · obtain ⟨⟨body, r⟩, hbody, h⟩ := Option.bind_eq_some_iff.mp h
              cases h
              exact .privateName hbody
          · split at h
            · obtain ⟨⟨body, r⟩, hbody, h⟩ := Option.bind_eq_some_iff.mp h
              cases h
              exact .number hbody
            · dsimp only at h
              split at h
              · rename_i heq
                cases h
                rw [heq]
                exact .mark ['.', '.', '.'] _
              · rename_i heq
                cases h
                rw [heq]
                exact .mark ['+', '+'] _
              · rename_i heq
                cases h
                rw [heq]
                exact .mark ['-', '-'] _
              · split at h
                · obtain ⟨⟨body, r⟩, hbody, h⟩ := Option.bind_eq_some_iff.mp h
                  cases h
                  exact .number hbody
                · cases h
                  exact .mark [c] _
              · split at h
                · cases h
                  exact .mark [c] _
                · rename_i heq _
                  obtain ⟨⟨body, r⟩, hbody, h⟩ := Option.bind_eq_some_iff.mp h
                  cases h
                  rw [(List.cons.inj heq).1]
                  exact .regex hbody
              · split at h
                · cases h
                  exact .mark [c] _
                · obtain ⟨⟨body, r⟩, hbody, h⟩ := Option.bind_eq_some_iff.mp h
                  cases h
                  exact .word hbody

theorem next?_split {fuel : Nat} {operand inTemplate : Bool} {kind : TokenKind}
    (h : next? fuel operand inTemplate s = some (kind, t, rest)) : s = t ++ rest := by
  cases nextStep_of_next? h with
  | string _ hbody =>
      rw [stringFrom_split hbody]
      rfl
  | template _ hbody =>
      rw [templateFrom_split hbody]
      rfl
  | interpreterLine => rw [List.takeWhile_append_dropWhile]
  | privateName hbody =>
      rw [name?_split hbody]
      rfl
  | number ht => exact number?_split ht
  | mark => rfl
  | regex ht => exact regex?_split ht
  | word ht => exact name?_split ht

/-- What holds of every token on the way through a source. -/
theorem tokensFrom_cons {fuel row : Nat} {braces : List Nat} {operand : Bool} {cs : List Char}
    {ts : List Token} (h : tokensFrom (fuel + 1) braces operand row cs = some ts) :
    exists t more, ts = t :: more /\ t.gap = (gap (fuel + 1) row cs).1 /\
      ((more = [] /\ cs = t.gapText ++ t.text) \/
        exists braces operand row rest, tokensFrom fuel braces operand row rest = some more /\
          cs = t.gapText ++ t.text ++ rest) := by
  have hcs := gap_split (fuel + 1) row cs
  unfold tokensFrom at h
  dsimp only at h
  split at h
  · rename_i hend
    split at h
    · cases h
      rw [hend] at hcs
      exact ⟨_, _, rfl, rfl, .inl ⟨rfl, hcs⟩⟩
    · cases h
  · obtain ⟨⟨kind, text, rest⟩, hnext, h⟩ := Option.bind_eq_some_iff.mp h
    obtain ⟨more, hmore, h⟩ := Option.bind_eq_some_iff.mp h
    cases h
    rw [next?_split hnext, ← List.append_assoc] at hcs
    exact ⟨_, _, rfl, rfl, .inr ⟨_, _, _, rest, hmore, hcs⟩⟩

theorem source_tokensFrom {fuel row : Nat} {braces : List Nat} {operand : Bool} {cs : List Char}
    {ts : List Token} (h : tokensFrom fuel braces operand row cs = some ts) : Token.source ts = cs := by
  induction fuel generalizing braces operand row cs ts with
  | zero => cases h
  | succ fuel ih =>
      obtain ⟨t, more, rfl, _, ⟨rfl, rfl⟩ | ⟨_, _, _, rest, hmore, rfl⟩⟩ := tokensFrom_cons h
      · exact List.append_nil _
      · exact congrArg (t.gapText ++ t.text ++ ·) (ih hmore)

theorem comments_tokensFrom {fuel row : Nat} {braces : List Nat} {operand : Bool} {cs : List Char}
    {ts : List Token} (h : tokensFrom fuel braces operand row cs = some ts) {t : Token} (ht : t ∈ ts)
    {c : Comment} (hc : c ∈ t.comments) : exists more, c.text = '/' :: more := by
  induction fuel generalizing braces operand row cs ts with
  | zero => cases h
  | succ fuel ih =>
      obtain ⟨first, more, rfl, hgap, hmore⟩ := tokensFrom_cons h
      rcases List.mem_cons.mp ht with rfl | ht
      · rw [Token.comments, hgap] at hc
        exact comments_gap _ _ _ hc
      · rcases hmore with ⟨rfl, _⟩ | ⟨_, _, _, _, hmore, _⟩
        · cases ht
        · exact ih hmore ht

end Lexer

theorem source_of_tokens {s : List Char} {ts : List Token} (h : tokens? s = some ts) :
    Token.source ts = s := by
  unfold tokens? at h
  split at h
  · cases h
  · exact Lexer.source_tokensFrom h

/-- Every comment of a source is opened by a slash. -/
theorem comment_of_tokens {s : List Char} {ts : List Token} (h : tokens? s = some ts) {t : Token}
    (ht : t ∈ ts) {c : Comment} (hc : c ∈ t.comments) : exists more, c.text = '/' :: more := by
  unfold tokens? at h
  split at h
  · cases h
  · exact Lexer.comments_tokensFrom h ht hc

end TypeScript
end SchemaTypes
