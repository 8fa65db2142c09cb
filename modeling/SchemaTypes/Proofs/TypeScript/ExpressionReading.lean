import SchemaTypes.Proofs.TypeScript.OperandReading

/-!
# Reading expressions

The tokens of a canonical expression are read as that expression in front of what may
follow one.
-/

namespace SchemaTypes
namespace TypeScript
namespace Parser

variable {g : Grammar} {context : Context} {row : Nat} {rest ts : List Token}

/-!
## Lists between brackets
-/

section

variable {α : Type} {p : Parser α}

def ReadsSlot (close : Char) (p : Parser α) (ls : List Lexeme) (a : α) : Prop :=
  forall (row : Nat) (rest : List Token), Ends [',', close] rest ->
    (slot p).run (Lexeme.place row ls ++ rest) = some ((false, some a), rest)

theorem run_slot {a : α} (hcomments : comments.run ts = some ([], ts))
    (h : p.run ts = some (a, rest)) :
    (slot p).run ts = some ((false, some a), rest) := by
  simp only [slot, StateT.run_bind, hcomments, run_optional?_some h, Option.bind_eq_bind,
    Option.bind_some]
  rfl

theorem run_slot_none {t : Token} (h : p.run (t :: ts) = none) :
    (slot p).run (t :: ts) = some ((false, none), t :: ts) := by
  simp only [slot, StateT.run_bind, run_comments, run_optional?_none h, Option.bind_eq_bind,
    Option.bind_some]
  rfl

theorem run_commaAndComment (b : List Char) (row : Nat) (ts : List Token) :
    commaAndComment.run ((Lexeme.mark b ',').token row :: ts) = some (false, ts) := by
  have hcomma : (mark ',').run ((Lexeme.mark b ',').token row :: ts) = some (_, ts) :=
    run_mark (by simp)
  simp only [commaAndComment, StateT.run_bind, run_comments, comments_mark, hcomma,
    Option.bind_eq_bind, Option.bind_some]
  rfl

theorem run_furtherSlot {a : Option α} (b : List Char) (row : Nat)
    (h : (slot p).run ts = some ((false, a), rest)) :
    (furtherSlot p).run ((Lexeme.mark b ',').token row :: ts) = some ((false, a), rest) := by
  simp only [furtherSlot, StateT.run_bind, run_commaAndComment, h, Option.bind_eq_bind,
    Option.bind_some]
  rfl

theorem run_furtherSlot_none {t : Token} (h : t.isMark ',' = false) :
    (furtherSlot p).run (t :: ts) = none := by
  simp [furtherSlot, commaAndComment, run_comments, run_mark_none h]

theorem run_furtherSlots {close : Char} {ps : List (Further α)}
    (h : forall q, q ∈ ps -> ReadsSlot close p q.lexemes q.value) (row : Nat)
    {more : List (Bool × Option α)} {mid : List Token} (hmid : Ends [',', close] mid) {fuel : Nat}
    (hmore : (manyFrom (furtherSlot p) fuel).run mid = some (more, rest)) :
    (manyFrom (furtherSlot p) (fuel + ps.length)).run
        (Lexeme.place row (Further.lexemesOf ',' ps) ++ mid) =
      some (ps.map (fun q => (false, some q.value)) ++ more, rest) := by
  induction ps generalizing row with
  | nil => exact hmore
  | cons q ps ih =>
      have hnext := ih (fun r hr => h r (List.mem_cons_of_mem q hr))
      have hends : forall row, Ends [',', close]
          (Lexeme.place row (Further.lexemesOf ',' ps) ++ mid) := by
        intro row
        cases ps with
        | nil => exact hmid
        | cons r rs => exact ends_mark _ List.mem_cons_self row _
      have hfirst := fun row row' => h q List.mem_cons_self row _ (hends row')
      rw [Further.lexemesOf_cons, Lexeme.place_append, List.append_assoc, Lexeme.place_cons,
        List.cons_append]
      generalize row + Lexeme.rows (.mark q.blank ',' :: q.lexemes) = row₁
      exact run_manyFrom_cons (run_furtherSlot _ row (hfirst _ row₁)) (hnext row₁)

/-- The lexemes at the end of a list, with a comma in front of the bracket or without. -/
def closing (comma : Bool) (b : List Char) (close : Char) : List Lexeme :=
  if comma then [.mark [] ',', .mark b close] else [.mark b close]

theorem run_closing {close : Char} (hclose : close ≠ ',') (b : List Char) {comma : List Lexeme}
    (hcomma : Lexeme.IsOptional ',' comma) (row row' : Nat)
    (hfail : p.run ((Lexeme.mark b close).token row' :: rest) = none) (fuel : Nat) :
    exists more, (manyFrom (furtherSlot p) (fuel + 1)).run
        (Lexeme.place row comma ++ (Lexeme.mark b close).token row' :: rest) =
      some (more, (Lexeme.mark b close).token row' :: rest) /\
      (more = [] \/ more = [(false, none)]) := by
  have hend : (furtherSlot p).run ((Lexeme.mark b close).token row' :: rest) = none :=
    run_furtherSlot_none (by simpa using hclose)
  rcases hcomma with rfl | ⟨b', rfl⟩
  · exact ⟨[], run_manyFrom_nil hend _, .inl rfl⟩
  · refine ⟨[(false, none)], ?_, .inr rfl⟩
    exact run_manyFrom_cons (run_furtherSlot b' row (run_slot_none hfail))
      (run_manyFrom_nil hend fuel)

theorem any_slots {as : List α} {more : List (Bool × Option α)}
    (h : more = [] \/ more = [(false, none)]) :
    (as.map (fun a => ((false, some a) : Bool × Option α)) ++ more).any (·.1) = false := by
  rcases h with rfl | rfl <;> simp

theorem entries_slots (hole : α) {as : List α} (has : as ≠ []) {more : List (Bool × Option α)}
    (h : more = [] \/ more = [(false, none)]) :
    (as.map (fun a => ((false, some a) : Bool × Option α)) ++ more).dropLast.map (·.2.getD hole) ++
        ((as.map (fun a => ((false, some a) : Bool × Option α)) ++ more).getLast?.bind
          (·.2)).toList = as := by
  rcases h with rfl | rfl
  · obtain ⟨init, a, rfl⟩ := (List.eq_nil_or_concat as).resolve_left has
    simp [Function.comp_def]
  · simp [Function.comp_def]

theorem length_le_flatMap (separator : Lexeme) (f : α -> List Lexeme) (as : List α) :
    as.length ≤ (as.flatMap fun a => separator :: f a).length := by
  induction as with
  | nil => exact Nat.zero_le _
  | cons a as ih =>
      rw [List.flatMap_cons, List.length_append, List.length_cons, List.length_cons]
      omega

/-- The values of a list are read whatever blanks stand around its commas, with a comma
behind the last one or without. -/
theorem run_listBetween_further {open? close : Char} (hole : α) {t : Token}
    (ht : t.isMark open? = true) {ls : List Lexeme} {first : α} (hfirst : ReadsSlot close p ls first)
    {ps : List (Further α)} (hps : forall q, q ∈ ps -> ReadsSlot close p q.lexemes q.value)
    (hclose : close ≠ ',') {comma : List Lexeme} (hcomma : Lexeme.IsOptional ',' comma)
    (b : List Char) (row : Nat)
    (hfail : forall row, p.run ((Lexeme.mark b close).token row :: rest) = none) :
    (listBetween open? close hole p).run
        (t :: (Lexeme.place row (ls ++ Further.lexemesOf ',' ps ++ comma ++ [.mark b close]) ++
          rest)) = some (some (first :: ps.map Further.value), rest) := by
  have hends : forall row row', Ends [',', close]
      (Lexeme.place row comma ++ (Lexeme.mark b close).token row' :: rest) := by
    intro row row'
    rcases hcomma with rfl | ⟨b', rfl⟩
    · exact ends_mark b (List.mem_cons_of_mem _ List.mem_cons_self) row' rest
    · exact ends_mark b' List.mem_cons_self row _
  have hbehind : forall row row' row₂, Ends [',', close]
      (Lexeme.place row (Further.lexemesOf ',' ps) ++
        (Lexeme.place row' comma ++ (Lexeme.mark b close).token row₂ :: rest)) := by
    intro row row' row₂
    cases ps with
    | nil => exact hends row' row₂
    | cons q qs => exact ends_mark _ List.mem_cons_self row _
  have hmore : forall row row' row₂, exists more, (many (furtherSlot p)).run
      (Lexeme.place row (Further.lexemesOf ',' ps) ++
        (Lexeme.place row' comma ++ (Lexeme.mark b close).token row₂ :: rest)) =
      some ((ps.map Further.value).map (fun a => (false, some a)) ++ more,
        (Lexeme.mark b close).token row₂ :: rest) /\ (more = [] \/ more = [(false, none)]) := by
    intro row row' row₂
    obtain ⟨fuel, hfuel⟩ : exists fuel, (Lexeme.place row (Further.lexemesOf ',' ps) ++
        (Lexeme.place row' comma ++ (Lexeme.mark b close).token row₂ :: rest)).length =
          fuel + 1 + ps.length := by
      have hlength := Further.length_le_lexemesOf ',' ps
      simp only [List.length_append, Lexeme.length_place, List.length_cons]
      exact ⟨(Further.lexemesOf ',' ps).length + (comma.length + rest.length) - ps.length, by omega⟩
    obtain ⟨more, hrun, hcases⟩ := run_closing hclose b hcomma row' row₂ (hfail row₂) fuel
    refine ⟨more, run_many ?_, hcases⟩
    rw [hfuel, List.map_map]
    exact run_furtherSlots hps row (hends row' row₂) hrun
  simp only [Lexeme.place_append, Lexeme.place_cons, Lexeme.place_nil, List.append_assoc,
    List.singleton_append]
  generalize row + Lexeme.rows ls = row₁
  generalize row₁ + Lexeme.rows (Further.lexemesOf ',' ps) = row₂
  generalize row₂ + Lexeme.rows comma = row₃
  obtain ⟨more, hrun, hcases⟩ := hmore row₁ row₂ row₃
  have hmark : (mark close).run ((Lexeme.mark b close).token row₃ :: rest) = some (_, rest) :=
    run_mark (by simp)
  have hfirst' := hfirst row _ (hbehind row₁ row₂ row₃)
  simp only [listBetween, StateT.run_bind, run_mark ht, hfirst', hrun, run_comments, comments_mark,
    hmark, Option.bind_eq_bind, Option.bind_some]
  rw [← List.cons_append, ← List.map_cons (f := fun a => ((false, some a) : Bool × Option α)),
    any_slots hcases, entries_slots hole (List.cons_ne_nil first _) hcases]
  rfl

theorem run_listBetween_cons {open? close : Char} (hole : α) {t : Token} (ht : t.isMark open? = true)
    {ls : List Lexeme} {first : α} (hfirst : ReadsSlot close p ls first) {f : α -> List Lexeme}
    {as : List α} (has : forall a, a ∈ as -> ReadsSlot close p (f a) a)
    (hcomma : close ≠ ',') (b : List Char) (comma : Bool) (row : Nat)
    (hfail : forall row, p.run ((Lexeme.mark b close).token row :: rest) = none) :
    (listBetween open? close hole p).run
        (t :: (Lexeme.place row (ls ++ (as.flatMap fun a => .mark [] ',' :: f a) ++
          closing comma b close) ++ rest)) = some (some (first :: as), rest) := by
  have hfurther : (as.flatMap fun a => .mark [] ',' :: f a) =
      Further.lexemesOf ',' (as.map fun a => ⟨[], a, f a⟩) := by
    rw [Further.lexemesOf, List.flatMap_map]
  have hclosing : closing comma b close =
      (if comma then [.mark [] ','] else []) ++ [.mark b close] := by
    cases comma <;> rfl
  have hoptional : Lexeme.IsOptional ',' (if comma then [.mark [] ','] else []) := by
    cases comma with
    | false => exact .inl rfl
    | true => exact .inr ⟨[], rfl⟩
  have hslots : forall q : Further α, q ∈ (as.map fun a => ⟨[], a, f a⟩) ->
      ReadsSlot close p q.lexemes q.value := by simpa using has
  have hlist := run_listBetween_further hole ht hfirst hslots hcomma hoptional b row hfail
  rw [hfurther, hclosing, ← List.append_assoc, hlist, List.map_map]
  simp [Function.comp_def]

theorem run_listBetween_nil {open? close : Char} (hole : α) {t : Token} (ht : t.isMark open? = true)
    (hcomma : close ≠ ',') (b : List Char) (row : Nat)
    (hfail : p.run ((Lexeme.mark b close).token row :: rest) = none) :
    (listBetween open? close hole p).run (t :: (Lexeme.mark b close).token row :: rest) =
      some (some [], rest) := by
  have hmore : (many (furtherSlot p)).run ((Lexeme.mark b close).token row :: rest) =
      some ([], (Lexeme.mark b close).token row :: rest) :=
    run_many_nil (run_furtherSlot_none (by simpa using hcomma))
  have hmark : (mark close).run ((Lexeme.mark b close).token row :: rest) = some (_, rest) :=
    run_mark (by simp)
  simp only [listBetween, StateT.run_bind, run_mark ht, run_slot_none hfail, hmore, run_comments,
    comments_mark, hmark, Option.bind_eq_bind, Option.bind_some]
  rfl

end

/-!
## Objects and arrays
-/

theorem run_propertyName {n : PropertyName}
    (h : n.quoted = false -> isWordText n.text = true \/ isWholeNumber n.text = true) (gap : Gap)
    (row : Nat) (rest : List Token) :
    (propertyName g).run ((n.lexeme gap).token row :: rest) = some (n, rest) := by
  cases n with
  | mk s quoted =>
      cases quoted with
      | true => simp [propertyName, plainName, PropertyName.lexeme, run_atMark, run_peek,
          run_require_true, run_advance]
      | false =>
          cases h rfl with
          | inl hword => simp [propertyName, plainName, PropertyName.lexeme, run_atMark, run_peek,
              run_require_true, run_advance, Lexeme.leaf_of_isWordText hword]
          | inr hnumber => simp [propertyName, plainName, PropertyName.lexeme, run_atMark, run_peek,
              run_require_true, run_advance, Lexeme.leaf_of_isWholeNumber hnumber]

theorem plain_of_isCanonical {n : PropertyName} (h : n.isCanonical = true) (hquoted : n.quoted = false) :
    isWordText n.text = true \/ isWholeNumber n.text = true := by
  simpa [PropertyName.isCanonical, hquoted] using h

theorem run_propertyName_none {t : Token} {ts : List Token} (hkind : t.kind = .mark)
    (hbracket : t.isMark '[' = false) : (propertyName g).run (t :: ts) = none := by
  have hplain : plainName.run (t :: ts) = none := by
    refine (run_bind_some run_peek).trans ?_
    refine run_bind_none ?_
    rw [hkind]
    exact run_require_false
  refine (run_bind_some (run_atMark '[')).trans ?_
  rw [hbracket]
  exact hplain

theorem run_comments_ofBlank {l : Lexeme} {b : List Char} (h : l.gap = .ofBlank b) (row : Nat)
    (rest : List Token) :
    comments.run (l.token row :: rest) = some ([], l.token row :: rest) := by
  rw [run_comments, Lexeme.comments_token (by rw [h]; rfl)]

/-- An entry or element does not start with three dots. -/
theorem text_beq_dots {l : Lexeme} (h : l.isSpelled = true) (row : Nat) :
    ((l.token row).text == "...".toList) = false := by
  have hne := Lexeme.text_ne_of_isSpelled h (show "..." ∈ ["...", "++", "--"] by decide)
  rw [Lexeme.token_text, beq_eq_false_iff_ne]
  exact hne

theorem readsSlot_keyed {key : PropertyName} {value : Expression} {b : List Char} {ls : List Lexeme}
    (hspelled : (key.lexeme (.ofBlank b)).isSpelled = true)
    (hkey : key.quoted = false -> isWordText key.text = true \/ isWholeNumber key.text = true)
    (b' : List Char) (hread : forall row rest, Ends expressionClosers rest ->
      (g.expression .operand).run (Lexeme.place row ls ++ rest) = some (value, rest)) :
    ReadsSlot '\x7d' (objectEntry g) (key.lexeme (.ofBlank b) :: .mark b' ':' :: ls)
      (.pair key value) := by
  intro row rest hrest
  have hends : Ends expressionClosers rest := hrest.mono (by decide)
  have htext := text_beq_dots hspelled row
  refine run_slot (run_comments_ofBlank (PropertyName.lexeme_gap _ _) _ _) ?_
  simp only [Lexeme.place_cons, List.cons_append, objectEntry, StateT.run_bind, run_peek,
    Option.bind_eq_bind, Option.bind_some, htext, Bool.false_eq_true, if_false]
  refine run_orElse_some ?_
  refine (run_bind_some (run_propertyName hkey _ _ _)).trans ?_
  refine (run_bind_some (run_mark (by simp))).trans ?_
  exact run_bind_some (hread _ _ hends)

theorem readsSlot_pair {key : PropertyName} {value : Expression} (hkey : key.isCanonical = true)
    (hread : ReadsExpression g .flat [' '] value) (b : List Char) :
    ReadsSlot '\x7d' (objectEntry g) (Entry.lexemes b (.pair key value)) (.pair key value) :=
  readsSlot_keyed (PropertyName.isSpelled_lexeme hkey _) (plain_of_isCanonical hkey) [] (hread .operand)

theorem readsSlot_text {s : List Char} (hs : (Entry.text s).isNamed = true) (b : List Char) :
    ReadsSlot '\x7d' (objectEntry g) (Entry.lexemes b (.text s)) (.text s) := by
  intro row rest hrest
  simp only [Entry.isNamed, Bool.and_eq_true, Bool.not_eq_true'] at hs
  have hcanonical : (PropertyName.mk s false).isCanonical = true := by
    simp [PropertyName.isCanonical, hs.left]
  have hname := run_propertyName (g := g) (plain_of_isCanonical hcanonical) (.ofBlank b) row rest
  obtain ⟨t, ts, c, rfl, hc, ht⟩ := hrest
  have hcolon : t.isMark ':' = false := by
    refine Token.isMark_of_isMark ht ?_
    rintro rfl
    revert hc
    decide
  have hclose : (t.isMark ',' || t.isMark '\x7d') = true := by
    simp only [List.mem_cons, List.not_mem_nil, or_false] at hc
    rcases hc with rfl | rfl <;> simp [ht]
  have htext := text_beq_dots (PropertyName.isSpelled_lexeme hcanonical (.ofBlank b)) row
  have hlexeme : (PropertyName.mk s false).lexeme (.ofBlank b) = .word (.ofBlank b) s := by
    simp [PropertyName.lexeme, Lexeme.leaf_of_isWordText hs.left]
  rw [hlexeme] at hname htext
  have hpair : (pairEntry g).run ((Lexeme.word (.ofBlank b) s).token row :: t :: ts) = none := by
    refine (run_bind_some hname).trans ?_
    exact run_bind_none (run_mark_none hcolon)
  have hword : (wordOutside reservedInOperands).run
      ((Lexeme.word (.ofBlank b) s).token row :: t :: ts) = some (_, t :: ts) :=
    run_wordOutside (by simp) fun w hw => isWord_eq_false_of_text hs.right hw
  refine run_slot (run_comments_ofBlank Lexeme.word_gap _ _) ?_
  simp only [Entry.lexemes, Lexeme.place_cons, Lexeme.place_nil, List.cons_append, List.nil_append,
    objectEntry, StateT.run_bind, run_peek, Option.bind_eq_bind, Option.bind_some, htext, Bool.false_eq_true, if_false]
  refine (run_orElse_none hpair).trans (run_orElse_some ?_)
  have hshorthand : (textOf (do
      let _ ← wordOutside reservedInOperands
      require ((← atMark ',') || (← atMark '\x7d')))).run
        ([(Lexeme.word (.ofBlank b) s).token row] ++ t :: ts) = some (s, t :: ts) := by
    rw [run_textOf (a := ()), written_singleton, Lexeme.token_text, Lexeme.word_text]
    simp only [List.singleton_append, StateT.run_bind, hword, run_atMark, hclose, run_require_true,
      Option.bind_eq_bind, Option.bind_some]
  exact run_map_some hshorthand

theorem run_objectEntry_none (b : List Char) (row : Nat) (rest : List Token) :
    (objectEntry g).run ((Lexeme.mark b '\x7d').token row :: rest) = none := by
  have htext : (((Lexeme.mark b '\x7d').token row).text == "...".toList) = false := by simp
  have hname : (propertyName g).run ((Lexeme.mark b '\x7d').token row :: rest) = none :=
    run_propertyName_none rfl (by simp)
  have hpair : (pairEntry g).run ((Lexeme.mark b '\x7d').token row :: rest) = none :=
    run_bind_none hname
  have hword : (wordOutside reservedInOperands).run ((Lexeme.mark b '\x7d').token row :: rest) =
      none := run_wordOutside_none (by simp)
  have hmodifiers : forall ws, (methodModifiers ws).run ((Lexeme.mark b '\x7d').token row :: rest) =
      some ((), (Lexeme.mark b '\x7d').token row :: rest) := by
    intro ws
    have hany : (ws.any ((Lexeme.mark b '\x7d').token row).isWord) = false := by
      rw [List.any_eq_false]
      simp
    have hmodifier : (atMethodModifier ws).run ((Lexeme.mark b '\x7d').token row :: rest) =
        some (false, (Lexeme.mark b '\x7d').token row :: rest) := by
      cases rest <;> simp [atMethodModifier, hany]
    have hmany : (many (do require (← atMethodModifier ws); advance)).run
        ((Lexeme.mark b '\x7d').token row :: rest) =
        some ([], (Lexeme.mark b '\x7d').token row :: rest) :=
      run_many_nil (by simp [hmodifier, run_require_false])
    simp [methodModifiers, hmany]
  have hmethod : (methodDefinition g).run ((Lexeme.mark b '\x7d').token row :: rest) = none := by
    simp [methodDefinition, hmodifiers, run_mark?, hname]
  simp only [objectEntry, StateT.run_bind, run_peek, Option.bind_eq_bind, Option.bind_some, htext,
    Bool.false_eq_true, if_false]
  refine (run_orElse_none hpair).trans ((run_orElse_none ?_).trans ?_)
  · simp [textOf, withText, hword]
  · simp [textOf, withText, hmethod]

theorem entriesBehind_eq_flatMap (blank : List Char) (es : List Entry) :
    Entry.lexemesBehind blank es = es.flatMap fun e => .mark [] ',' :: e.lexemes blank := by
  induction es with
  | nil => rfl
  | cons e es ih => rw [Entry.lexemesBehind, ih, List.flatMap_cons]

theorem lexemesBehind_eq_flatMap (es : List Expression) :
    Expression.lexemesBehind es = es.flatMap fun e => .mark [] ',' :: e.lexemes .flat [' '] := by
  induction es with
  | nil => rfl
  | cons e es ih => rw [Expression.lexemesBehind, ih, List.flatMap_cons]

theorem readsSlot_entry {e : Entry} (hnamed : e.isNamed = true)
    (hread : forall key value, e = .pair key value -> ReadsExpression g .flat [' '] value)
    (b : List Char) : ReadsSlot '\x7d' (objectEntry g) (e.lexemes b) e := by
  cases e with
  | pair key value => exact readsSlot_pair hnamed (hread key value rfl) b
  | hole => cases hnamed
  | text s => exact readsSlot_text hnamed b

theorem run_entries {entries : List Entry} (hnamed : forall e, e ∈ entries -> e.isNamed = true)
    (hread : forall key value, .pair key value ∈ entries -> ReadsExpression g .flat [' '] value)
    (o : Setting) {t : Token} (ht : t.isMark '\x7b' = true) (row : Nat) (rest : List Token) :
    (listBetween '\x7b' '\x7d' .hole (objectEntry g)).run
        (t :: (Lexeme.place row (Entry.lexemesOf o.entry entries ++ o.behind entries) ++ rest)) =
      some (some entries, rest) := by
  cases entries with
  | nil =>
      have hnone := run_objectEntry_none (g := g) [] row rest
      simpa [Entry.lexemesOf, Setting.behind] using
        run_listBetween_nil Entry.hole ht (by decide) [] row hnone
  | cons first more =>
      have hfirst := readsSlot_entry (hnamed first List.mem_cons_self)
        (fun key value heq => hread key value (heq ▸ List.mem_cons_self)) o.entry
      have hmore : forall e, e ∈ more -> ReadsSlot '\x7d' (objectEntry g) (e.lexemes o.entry) e :=
        fun e he => readsSlot_entry (hnamed e (List.mem_cons_of_mem first he))
          (fun key value heq => hread key value (List.mem_cons_of_mem first (heq ▸ he))) o.entry
      have hbehind : o.behind (first :: more) = closing o.comma o.close '\x7d' := rfl
      rw [Entry.lexemesOf, entriesBehind_eq_flatMap, hbehind]
      have hcomma : '\x7d' ≠ ',' := by decide
      have hlist := run_listBetween_cons (f := Entry.lexemes o.entry) .hole ht hfirst hmore hcomma
        o.close o.comma row fun row => run_objectEntry_none o.close row rest
      exact hlist

theorem run_primaryExpression_braces {entries : List Entry} {b : List Char}
    (h : (listBetween '\x7b' '\x7d' .hole (objectEntry g)).run
      ((Lexeme.mark b '\x7b').token row :: ts) = some (some entries, rest)) :
    (primaryExpression g).run ((Lexeme.mark b '\x7b').token row :: ts) =
      some (some (.object entries), rest) := by
  simp [primaryExpression, objectLiteral, run_peek, h]

theorem run_primaryExpression_object {entries : List Entry}
    (hnamed : forall e, e ∈ entries -> e.isNamed = true)
    (hread : forall key value, .pair key value ∈ entries -> ReadsExpression g .flat [' '] value)
    (o : Setting) (b : List Char) (rest : List Token) :
    (primaryExpression g).run
        (Lexeme.place row ((Expression.object entries).lexemes o b) ++ rest) =
      some (some (.object entries), rest) := by
  rw [Expression.lexemes, List.cons_append, Lexeme.place_cons, List.cons_append]
  exact run_primaryExpression_braces (run_entries hnamed hread o (by simp) _ rest)

theorem readsSlot_element {e : Expression} (h : e.Canonical) {b : List Char}
    (hread : ReadsExpression g .flat b e) :
    ReadsSlot ']' (arrayElement g) (e.lexemes .flat b) e := by
  intro row rest hrest
  have hends : Ends expressionClosers rest := hrest.mono (by decide)
  refine run_slot (comments_place h .flat b row rest) ?_
  rw [← hread .operand row rest hends]
  obtain ⟨l, ls, hl, -, hspelled⟩ := Expression.lexemes_eq_cons h .flat b
  rw [hl, Lexeme.place_cons, List.cons_append]
  simp only [arrayElement, StateT.run_bind, run_peek, Option.bind_eq_bind, Option.bind_some,
    text_beq_dots hspelled, Bool.false_eq_true, if_false]

theorem run_arrayElement_none (b : List Char) (row : Nat)
    (hfail : (g.expression .operand).run ((Lexeme.mark b ']').token row :: rest) = none) :
    (arrayElement g).run ((Lexeme.mark b ']').token row :: rest) = none := by
  have htext : (((Lexeme.mark b ']').token row).text == "...".toList) = false := by simp
  simp only [arrayElement, StateT.run_bind, run_peek, Option.bind_eq_bind, Option.bind_some, htext,
    Bool.false_eq_true, if_false, hfail]

theorem run_elements {elements : List Expression}
    (hcanonical : forall e, e ∈ elements -> e.Canonical)
    (hread : forall e, e ∈ elements -> forall b, ReadsExpression g .flat b e)
    (hfail : forall row, (g.expression .operand).run ((Lexeme.mark [] ']').token row :: rest) = none)
    {t : Token} (ht : t.isMark '[' = true) (row : Nat) :
    (listBetween '[' ']' .hole (arrayElement g)).run
        (t :: (Lexeme.place row (Expression.lexemesOf elements ++ [.mark [] ']']) ++ rest)) =
      some (some elements, rest) := by
  cases elements with
  | nil =>
      have hnone := run_arrayElement_none [] row (hfail row)
      simpa [Expression.lexemesOf] using
        run_listBetween_nil Expression.hole ht (by decide) [] row hnone
  | cons first more =>
      have hfirst := readsSlot_element (hcanonical first List.mem_cons_self)
        (hread first List.mem_cons_self [])
      have hmore : forall e, e ∈ more -> ReadsSlot ']' (arrayElement g) (e.lexemes .flat [' ']) e :=
        fun e he => readsSlot_element (hcanonical e (List.mem_cons_of_mem first he))
          (hread e (List.mem_cons_of_mem first he) [' '])
      have hbehind : [.mark [] ']'] = closing false [] ']' := rfl
      rw [Expression.lexemesOf, lexemesBehind_eq_flatMap, hbehind]
      have hcomma : ']' ≠ ',' := by decide
      have hlist := run_listBetween_cons (f := Expression.lexemes .flat [' ']) .hole ht hfirst hmore
        hcomma [] false row fun row => run_arrayElement_none [] row (hfail row)
      exact hlist

theorem run_primaryExpression_array {elements : List Expression}
    (hcanonical : forall e, e ∈ elements -> e.Canonical)
    (hread : forall e, e ∈ elements -> forall b, ReadsExpression g .flat b e)
    (hfail : forall row, (g.expression .operand).run ((Lexeme.mark [] ']').token row :: rest) = none)
    (o : Setting) (b : List Char) :
    (primaryExpression g).run
        (Lexeme.place row ((Expression.array elements).lexemes o b) ++ rest) =
      some (some (.array elements), rest) := by
  have hopen : ((Lexeme.mark b '[').token row).isMark '[' = true := by simp
  have helements := fun row' => run_elements hcanonical hread hfail hopen row'
  rw [Expression.lexemes, List.cons_append, Lexeme.place_cons, List.cons_append]
  simp [primaryExpression, arrayLiteral, run_peek, helements, -Lexeme.place_append]

/-!
## Whole expressions
-/

/-- The grammar reads the types and the expressions of at most so many lexemes, and reads
no expression in front of a closing mark. -/
structure ReadsExpressions (g : Grammar) (n : Nat) : Prop where
  types : ReadsTypes g n
  expressions (e : Expression) (h : e.Canonical) (o : Setting) (b : List Char)
    (hsize : (e.lexemes o b).length ≤ n) : ReadsExpression g o b e
  none (context : Context) (b : List Char) (c : Char) (hc : c ∈ expressionClosers) (row : Nat)
    (rest : List Token) : (g.expression context).run ((Lexeme.mark b c).token row :: rest) = none

theorem not_opens_leaf {s : List Char} (hs : isValueWord s = true \/ isWholeNumber s = true)
    (gap : Gap) {w : String} (hw : w ∈ openingWords) :
    ((Lexeme.leaf gap s).token row).isWord w = false := by
  have hconstants : forall v, v ∈ constantWords -> forall w, w ∈ openingWords ->
      (v.toList == w.toList) = false := by decide
  have hnames : forall w, w ∈ openingWords -> w ∈ nonOperandWords := by decide
  cases hs with
  | inl hword =>
      rw [Lexeme.leaf_of_isWordText (isWordText_of_isValueWord hword), Lexeme.isWord_word]
      rw [isValueWord, Bool.and_eq_true, Bool.or_eq_true, Bool.not_eq_true'] at hword
      cases hword.right with
      | inl hconstant =>
          obtain ⟨v, hv, heq⟩ := List.any_eq_true.mp hconstant
          rw [eq_of_beq heq]
          exact hconstants v hv w hw
      | inr hname => simpa using List.any_eq_false.mp hname w (hnames w hw)
  | inr hnumber =>
      rw [Lexeme.leaf_of_isWholeNumber hnumber]
      exact Lexeme.isWord_number

theorem opensOperand {e : Expression} (h : e.Canonical) (o : Setting) (b : List Char) (row : Nat)
    (hrest : Closes expressionClosers rest) :
    OpensOperand (Lexeme.place row (e.lexemes o b) ++ rest) := by
  have hdots : forall {l : Lexeme} (row : Nat), l.isSpelled = true ->
      forall s, s ∈ ["...", "++", "--"] -> (l.token row).text ≠ s.toList := by
    intro l row hl s hs
    rw [Lexeme.token_text]
    exact Lexeme.text_ne_of_isSpelled hl hs
  induction h generalizing rest with
  | object =>
      refine ⟨_, _, rfl, by simp, ?_, hdots row rfl, by simp, by simp⟩
      intro c hc
      rw [Lexeme.isMark_mark]
      revert c
      exact forall_mem_of_all (by decide)
  | array =>
      refine ⟨_, _, rfl, by simp, ?_, hdots row rfl, by simp, by simp⟩
      intro c hc
      rw [Lexeme.isMark_mark]
      revert c
      exact forall_mem_of_all (by decide)
  | string hliteral _ => exact ⟨_, _, rfl, by simp, by simp, hdots row hliteral, by simp, by simp⟩
  | @parenthesized inner hinner _ =>
      refine ⟨_, _, rfl, by simp, ?_, hdots row rfl, by simp, ?_⟩
      · intro c hc
        rw [Lexeme.isMark_mark]
        revert c
        exact forall_mem_of_all (by decide)
      · intro _
        have hbehind := Lexeme.behindBracket_parentheses b [] (Expression.balanced_lexemes hinner o [])
          row (row + Lexeme.rows [.mark b '(']) rest
        exact hbehind.symm ▸ hrest
  | ascription _ _ ih =>
      rw [Expression.lexemes, Lexeme.place_append, List.append_assoc]
      exact ih (closes_as _ _ _ _)
  | @text s hs =>
      have hspelled : (Lexeme.leaf (.ofBlank b) s).isSpelled = true := by
        refine Lexeme.isSpelled_leaf ?_ _
        cases hs with
        | inl hword => exact .inl (isWordText_of_isValueWord hword)
        | inr hnumber => exact .inr hnumber
      refine ⟨_, _, rfl, ?_, by simp, hdots row hspelled, ?_, by simp⟩
      · intro w hw
        exact not_opens_leaf hs _ hw
      · intro _
        exact hrest.right

def ascriptions : Expression -> Nat
  | .ascription value _ => ascriptions value + 1
  | _ => 0

theorem ascriptions_le {e : Expression} (h : e.Canonical) (o : Setting) (b : List Char) :
    ascriptions e ≤ (e.lexemes o b).length := by
  induction h with
  | @ascription value target _ _ ih =>
      rw [ascriptions, Expression.lexemes, List.length_append, List.length_cons]
      omega
  | _ => exact Nat.zero_le _

theorem orText_none {t : Token} (rest : List Token) :
    (orText (t :: rest) none).run rest = some (.text t.text, rest) := by
  have htext := Token.textUpTo_append [t] rest
  rw [written_singleton, List.singleton_append] at htext
  simp only [orText, StateT.run_bind, StateT.run_get, StateT.run_pure, Option.pure_def,
    Option.bind_eq_bind, Option.bind_some, htext]

theorem run_operand (context : Context) {p : Option Expression}
    (h : (primaryExpression g).run ts = some (p, rest)) (hopens : OpensOperand ts) (hrest : Closes expressionClosers rest) :
    exists target, (operandExpression g context).run ts = some ((target, p), rest) := by
  rw [run_operandExpression hopens]
  exact run_closedOperand h hopens hrest

theorem run_ascriptions (context : Context) {n : Nat} (hg : ReadsExpressions g n)
    {e : Expression} (h : e.Canonical) (o : Setting) (b : List Char) (hsize : (e.lexemes o b).length ≤ n + 1) (row : Nat)
    (hrest : Closes expressionClosers rest) (fuel : Nat) :
    exists target left,
      (operandExpression g context >>= fun operand =>
        operatorsFrom g context (Lexeme.place row (e.lexemes o b) ++ rest) (fuel + ascriptions e)
          operand.1 operand.2).run (Lexeme.place row (e.lexemes o b) ++ rest) =
        (operatorsFrom g context (Lexeme.place row (e.lexemes o b) ++ rest) fuel target left).run
          rest /\
      (orText (Lexeme.place row (e.lexemes o b) ++ rest) left).run rest = some (e, rest) := by
  have hopens := opensOperand h o b row hrest
  induction h generalizing rest fuel with
  | @object entries hnamed hvalues _ =>
      have hread : forall key value, .pair key value ∈ entries ->
          ReadsExpression g .flat [' '] value := by
        intro key value hmem
        have hlength := Entry.length_le_lexemesOf hmem o.entry
        refine hg.expressions value (hvalues key value hmem) .flat [' '] ?_
        simp only [Expression.lexemes, List.length_append, List.length_cons] at hsize
        omega
      obtain ⟨target, hoperand⟩ :=
        run_operand context (run_primaryExpression_object hnamed hread o b rest) hopens hrest
      exact ⟨target, _, run_bind_some hoperand, rfl⟩
  | @array elements hcanonical _ =>
      have hread : forall e, e ∈ elements -> forall b, ReadsExpression g .flat b e := by
        intro e he b
        have hlength := Expression.length_le_lexemesOf he (hcanonical e he) b
        refine hg.expressions e (hcanonical e he) .flat b ?_
        simp only [Expression.lexemes, List.length_append, List.length_cons] at hsize
        omega
      have hfail := fun row => hg.none .operand [] ']' (by decide) row rest
      obtain ⟨target, hoperand⟩ := run_operand context
        (run_primaryExpression_array hcanonical hread hfail o b) hopens hrest
      exact ⟨target, _, run_bind_some hoperand, rfl⟩
  | string =>
      obtain ⟨target, hoperand⟩ := run_operand context
        (run_primaryExpression_string _ _) hopens hrest
      exact ⟨target, _, run_bind_some hoperand, rfl⟩
  | @parenthesized inner hinner _ =>
      have hread : ReadsExpression g o [] inner := by
        refine hg.expressions inner hinner o [] ?_
        simp only [Expression.lexemes, List.length_append, List.length_cons] at hsize
        omega
      obtain ⟨target, hoperand⟩ := run_operand context
        (run_primaryExpression_parenthesized hinner hread b rest) hopens hrest
      exact ⟨target, _, run_bind_some hoperand, rfl⟩
  | @ascription value target hvalue htarget ih =>
      have hlength := TypeTree.length_lexemes htarget [' ']
      simp only [Expression.lexemes, List.length_append, List.length_cons] at hsize
      have htype : ReadsType g target := hg.types target htarget (by omega)
      rw [Expression.lexemes, Lexeme.place_append, List.append_assoc, Lexeme.place_cons,
        List.cons_append] at hopens ⊢
      obtain ⟨assigned, left, hrun, htext⟩ :=
        ih (by omega) (closes_as _ _ _ _) (fuel + 1) hopens
      refine ⟨false, some (.ascription value target), ?_, rfl⟩
      have hfuel : fuel + ascriptions (.ascription value target) = fuel + 1 + ascriptions value := by
        rw [ascriptions]
        omega
      rw [hfuel, hrun]
      exact run_operatorsFrom_ascription htype htarget rfl [' '] hrest fuel htext
  | @text s hs =>
      have hprimary : (primaryExpression g).run
          (Lexeme.place row ((Expression.text s).lexemes o b) ++ rest) = some (none, rest) := by
        cases hs with
        | inl hword =>
            rw [Expression.lexemes, Lexeme.leaf_of_isWordText (isWordText_of_isValueWord hword)]
            exact run_primaryExpression_word _ hword
        | inr hnumber =>
            rw [Expression.lexemes, Lexeme.leaf_of_isWholeNumber hnumber]
            exact run_primaryExpression_number _ s
      obtain ⟨target, hoperand⟩ := run_operand context hprimary hopens hrest
      refine ⟨target, none, run_bind_some hoperand, ?_⟩
      have htext := orText_none (t := (Lexeme.leaf (.ofBlank b) s).token row) rest
      rwa [Lexeme.token_text, Lexeme.leaf_text] at htext

theorem run_expression_of_operation {left : Option Expression} {e : Expression}
    (h : (operation g context (operandExpression g context)).run ts = some (left, rest))
    (htext : (orText ts left).run rest = some (e, rest)) (hrest : Ends expressionClosers rest) :
    (expression g context).run ts = some (e, rest) := by
  obtain ⟨t, us, rfl⟩ := (closes_of_ends hrest).exists_cons
  have hquestion : t.isMark '?' = false := (closes_of_ends hrest).isMark (by decide)
  simp only [expression, StateT.run_bind, StateT.run_get, StateT.run_pure, Option.pure_def,
    Option.bind_eq_bind, Option.bind_some, h, run_atMark, hquestion, run_atMarks,
    Bool.false_and, Bool.false_eq_true, if_false, htext]

theorem run_operation {target : Bool} {first left : Option Expression} {mid : List Token}
    (hfirst : (operandExpression g context).run ts = some ((target, first), mid))
    (hmore : (operatorsFrom g context ts ts.length target first).run mid = some (left, rest)) :
    (operation g context (operandExpression g context)).run ts = some (left, rest) := by
  simp only [operation, StateT.run_bind, StateT.run_get, Option.pure_def, Option.bind_eq_bind,
    Option.bind_some, hfirst, hmore]

theorem run_expression_of_operand {e : Expression}
    (h : (primaryExpression g).run ts = some (some e, rest)) (hopens : OpensOperand ts)
    (hrest : Ends expressionClosers rest) : (expression g context).run ts = some (e, rest) := by
  obtain ⟨target, hoperand⟩ := run_operand context h hopens (closes_of_ends hrest)
  exact run_expression_of_operation (run_operation hoperand (run_operatorsFrom_end hrest _)) rfl hrest

theorem run_expression {n : Nat} (hg : ReadsExpressions g n) {e : Expression} (h : e.Canonical)
    (o : Setting) (b : List Char) (hsize : (e.lexemes o b).length ≤ n + 1) (row : Nat)
    (hrest : Ends expressionClosers rest) :
    (expression g context).run (Lexeme.place row (e.lexemes o b) ++ rest) = some (e, rest) := by
  have hsteps := ascriptions_le h o b
  have hlength : (Lexeme.place row (e.lexemes o b) ++ rest).length =
      (e.lexemes o b).length - ascriptions e + rest.length + ascriptions e := by
    rw [List.length_append, Lexeme.length_place]
    omega
  obtain ⟨target, left, hrun, htext⟩ := run_ascriptions context hg h o b hsize row
    (closes_of_ends hrest) ((e.lexemes o b).length - ascriptions e + rest.length)
  refine run_expression_of_operation ?_ htext hrest
  have hend : (operatorsFrom g context (Lexeme.place row (e.lexemes o b) ++ rest)
      ((e.lexemes o b).length - ascriptions e + rest.length) target left).run rest =
      some (left, rest) := run_operatorsFrom_end hrest _
  rw [← hend, ← hrun, ← hlength]
  simp only [operation, StateT.run_bind, StateT.run_get, Option.pure_def, Option.bind_eq_bind,
    Option.bind_some]

theorem run_expression_none (b : List Char) {c : Char} (hc : c ∈ expressionClosers) (row : Nat)
    (rest : List Token) : (expression g context).run ((Lexeme.mark b c).token row :: rest) = none := by
  have hne : forall d, d ∉ expressionClosers -> ((Lexeme.mark b c).token row).isMark d = false := by
    intro d hd
    rw [Lexeme.isMark_mark, beq_eq_false_iff_ne]
    rintro rfl
    exact hd hc
  have hopens : OpensOperand ((Lexeme.mark b c).token row :: rest) := by
    refine ⟨_, rest, rfl, by simp, ?_, ?_, by simp, ?_⟩
    · intro d hd
      exact hne d (by revert d; exact forall_mem_of_all (by decide))
    · intro s hs htext
      rw [Lexeme.token_text, Lexeme.mark_text] at htext
      have hlength : s.toList.length = 1 := by rw [← htext, List.length_singleton]
      have hlonger : forall s, s ∈ ["...", "++", "--"] -> s.toList.length ≠ 1 := by decide
      exact hlonger s hs hlength
    · intro hopen
      rw [hne '(' (by decide)] at hopen
      cases hopen
  have hprimary : (primaryExpression g).run ((Lexeme.mark b c).token row :: rest) = none := by
    simp only [primaryExpression, StateT.run_bind, run_peek, Option.bind_eq_bind, Option.bind_some,
      Lexeme.token_kind, Lexeme.mark_kind, hne '(' (by decide), hne '\x7b' (by decide),
      hne '[' (by decide), hne '@' (by decide), Bool.false_eq_true, if_false]
    rfl
  have hoperand : (operandExpression g context).run ((Lexeme.mark b c).token row :: rest) = none := by
    rw [run_operandExpression hopens]
    simp only [closedOperand, StateT.run_bind, run_peek, run_second, Option.bind_eq_bind,
      Option.bind_some, hprimary, Option.bind_none]
  simp only [expression, operation, StateT.run_bind, StateT.run_get, Option.pure_def,
    Option.bind_eq_bind, Option.bind_some, hoperand, Option.bind_none]

theorem readsExpressions_upTo (n : Nat) : ReadsExpressions (Grammar.upTo n) n := by
  induction n with
  | zero =>
      refine ⟨readsTypes_upTo 0, ?_, fun _ _ _ _ _ _ => rfl⟩
      intro e h o b hsize
      obtain ⟨l, ls, hl, -⟩ := Expression.lexemes_eq_cons h o b
      rw [hl] at hsize
      cases hsize
  | succ n ih =>
      refine ⟨readsTypes_upTo (n + 1), ?_,
        fun _ b c hc row rest => run_expression_none b hc row rest⟩
      intro e h o b hsize context row rest hrest
      exact run_expression ih h o b hsize row hrest

end Parser
end TypeScript
end SchemaTypes
