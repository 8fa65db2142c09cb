import SchemaTypes.Proofs.TypeScript.TypeReading
import SchemaTypes.Proofs.TypeScript.ExpressionSpelling

/-!
# Reading operands

The tokens of an operand without lists in it are read as that operand, and what follows
an expression is no operator.
-/

namespace SchemaTypes
namespace TypeScript

/-!
## Brackets
-/

namespace Expression

open Lexeme

theorem balanced_behind (o : Setting) (entries : List Entry) :
    exists b ls, o.behind entries = ls ++ [.mark b '\x7d'] /\ Balanced ls := by
  unfold Setting.behind
  split
  · exact ⟨[], [], rfl, balanced_nil⟩
  · split
    · exact ⟨o.close, [.mark [] ','], rfl, balanced_mark [] (by decide)⟩
    · exact ⟨o.close, [], rfl, balanced_nil⟩

theorem balanced_entry {e : Entry} (hnamed : e.isNamed = true)
    (hvalue : forall key value, e = .pair key value -> Balanced (value.lexemes .flat [' ']))
    (blank : List Char) : Balanced (e.lexemes blank) := by
  cases e with
  | pair key value =>
      rw [Entry.lexemes]
      refine balanced_cons ?_ (balanced_cons (balanced_mark [] (by decide)) (hvalue key value rfl))
      rw [PropertyName.lexeme]
      split
      · exact balanced_string _ _
      · exact balanced_leaf _ _
  | hole => cases hnamed
  | text s => exact balanced_word _ s

theorem balanced_entriesBehind {es : List Entry} (hnamed : forall e, e ∈ es -> e.isNamed = true)
    (hvalue : forall key value, .pair key value ∈ es -> Balanced (value.lexemes .flat [' ']))
    (blank : List Char) : Balanced (Entry.lexemesBehind blank es) := by
  induction es with
  | nil => exact balanced_nil
  | cons e es ih =>
      have hfirst := balanced_entry (hnamed e List.mem_cons_self)
        (fun key value heq => hvalue key value (heq ▸ List.mem_cons_self)) blank
      have hmore := ih (fun f hf => hnamed f (List.mem_cons_of_mem e hf))
        (fun key value hmem => hvalue key value (List.mem_cons_of_mem e hmem))
      rw [Entry.lexemesBehind]
      exact balanced_append (balanced_cons (balanced_mark [] (by decide)) hfirst) hmore

theorem balanced_lexemesBehind {es : List Expression}
    (h : forall e, e ∈ es -> Balanced (e.lexemes .flat [' '])) : Balanced (lexemesBehind es) := by
  induction es with
  | nil => exact balanced_nil
  | cons e es ih =>
      have hmore := ih fun f hf => h f (List.mem_cons_of_mem e hf)
      rw [lexemesBehind]
      exact balanced_append
        (balanced_cons (balanced_mark [] (by decide)) (h e List.mem_cons_self)) hmore

theorem balanced_lexemes {e : Expression} (h : e.Canonical) (o : Setting) (blank : List Char) :
    Balanced (e.lexemes o blank) := by
  induction h generalizing o blank with
  | @object entries hnamed _ ih =>
      obtain ⟨b, ls, hbehind, hls⟩ := balanced_behind o entries
      have hentries : Balanced (Entry.lexemesOf o.entry entries) := by
        cases entries with
        | nil => exact balanced_nil
        | cons first more =>
            rw [Entry.lexemesOf]
            refine balanced_append
              (balanced_entry (hnamed first List.mem_cons_self)
                (fun key value heq => ih key value (heq ▸ List.mem_cons_self) .flat [' ']) o.entry) ?_
            exact balanced_entriesBehind (fun e he => hnamed e (List.mem_cons_of_mem first he))
              (fun key value hmem => ih key value (List.mem_cons_of_mem first hmem) .flat [' '])
              o.entry
      have hinside := balanced_brackets blank b (show ('\x7b', '\x7d') ∈ _ by decide)
        (balanced_append hentries hls)
      rw [lexemes, hbehind]
      simpa only [List.cons_append, List.append_assoc] using hinside
  | @array elements _ ih =>
      rw [lexemes]
      refine balanced_brackets blank [] (by decide) ?_
      cases elements with
      | nil => exact balanced_nil
      | cons first more =>
          rw [lexemesOf]
          refine balanced_append (ih first List.mem_cons_self .flat []) (balanced_lexemesBehind ?_)
          intro e he
          exact ih e (List.mem_cons_of_mem first he) .flat [' ']
  | string => exact balanced_string _ _
  | parenthesized _ ih =>
      rw [lexemes]
      exact balanced_brackets blank [] (by decide) (ih o [])
  | ascription _ htarget ih =>
      rw [lexemes]
      exact balanced_append (ih o blank)
        (balanced_cons (balanced_word _ _) (TypeTree.balanced_lexemes htarget [' ']))
  | text => exact balanced_leaf _ _

end Expression

/-!
## What follows an expression
-/

namespace Parser

variable {g : Grammar} {context : Context} {row : Nat} {rest ts : List Token}

def Ends (marks : List Char) (ts : List Token) : Prop :=
  exists t rest c, ts = t :: rest /\ c ∈ marks /\ t.isMark c = true

section

variable {marks : List Char}

theorem Ends.mono {wider : List Char} (h : Ends marks ts)
    (hsub : marks.all wider.contains = true) :
    Ends wider ts := by
  obtain ⟨t, rest, c, rfl, hc, ht⟩ := h
  exact ⟨t, rest, c, rfl, List.contains_iff_mem.mp (List.all_eq_true.mp hsub c hc), ht⟩

theorem Ends.closes (h : Ends marks ts) (hequals : '=' ∉ marks) : Closes marks ts := by
  obtain ⟨t, rest, c, rfl, hc, ht⟩ := h
  refine ⟨⟨t, rest, rfl, .inr ⟨c, hc, ht⟩⟩, ?_⟩
  have hne : c ≠ '=' := by
    rintro rfl
    exact hequals hc
  exact startsWithMarks_eq_false (Token.isMark_of_isMark ht hne) rest _

theorem Ends.isWord {t : Token} (h : Ends marks (t :: ts)) (w : String) : t.isWord w = false := by
  obtain ⟨u, rest, c, heq, -, ht⟩ := h
  obtain ⟨rfl, rfl⟩ := List.cons.inj heq
  refine Token.isWord_of_kind ?_ w
  rw [Token.kind_of_isMark ht]
  decide

theorem ends_mark (b : List Char) {c : Char} (hc : c ∈ marks) (row : Nat) (rest : List Token) :
    Ends marks ((Lexeme.mark b c).token row :: rest) :=
  ⟨_, rest, c, rfl, hc, by simp⟩

end

def expressionClosers : List Char := ";,)]\x7d".toList

theorem closes_of_ends (h : Ends expressionClosers ts) : Closes expressionClosers ts :=
  h.closes (by decide)

theorem closes_as (cs : List Char) (gap : Gap) (row : Nat) (rest : List Token) :
    Closes cs ((Lexeme.keyword gap "as").token row :: rest) :=
  ⟨⟨_, rest, rfl, .inl (by simp)⟩, startsWithMarks_eq_false (c := '=') (by simp) rest _⟩

/-- No operator starts with what follows an expression. -/
def areOperators (ops : List String) : Bool :=
  ops.all fun op => op.toList.head?.any (!expressionClosers.contains ·)

theorem not_startsWithMarks {ops : List String} (hops : areOperators ops = true)
    (h : Closes expressionClosers ts) {op : String} (hop : op ∈ ops) :
    startsWithMarks ts op.toList = false := by
  obtain ⟨t, us, rfl⟩ := h.exists_cons
  have hhead := List.all_eq_true.mp hops op hop
  cases hlist : op.toList with
  | nil =>
      rw [hlist] at hhead
      cases hhead
  | cons c cs =>
      rw [hlist] at hhead
      exact startsWithMarks_eq_false (h.isMark (by simpa using hhead)) us cs

theorem run_operatorAmong_none {ops : List String} (hops : areOperators ops = true)
    (h : Closes expressionClosers ts) : (operatorAmong ops).run ts = none := by
  have hfind : ops.find? (fun op => startsWithMarks ts op.toList) = none := by
    rw [List.find?_eq_none]
    intro op hop
    rw [not_startsWithMarks hops h hop]
    decide
  simp only [operatorAmong, StateT.run_bind, StateT.run_get, Option.pure_def, Option.bind_eq_bind,
    Option.bind_some, hfind]
  rfl

/-!
## Behind operands
-/

theorem run_step_none (h : Closes expressionClosers rest) : (step g context).run rest = none := by
  obtain ⟨t, ts, rfl⟩ := h.exists_cons
  have hkind : t.kind = .word \/ t.kind = .mark := by
    obtain ⟨⟨u, us, heq, hhead⟩, -⟩ := h
    obtain ⟨rfl, rfl⟩ := List.cons.inj heq
    cases hhead with
    | inl has => exact .inl (Token.kind_of_isWord has)
    | inr hmark =>
        obtain ⟨c, -, hc⟩ := hmark
        exact .inr (Token.kind_of_isMark hc)
  have htext : (t.text == "++".toList) = false /\ (t.text == "--".toList) = false := by
    obtain ⟨⟨u, us, heq, hhead⟩, -⟩ := h
    obtain ⟨rfl, rfl⟩ := List.cons.inj heq
    cases hhead with
    | inl has =>
        simp only [Token.isWord, Bool.and_eq_true, beq_iff_eq] at has
        rw [has.right]
        decide
    | inr hmark =>
        obtain ⟨c, -, hc⟩ := hmark
        rw [Token.text_of_isMark hc]
        exact ⟨by simp, by simp⟩
  have hpoint : t.isMark '.' = false := h.isMark (by decide)
  have hquestion : t.isMark '?' = false := h.isMark (by decide)
  have hbracket : t.isMark '[' = false := h.isMark (by decide)
  have hparenthesis : t.isMark '(' = false := h.isMark (by decide)
  have hless : t.isMark '<' = false := h.isMark (by decide)
  have hbang : t.isMark '!' = false := h.isMark (by decide)
  have hmarks : startsWithMarks (t :: ts) "?.".toList = false := startsWithMarks_eq_false hquestion ts _
  have htemplate : (t.kind == .template || t.kind == .templateHead) = false := by
    rcases hkind with hkind | hkind <;> rw [hkind] <;> decide
  simp only [step, StateT.run_bind, run_peek, Option.bind_eq_bind, Option.bind_some, hpoint,
    run_atMarks, hmarks, hbracket, hparenthesis, htemplate, hless, hbang, htext.left, htext.right,
    Bool.or_self, Bool.false_eq_true, if_false]
  rfl

theorem run_assigned_none (h : Closes expressionClosers rest) :
    (assigned g context).run rest = none := by
  have harrow : startsWithMarks rest "=>".toList = false := h.right
  have hoperator := run_operatorAmong_none (show areOperators (updateOperators ++ ["="]) by decide) h
  simp only [assigned, StateT.run_bind, run_atMarks, harrow, Bool.not_false, Option.bind_eq_bind,
    Option.bind_some, run_require_true, hoperator]
  rfl

theorem run_binaryOperator_none (h : Ends expressionClosers rest) :
    (binaryOperator context).run rest = none := by
  have hoperator := run_operatorAmong_none (show areOperators binaryOperators by decide)
    (closes_of_ends h)
  have hupdate : (updateOperators.any fun op => startsWithMarks rest op.toList) = false := by
    rw [List.any_eq_false]
    intro op hop
    rw [not_startsWithMarks (by decide) (closes_of_ends h) hop]
    decide
  obtain ⟨t, ts, rfl⟩ := (closes_of_ends h).exists_cons
  have hin := h.isWord "in"
  have hinstanceof := h.isWord "instanceof"
  simp only [binaryOperator, atWordOperator, StateT.run_bind, run_atWord, hin, hinstanceof,
    run_endsHere, Option.bind_eq_bind, Option.bind_some, Bool.false_and, Bool.or_self,
    Bool.false_eq_true, if_false, StateT.run_get, StateT.run_pure, Option.pure_def, hupdate,
    Bool.not_false, run_require_true, hoperator]
  rfl

/-!
## Ascriptions
-/

section

variable {start : List Token} {target : Bool} {left : Option Expression}

theorem run_operatorsFrom_end (h : Ends expressionClosers rest) (fuel : Nat) :
    (operatorsFrom g context start fuel target left).run rest = some (left, rest) := by
  cases fuel with
  | zero => rfl
  | succ fuel =>
      have hassigned : (optional? (assigned g context)).run rest = some (none, rest) :=
        run_optional?_none (run_assigned_none (closes_of_ends h))
      have hbinary : (optional? (binaryOperator context)).run rest = some (none, rest) :=
        run_optional?_none (run_binaryOperator_none h)
      obtain ⟨t, ts, rfl⟩ := (closes_of_ends h).exists_cons
      have has := h.isWord "as"
      have hsatisfies := h.isWord "satisfies"
      rw [operatorsFrom]
      cases target <;>
        simp only [StateT.run_bind, StateT.run_pure, hassigned, Option.pure_def, Option.bind_eq_bind,
          Option.bind_some, Option.isSome_none, Bool.false_eq_true, if_false, if_true, atWordOperator,
          run_atWord, has, hsatisfies, run_endsHere, Bool.false_and, hbinary]

theorem run_ascribedType (context : Context) {t : TypeTree} (hread : ReadsType g t)
    (h : t.Canonical) (b : List Char)
    (row : Nat) (hrest : Closes expressionClosers rest) :
    (ascribedType g context).run (Lexeme.place row (t.lexemes b) ++ rest) = some (t, rest) := by
  have htype := hread ⟨context.ending, true⟩ b row rest (hrest.mono (by decide))
  simp only [ascribedType, StateT.run_bind, run_commentTypes_place h, Option.bind_eq_bind,
    Option.bind_some, htype]
  rfl

theorem run_operatorsFrom_ascription {value : Expression} {t : TypeTree} (hread : ReadsType g t)
    (ht : t.Canonical) {b : List Char} (hb : isRowBlank b = true) (b' : List Char) {row row' : Nat}
    (hrest : Closes expressionClosers rest) (fuel : Nat)
    (hvalue : (orText start left).run ((Lexeme.keyword (.ofBlank b) "as").token row ::
        (Lexeme.place row' (t.lexemes b') ++ rest)) =
      some (value, (Lexeme.keyword (.ofBlank b) "as").token row ::
        (Lexeme.place row' (t.lexemes b') ++ rest))) :
    (operatorsFrom g context start (fuel + 1) target left).run
        ((Lexeme.keyword (.ofBlank b) "as").token row ::
          (Lexeme.place row' (t.lexemes b') ++ rest)) =
      (operatorsFrom g context start fuel false (some (.ascription value t))).run rest := by
  have hcloses : Closes expressionClosers ((Lexeme.keyword (.ofBlank b) "as").token row ::
      (Lexeme.place row' (t.lexemes b') ++ rest)) :=
    closes_as _ _ row _
  have hassigned : (optional? (assigned g context)).run
      ((Lexeme.keyword (.ofBlank b) "as").token row ::
        (Lexeme.place row' (t.lexemes b') ++ rest)) = some (none, _) :=
    run_optional?_none (run_assigned_none hcloses)
  have htype := run_ascribedType context hread ht b' row' hrest
  have hends : context.endsBefore ((Lexeme.keyword (.ofBlank b) "as").token row ::
      (Lexeme.place row' (t.lexemes b') ++ rest)) = false :=
    endsBefore_token context Lexeme.keyword_gap hb (by simp) (by simp) _
  have hadvance : advance.run ((Lexeme.keyword (.ofBlank b) "as").token row ::
      (Lexeme.place row' (t.lexemes b') ++ rest)) = some (_, _) :=
    run_advance (by simp)
  rw [operatorsFrom]
  cases target <;>
    simp only [StateT.run_bind, StateT.run_pure, hassigned, Option.pure_def, Option.bind_eq_bind,
      Option.bind_some, Option.isSome_none, Bool.false_eq_true, if_false, if_true, atWordOperator,
      run_atWord, Lexeme.isWord_keyword, beq_self_eq_true, run_endsHere, hends, Bool.not_false,
      Bool.and_self, hvalue, hadvance, htype]

end

/-!
## In front of operands
-/

def openingWords : List String :=
  ["yield", "using", "async", "await", "typeof", "void", "delete", "new"]

/-- The tokens start with an operand, and not with an arrow function or an operator in
front of an operand. -/
def OpensOperand (ts : List Token) : Prop :=
  exists t rest, ts = t :: rest /\ (forall w, w ∈ openingWords -> t.isWord w = false) /\
    (forall c, c ∈ "<!~+-".toList -> t.isMark c = false) /\
    (forall s, s ∈ ["...", "++", "--"] -> t.text ≠ s.toList) /\
    (t.kind = .word -> startsWithMarks rest "=>".toList = false) /\
    (t.isMark '(' = true -> Closes expressionClosers (behindBracket 0 ts))

theorem run_openOperand_none (h : OpensOperand ts) : (openOperand g context).run ts = none := by
  obtain ⟨t, rest, rfl, hwords, hmarks, -, harrow, hbehind⟩ := h
  have hyield := hwords "yield" (by decide)
  have husing := hwords "using" (by decide)
  have hasync := hwords "async" (by decide)
  have hless := hmarks '<' (by decide)
  have hplain : (t.kind == .word && startsWithMarks rest "=>".toList) = false := by
    cases hkind : t.kind == .word with
    | false => rfl
    | true => rw [harrow (eq_of_beq hkind), Bool.and_false]
  simp only [openOperand, arrowFunction, StateT.run_bind, run_atWord, run_peek, StateT.run_get,
    Option.pure_def, Option.bind_eq_bind, Option.bind_some, hyield, husing, hasync, hless,
    List.tail_cons, hplain, Bool.false_or, Bool.false_eq_true, if_false]
  cases hopen : t.isMark '(' with
  | false => rfl
  | true =>
      have hcloses := hbehind hopen
      have hnone : (startsWithMarks (behindBracket 0 (t :: rest)) "=>".toList ||
          startsWithMarks (behindBracket 0 (t :: rest)) [':']) = false := by
        obtain ⟨u, us, hu⟩ := hcloses.exists_cons
        have harrow : startsWithMarks (behindBracket 0 (t :: rest)) "=>".toList = false := hcloses.right
        rw [harrow]
        rw [hu] at hcloses ⊢
        exact startsWithMarks_eq_false (hcloses.isMark (by decide)) us []
      simp only [StateT.run_bind, run_require_true, Option.bind_some, if_true, hnone,
        run_require_false, Option.bind_eq_bind]
      rfl

theorem run_prefixOperator_none (h : OpensOperand ts) : (prefixOperator g).run ts = none := by
  obtain ⟨t, rest, rfl, hwords, hmarks, htext, -⟩ := h
  have hawait := hwords "await" (by decide)
  have hnew := hwords "new" (by decide)
  have hless := hmarks '<' (by decide)
  have hunary : (["typeof", "void", "delete"].any t.isWord) = false := by
    simp [hwords "typeof" (by decide), hwords "void" (by decide), hwords "delete" (by decide)]
  have hsigns : ("!~+-".toList.any t.isMark || t.text == "++".toList || t.text == "--".toList) =
      false := by
    have hplus := htext "++" (by decide)
    have hminus := htext "--" (by decide)
    simp [hmarks '!' (by decide), hmarks '~' (by decide), hmarks '+' (by decide),
      hmarks '-' (by decide), show t.text ≠ ['+', '+'] from hplus,
      show t.text ≠ ['-', '-'] from hminus]
  simp only [prefixOperator, StateT.run_bind, run_peek, run_second, Option.bind_eq_bind,
    Option.bind_some, hawait, hnew, hless, hunary, hsigns, Bool.false_and, Bool.false_eq_true, if_false]
  rfl

theorem run_operandExpression (h : OpensOperand ts) :
    (operandExpression g context).run ts = (closedOperand g context).run ts := by
  have hopen : (openOperand g context).run ts = none := run_openOperand_none h
  have hprefix : (prefixedOperand g context).run ts = none :=
    run_bind_none (run_prefixOperator_none h)
  rw [operandExpression]
  refine (run_orElse_none ?_).trans (run_orElse_none ?_)
  · exact run_bind_none hopen
  · exact run_bind_none hprefix

/-!
## Operands
-/

theorem run_closedOperand {p : Option Expression} (h : (primaryExpression g).run ts = some (p, rest))
    (hopens : OpensOperand ts) (hrest : Closes expressionClosers rest) :
    exists target, (closedOperand g context).run ts = some ((target, p), rest) := by
  have hsteps : (many (step g context)).run rest = some ([], rest) := run_many_nil (run_step_none hrest)
  obtain ⟨t, more, rfl, -⟩ := hopens
  refine ⟨opensTarget t more.head?, ?_⟩
  simp only [closedOperand, StateT.run_bind, run_peek, run_second, Option.bind_eq_bind,
    Option.bind_some, h, hsteps]
  rfl

theorem run_primaryExpression_string (gap : Gap) (s : List Char) :
    (primaryExpression g).run ((Lexeme.string gap s).token row :: rest) =
      some (some (.string s), rest) := by
  simp [primaryExpression, run_peek, run_advance]

theorem run_primaryExpression_number (gap : Gap) (s : List Char) :
    (primaryExpression g).run ((Lexeme.number gap s).token row :: rest) = some (none, rest) := by
  simp [primaryExpression, run_peek, run_advance]

theorem run_primaryExpression_word (gap : Gap) {s : List Char} (hs : isValueWord s = true) :
    (primaryExpression g).run ((Lexeme.word gap s).token row :: rest) = some (none, rest) := by
  have hkind : ((Lexeme.word gap s).token row).kind = .word := by simp
  have hadvance : advance.run ((Lexeme.word gap s).token row :: rest) =
      some ((Lexeme.word gap s).token row, rest) := run_advance (by simp)
  rw [isValueWord, Bool.and_eq_true, Bool.or_eq_true, Bool.not_eq_true'] at hs
  cases hconstant : constantWords.any (s == ·.toList) with
  | true =>
      have hshort : forall v, v ∈ constantWords -> v ∈ ["this", "super", "true", "false", "null"] /\
          forall w, w ∈ ["function", "async", "class"] -> (v.toList == w.toList) = false := by decide
      obtain ⟨v, hv, heq⟩ := List.any_eq_true.mp hconstant
      have hany : (["this", "super", "true", "false", "null"].any
          ((Lexeme.word gap s).token row).isWord) = true :=
        List.any_eq_true.mpr ⟨v, (hshort v hv).left, by simpa using heq⟩
      have hother : forall w, w ∈ ["function", "async", "class"] ->
          ((Lexeme.word gap s).token row).isWord w = false := by
        intro w hw
        rw [Lexeme.isWord_word, eq_of_beq heq]
        exact (hshort v hv).right w hw
      have hfunction := hother "function" (by decide)
      have hasync := hother "async" (by decide)
      have hclass := hother "class" (by decide)
      simp only [primaryExpression, StateT.run_bind, run_peek, run_second, Option.bind_eq_bind,
        Option.bind_some, hkind, hfunction, hasync, hclass, hany, Bool.false_and, Bool.false_eq_true,
        if_false, if_true, hadvance]
      rfl
  | false =>
      have hnone := (hs.right.resolve_left (by rw [hconstant]; decide))
      have hname : forall w, w ∈ nonOperandWords ->
          ((Lexeme.word gap s).token row).isWord w = false :=
        fun w hw => isWord_eq_false_of_text hnone hw
      have hfunction := hname "function" (by decide)
      have hasync := hname "async" (by decide)
      have hclass := hname "class" (by decide)
      have himport := hname "import" (by decide)
      have hnew := hname "new" (by decide)
      have hconstants : (["this", "super", "true", "false", "null"].any
          ((Lexeme.word gap s).token row).isWord) = false := by
        rw [List.any_eq_false]
        intro w hw
        rw [hname w (by revert w; decide)]
        decide
      have hvalue : valueName.run ((Lexeme.word gap s).token row :: rest) =
          some ((Lexeme.word gap s).token row, rest) := by
        refine run_wordOutside hkind ?_
        intro w hw
        refine hname w ?_
        revert w
        decide
      simp only [primaryExpression, StateT.run_bind, run_peek, run_second, Option.bind_eq_bind,
        Option.bind_some, hkind, hfunction, hasync, hclass, himport, hnew, hconstants, Bool.false_and,
        Bool.false_eq_true, if_false, hvalue]
      rfl

def ReadsExpression (g : Grammar) (o : Setting) (b : List Char) (e : Expression) : Prop :=
  forall (context : Context) (row : Nat) (rest : List Token), Ends expressionClosers rest ->
    (g.expression context).run (Lexeme.place row (e.lexemes o b) ++ rest) = some (e, rest)

theorem comments_place {e : Expression} (h : e.Canonical) (o : Setting) (b : List Char) (row : Nat)
    (rest : List Token) :
    comments.run (Lexeme.place row (e.lexemes o b) ++ rest) =
      some ([], Lexeme.place row (e.lexemes o b) ++ rest) := by
  obtain ⟨l, ls, hl, hgap, -⟩ := Expression.lexemes_eq_cons h o b
  have hcomments : (l.token row).comments = [] := Lexeme.comments_token (by rw [hgap]; rfl)
  rw [hl, Lexeme.place_cons, List.cons_append, run_comments, hcomments]

theorem run_sequence (context : Context) {e : Expression} {o : Setting} {b : List Char}
    (hread : ReadsExpression g o b e) (row : Nat) {t : Token} (ht : Ends expressionClosers (t :: rest)) (hcomma : t.isMark ',' = false) :
    (sequence g context).run (Lexeme.place row (e.lexemes o b) ++ t :: rest) =
      some (some e, t :: rest) := by
  have hmore : (many (do let _ ← mark ','; g.expression context)).run (t :: rest) =
      some ([], t :: rest) := run_many_nil (run_bind_none (run_mark_none hcomma))
  simp only [sequence, StateT.run_bind, hread context row _ ht, Option.bind_eq_bind, Option.bind_some,
    hmore]
  rfl

theorem run_primaryExpression_parenthesized {inner : Expression} (h : inner.Canonical) {o : Setting}
    (hread : ReadsExpression g o [] inner) (b : List Char) (rest : List Token) :
    (primaryExpression g).run
        (Lexeme.place row ((Expression.parenthesized inner none).lexemes o b) ++ rest) =
      some (some (.parenthesized inner none), rest) := by
  have hends := fun row => ends_mark [] (show ')' ∈ expressionClosers by decide) row rest
  have hsequence := fun row row' => run_sequence .operand hread row (hends row') (by simp)
  have hcomments := fun row more => comments_place h o [] row more
  simp [primaryExpression, parenthesizedExpression, commentExpressions, Expression.lexemes, run_peek,
    run_mark, hcomments, hsequence, orText, run_atMark]

end Parser
end TypeScript
end SchemaTypes
