import SchemaTypes.Proofs.TypeScript.PrimaryReading

/-!
# Reading types

The tokens of a canonical type are read as that type, whatever stands around them, as
long as nothing that goes on with the type follows.
-/

namespace SchemaTypes
namespace TypeScript
namespace Parser

variable {g : Grammar} {context : Context} {row : Nat} {rest ts : List Token}

/-!
## Operands

The first token of a type that brackets bind to opens no other kind of operand.
-/

/-- What may follow an operand of the operators between types. -/
def operandClosers : List Char := ['&', '|'] ++ typeClosers

def operandWords : List String := ["readonly", "infer", "import", "new", "abstract", "keyof"]

def OpensPrimary (ts : List Token) : Prop :=
  exists t rest, ts = t :: rest /\ (forall c, c ∈ ['|', '&', '<', '?'] -> t.isMark c = false) /\
    (forall w, w ∈ operandWords -> t.isWord w = false) /\
    (t.isMark '(' = true -> startsWithMarks (behindBracket 0 ts) "=>".toList = false)

theorem run_atFunctionParameters (ts : List Token) :
    atFunctionParameters.run ts =
      some (startsWithMarks (behindBracket 0 ts) "=>".toList, ts) :=
  rfl

theorem startsWithMarks_eq_false {t : Token} {c : Char} (h : t.isMark c = false) (ts : List Token)
    (more : List Char) : startsWithMarks (t :: ts) (c :: more) = false := by
  cases more with
  | nil => simp [startsWithMarks, h]
  | cons d more => cases ts <;> simp [startsWithMarks, h]

theorem run_operandType (h : OpensPrimary ts) (fuel : Nat) :
    (operandType g context (fuel + 1)).run ts = (indexedType g context).run ts := by
  obtain ⟨t, rest, rfl, hmarks, hwords, harrow⟩ := h
  have hbar := hmarks '|' (by decide)
  have hand := hmarks '&' (by decide)
  have hangle := hmarks '<' (by decide)
  have hquestion := hmarks '?' (by decide)
  have hreadonly := hwords "readonly" (by decide)
  have hinfer := hwords "infer" (by decide)
  have himport := hwords "import" (by decide)
  have hnew := hwords "new" (by decide)
  have habstract := hwords "abstract" (by decide)
  have hkeyof := hwords "keyof" (by decide)
  rw [operandType]
  simp only [StateT.run_bind, run_peek, Option.bind_eq_bind, Option.bind_some, hbar, hand, hangle,
    hquestion, hreadonly, hinfer, himport, hnew, habstract, hkeyof, Bool.or_self, Bool.false_eq_true,
    if_false]
  cases hopen : t.isMark '(' with
  | false =>
      simp only [Bool.false_eq_true, if_false, run_atFunctionParameters, Option.bind_some, Bool.false_and]
  | true =>
      simp only [run_atFunctionParameters, harrow hopen, Bool.true_and, Bool.false_eq_true, if_false,
        Option.bind_some]

theorem not_isWord_leaf {s : List Char} (hs : TypeTree.isTypeWord s = true \/ isWholeNumber s = true)
    (gap : Gap) {w : String} (hw : w ∈ operandWords) :
    ((Lexeme.leaf gap s).token row).isWord w = false := by
  have hliterals : forall v, v ∈ literalWords -> forall w, w ∈ operandWords ->
      (v.toList == w.toList) = false := by decide
  have hnames : forall w, w ∈ operandWords -> w ∈ nonTypeWords := by decide
  cases hs with
  | inl hword =>
      rw [Lexeme.leaf_of_isWordText (TypeTree.isWordText_of_isTypeWord hword), Lexeme.isWord_word]
      rw [TypeTree.isTypeWord, Bool.and_eq_true, Bool.or_eq_true, Bool.not_eq_true'] at hword
      cases hword.right with
      | inl hliteral =>
          obtain ⟨v, hv, heq⟩ := List.any_eq_true.mp hliteral
          rw [eq_of_beq heq]
          exact hliterals v hv w hw
      | inr hname => simpa using List.any_eq_false.mp hname w (hnames w hw)
  | inr hnumber =>
      rw [Lexeme.leaf_of_isWholeNumber hnumber]
      exact Lexeme.isWord_number

theorem opensPrimary {t : TypeTree} (h : t.Canonical) (hprimary : t.isPrimary = true) (b : List Char)
    (row : Nat) (hrest : startsWithMarks rest "=>".toList = false) :
    OpensPrimary (Lexeme.place row (t.lexemes b) ++ rest) := by
  induction h generalizing rest with
  | union => cases hprimary
  | intersection => cases hprimary
  | keyOf => cases hprimary
  | constant => cases hprimary
  | array helement _ ih =>
      rw [TypeTree.lexemes, Lexeme.place_append, List.append_assoc]
      exact ih helement (startsWithMarks_eq_false (c := '=') (by simp) _ ['>'])
  | @parenthesized inner _ hinner _ =>
      have hbehind := Lexeme.behindBracket_parentheses b [] (TypeTree.balanced_lexemes hinner [])
        row (row + Lexeme.rows [.mark b '(']) rest
      refine ⟨_, _, rfl, ?_, ?_, ?_⟩
      · intro c hc
        rw [Lexeme.isMark_mark]
        revert c
        exact forall_mem_of_all (by decide)
      · intro w _
        exact Lexeme.isWord_mark
      · intro _
        exact hbehind.symm ▸ hrest
  | lookup hobject _ _ _ _ ih _ =>
      rw [TypeTree.lexemes, List.append_assoc, Lexeme.place_append, List.append_assoc]
      exact ih hobject (startsWithMarks_eq_false (c := '=') (by simp) _ ['>'])
  | typeOf =>
      refine ⟨_, _, rfl, by simp, ?_, by simp⟩
      intro w hw
      rw [Lexeme.isWord_keyword]
      revert w
      decide
  | string => exact ⟨_, _, rfl, by simp, by simp, by simp⟩
  | generic hname =>
      refine ⟨_, _, rfl, by simp, ?_, by simp⟩
      intro w hw
      rw [TypeTree.isGenericName, Bool.and_eq_true, Bool.and_eq_true, Bool.not_eq_true'] at hname
      exact isWord_eq_false_of_text hname.left.right (by revert w; decide)
  | text hs =>
      refine ⟨_, _, rfl, ?_, ?_, ?_⟩
      · intro c _
        exact Lexeme.isMark_leaf
      · intro w hw
        exact not_isWord_leaf hs _ hw
      · intro hopen
        rw [Lexeme.isMark_leaf] at hopen
        cases hopen

theorem indexSteps_le {t : TypeTree} (h : t.Canonical) : indexSteps t ≤ (t.lexemes []).length := by
  induction h with
  | array _ _ ih =>
      simp only [indexSteps, TypeTree.lexemes, List.length_append, List.length_cons]
      omega
  | lookup _ _ _ _ _ iho _ =>
      simp only [indexSteps, TypeTree.lexemes, List.length_append, List.length_cons]
      omega
  | _ => exact Nat.zero_le _

theorem run_indexedFrom_end {start : List Token} {t : TypeTree} (h : Closes operandClosers rest)
    (fuel : Nat) : (indexedFrom g context start fuel t).run rest = some (t, rest) := by
  obtain ⟨u, us, rfl⟩ := h.exists_cons
  have hopen : u.isMark '[' = false := h.isMark (by decide)
  cases fuel with
  | zero => rfl
  | succ fuel =>
      simp only [indexedFrom, StateT.run_bind, run_atMark, hopen, run_endsHere, Option.bind_eq_bind,
        Option.bind_some, Bool.false_and, Bool.false_eq_true, if_false]
      rfl

theorem run_indexedType_eq (ts : List Token) :
    (indexedType g context).run ts =
      (primaryType g context >>= indexedFrom g context ts ts.length).run ts := by
  simp only [indexedType, StateT.run_bind, StateT.run_get, Option.pure_def, Option.bind_eq_bind,
    Option.bind_some]

theorem run_operandType_keyOf {operand : TypeTree} (hconstant : operand.isConstant = false)
    {u : Token} {us : List Token} (hcomments : u.comments = []) (hbar : u.isMark '|' = false)
    (hand : u.isMark '&' = false) {fuel : Nat}
    (hread : (if u.isWord "keyof" then operandType g context fuel else indexedType g context).run
      (u :: us) = some (operand, rest)) (gap : Gap) (row : Nat) :
    (operandType g context (fuel + 1)).run ((Lexeme.keyword gap "keyof").token row :: u :: us) =
      some (.keyOf operand, rest) := by
  have hparts := parts_of_not_constant hconstant
  have hadvance : advance.run ((Lexeme.keyword gap "keyof").token row :: u :: us) =
      some ((Lexeme.keyword gap "keyof").token row, u :: us) := run_advance (by simp)
  rw [operandType]
  cases hkeyof : u.isWord "keyof" with
  | false =>
      simp only [hkeyof, Bool.false_eq_true, if_false] at hread
      simp [withText, run_peek, run_atFunctionParameters, hadvance, run_commentTypes, hcomments,
        hbar, hand, hkeyof, hread, hparts]
  | true =>
      simp only [hkeyof, if_true] at hread
      simp [withText, run_peek, run_atFunctionParameters, hadvance, run_commentTypes, hcomments,
        hbar, hand, hkeyof, hread, hparts]

section

variable {n : Nat} (hg : ReadsTypes g n)

include hg

theorem run_indexedType {t : TypeTree} (h : t.Canonical) (hprimary : t.isPrimary = true)
    (hsize : (t.lexemes []).length ≤ n + 1) (b : List Char) (row : Nat)
    (hrest : Closes operandClosers rest) :
    (indexedType g context).run (Lexeme.place row (t.lexemes b) ++ rest) = some (t, rest) := by
  have hwide : Closes primaryClosers rest := hrest.mono (by decide)
  have hquery : t.isQuery = true -> ClosesQuery rest := by
    intro _ u us hu
    subst hu
    exact .inl (hrest.isMark (by decide))
  have hsteps := indexSteps_le h
  have hlength : (Lexeme.place row (t.lexemes b) ++ rest).length =
      ((t.lexemes []).length - indexSteps t + rest.length) + indexSteps t := by
    rw [List.length_append, Lexeme.length_place, TypeTree.length_lexemes h b]
    omega
  rw [run_indexedType_eq, hlength, run_indexed h hprimary hg hsize b row _ hwide hquery]
  exact run_indexedFrom_end hrest _

theorem run_operandType_primary {t : TypeTree} (h : t.Canonical) (hprimary : t.isPrimary = true)
    (hsize : (t.lexemes []).length ≤ n + 1) (b : List Char) (row : Nat) (fuel : Nat)
    (hrest : Closes operandClosers rest) :
    (operandType g context (fuel + 1)).run (Lexeme.place row (t.lexemes b) ++ rest) =
      some (t, rest) := by
  rw [run_operandType (opensPrimary h hprimary b row hrest.right)]
  exact run_indexedType hg h hprimary hsize b row hrest

theorem run_operandType_operand {t : TypeTree} (h : t.Canonical) (hoperand : t.isOperand = true)
    (hsize : (t.lexemes []).length ≤ n + 1) (b : List Char) (row : Nat) {fuel : Nat}
    (hfuel : (t.lexemes []).length ≤ fuel + 1) (hrest : Closes operandClosers rest) :
    (operandType g context (fuel + 1)).run (Lexeme.place row (t.lexemes b) ++ rest) =
      some (t, rest) := by
  induction h generalizing b row fuel with
  | union => cases hoperand
  | intersection => cases hoperand
  | constant => cases hoperand
  | array he h _ => exact run_operandType_primary hg (.array he h) rfl hsize b row fuel hrest
  | parenthesized hc h _ =>
      exact run_operandType_primary hg (.parenthesized hc h) rfl hsize b row fuel hrest
  | lookup hp hq hc ho hi _ _ =>
      exact run_operandType_primary hg (.lookup hp hq hc ho hi) rfl hsize b row fuel hrest
  | typeOf h => exact run_operandType_primary hg (.typeOf h) rfl hsize b row fuel hrest
  | string h hq => exact run_operandType_primary hg (.string h hq) rfl hsize b row fuel hrest
  | generic hn hc h _ =>
      exact run_operandType_primary hg (.generic hn hc h) rfl hsize b row fuel hrest
  | text h => exact run_operandType_primary hg (.text h) rfl hsize b row fuel hrest
  | @keyOf operand hinner hcanonical ih =>
      have hlength := TypeTree.length_lexemes hcanonical [' ']
      have hsizes : (operand.lexemes []).length ≤ n /\ (operand.lexemes []).length ≤ fuel := by
        simp only [TypeTree.lexemes, List.length_cons] at hsize hfuel
        omega
      have hpositive := TypeTree.length_pos hcanonical
      obtain ⟨fuel, rfl⟩ : exists m, fuel = m + 1 := ⟨fuel - 1, by omega⟩
      have hconstant := TypeTree.not_isConstant_of_isMember (TypeTree.isMember_of_isOperand hinner)
      have hread : forall row, exists u us, Lexeme.place row (operand.lexemes [' ']) ++ rest = u :: us /\
          u.comments = [] /\ u.isMark '|' = false /\ u.isMark '&' = false /\
          (if u.isWord "keyof" then operandType g context (fuel + 1) else indexedType g context).run
            (u :: us) = some (operand, rest) := by
        intro row
        obtain ⟨l, ls, hl, hgap, hmark⟩ := operand.lexemes_eq_cons hcanonical [' ']
        refine ⟨l.token row, Lexeme.place (row + Lexeme.rows [l]) ls ++ rest, by rw [hl]; rfl,
          Lexeme.comments_token (by rw [hgap]; rfl), hmark row _ (by decide), hmark row _ (by decide), ?_⟩
        have hplace : l.token row :: (Lexeme.place (row + Lexeme.rows [l]) ls ++ rest) =
            Lexeme.place row (operand.lexemes [' ']) ++ rest := by
          rw [hl]
          rfl
        rw [hplace]
        cases hword : (l.token row).isWord "keyof" with
        | true => exact ih hinner (by omega) [' '] row (by omega)
        | false =>
            have hprimary : operand.isPrimary = true := by
              cases operand with
              | keyOf =>
                  rw [TypeTree.lexemes] at hl
                  rw [← (List.cons.inj hl).left] at hword
                  simp at hword
              | _ => exact hinner
            exact run_indexedType hg hcanonical hprimary (by omega) [' '] row hrest
      obtain ⟨u, us, hplace, hcomments, hbar, hand, hrun⟩ :=
        hread (row + Lexeme.rows [Lexeme.keyword (.ofBlank b) "keyof"])
      rw [TypeTree.lexemes, Lexeme.place_cons, List.cons_append, hplace]
      exact run_operandType_keyOf hconstant hcomments hbar hand hrun _ row

/-!
## Intersections
-/

def intersectionSteps : TypeTree -> Nat
  | .intersection [left, _] => intersectionSteps left + 1
  | _ => 0

omit hg in
theorem run_atTypeOperator (c : Char) (b : List Char) {t : Token} (ht : t.glued = false)
    (row : Nat) (ts : List Token) :
    (atTypeOperator context c).run ((Lexeme.mark b c).token row :: t :: ts) =
      some (true, (Lexeme.mark b c).token row :: t :: ts) := by
  simp [atTypeOperator, startsWithMarks, ht]

omit hg in
theorem place_lexemes_eq_cons {t : TypeTree} (h : t.Canonical) (c : Char) (b : List Char) (row : Nat) :
    exists u us, Lexeme.place row (t.lexemes (c :: b)) = u :: us /\ u.glued = false := by
  obtain ⟨l, ls, hl, hgap, -⟩ := t.lexemes_eq_cons h (c :: b)
  refine ⟨l.token row, Lexeme.place (row + Lexeme.rows [l]) ls, by rw [hl]; rfl, ?_⟩
  exact Lexeme.glued_token_of_blank hgap

theorem run_intersection_operand {t : TypeTree} (h : t.Canonical) (hoperand : t.isOperand = true)
    (hsize : (t.lexemes []).length ≤ n + 1) (b : List Char) (row : Nat) {fuel : Nat}
    (hfuel : (t.lexemes []).length ≤ fuel + 1) (hrest : Closes operandClosers rest) :
    (intersectionType g context (fuel + 1 + 1)).run (Lexeme.place row (t.lexemes b) ++ rest) =
      (intersectionFrom g context (fuel + 1) t).run rest := by
  rw [intersectionType, StateT.run_bind, run_operandType_operand hg h hoperand hsize b row hfuel hrest]
  rfl

theorem run_intersectionFrom_operand {left right : TypeTree} (h : right.Canonical)
    (hoperand : right.isOperand = true) (hsize : (right.lexemes []).length ≤ n + 1) (row : Nat)
    {fuel : Nat} (hfuel : (right.lexemes []).length ≤ fuel + 1) (hrest : Closes operandClosers rest) :
    (intersectionFrom g context (fuel + 1 + 1) left).run
        (Lexeme.place row (TypeTree.lexemesBehind (.mark [' '] '&') [right]) ++ rest) =
      (intersectionFrom g context (fuel + 1) (.intersection [left, right])).run rest := by
  have hright : forall row, (operandType g context (fuel + 1)).run
      (Lexeme.place row (right.lexemes [' ']) ++ rest) = some (right, rest) :=
    fun row => run_operandType_operand hg h hoperand hsize [' '] row hfuel hrest
  have hbetween := fun row => run_commentTypes_place h [' '] row rest
  have hoperator : forall row row', (atTypeOperator context '&').run
      ((Lexeme.mark [' '] '&').token row :: (Lexeme.place row' (right.lexemes [' ']) ++ rest)) =
      some (true, (Lexeme.mark [' '] '&').token row ::
        (Lexeme.place row' (right.lexemes [' ']) ++ rest)) := by
    intro row row'
    obtain ⟨u, us, hu, hglued⟩ := place_lexemes_eq_cons h ' ' [] row'
    rw [hu]
    exact run_atTypeOperator '&' [' '] hglued row (us ++ rest)
  simp only [TypeTree.lexemesBehind, List.cons_append, List.append_nil, Lexeme.place_cons]
  rw [intersectionFrom]
  simp [hoperator, run_commentTypes_mark, run_advance, hbetween, hright]

theorem run_intersection {t : TypeTree} (h : t.Canonical) (hmember : t.isMember = true)
    (hsize : (t.lexemes []).length ≤ n + 1) (b : List Char) (row : Nat) {fuel : Nat}
    (hfuel : (t.lexemes []).length ≤ fuel + 1) (hrest : Closes operandClosers rest) :
    (intersectionType g context (fuel + 1 + intersectionSteps t + 1)).run
        (Lexeme.place row (t.lexemes b) ++ rest) =
      (intersectionFrom g context (fuel + 1) t).run rest := by
  induction h generalizing b row fuel rest with
  | union => cases hmember
  | constant => cases hmember
  | @intersection left right hleft hright hl hr ih _ =>
      have hsteps : fuel + 1 + intersectionSteps (.intersection [left, right]) + 1 =
          fuel + 1 + 1 + intersectionSteps left + 1 := by
        rw [intersectionSteps]
        omega
      have hlength := TypeTree.length_lexemes hr [' ']
      simp only [TypeTree.lexemes, TypeTree.lexemesOf, TypeTree.lexemesBehind, List.length_append,
        List.length_cons] at hsize hfuel
      have hbehind : forall row, Closes operandClosers
          (Lexeme.place row (TypeTree.lexemesBehind (.mark [' '] '&') [right]) ++ rest) :=
        fun row => Closes.of_mark (by decide) (by decide) row _
      rw [TypeTree.lexemes, TypeTree.lexemesOf, Lexeme.place_append, List.append_assoc, hsteps,
        ih hleft (by omega) b row (by omega) (hbehind _)]
      exact run_intersectionFrom_operand hg hr hright (by omega) _ (by omega) hrest
  | array he h _ => exact run_intersection_operand hg (.array he h) rfl hsize b row hfuel hrest
  | parenthesized hc h _ =>
      exact run_intersection_operand hg (.parenthesized hc h) rfl hsize b row hfuel hrest
  | lookup hp hq hc ho hi _ _ =>
      exact run_intersection_operand hg (.lookup hp hq hc ho hi) rfl hsize b row hfuel hrest
  | keyOf ho h _ => exact run_intersection_operand hg (.keyOf ho h) rfl hsize b row hfuel hrest
  | typeOf h => exact run_intersection_operand hg (.typeOf h) rfl hsize b row hfuel hrest
  | string h hq => exact run_intersection_operand hg (.string h hq) rfl hsize b row hfuel hrest
  | generic hn hc h _ =>
      exact run_intersection_operand hg (.generic hn hc h) rfl hsize b row hfuel hrest
  | text h => exact run_intersection_operand hg (.text h) rfl hsize b row hfuel hrest

/-!
## Unions
-/

def memberClosers : List Char := '|' :: typeClosers

omit hg in
theorem run_atTypeOperator_none {t : Token} {c : Char} (h : t.isMark c = false) (ts : List Token) :
    (atTypeOperator context c).run (t :: ts) = some (false, t :: ts) := by
  simp [atTypeOperator, startsWithMarks, h]

omit hg in
theorem run_intersectionFrom_end (h : Closes memberClosers rest) (fuel : Nat) (t : TypeTree) :
    (intersectionFrom g context (fuel + 1) t).run rest = some (t, rest) := by
  obtain ⟨u, us, rfl⟩ := h.exists_cons
  have hand : u.isMark '&' = false := h.isMark (by decide)
  rw [intersectionFrom]
  simp [run_atTypeOperator_none hand]

omit hg in
theorem intersectionSteps_le {t : TypeTree} (h : t.Canonical) :
    intersectionSteps t ≤ (t.lexemes []).length := by
  induction h with
  | @intersection left right _ _ _ _ ih _ =>
      simp only [intersectionSteps, TypeTree.lexemes, TypeTree.lexemesOf, TypeTree.lexemesBehind,
        List.length_append, List.length_cons]
      omega
  | _ => exact Nat.zero_le _

theorem run_intersectionType {t : TypeTree} (h : t.Canonical) (hmember : t.isMember = true)
    (hsize : (t.lexemes []).length ≤ n + 1) (b : List Char) (row : Nat) {fuel : Nat}
    (hfuel : 2 * (t.lexemes []).length + 2 ≤ fuel) (hrest : Closes memberClosers rest) :
    (intersectionType g context fuel).run (Lexeme.place row (t.lexemes b) ++ rest) =
      some (t, rest) := by
  have hsteps := intersectionSteps_le h
  obtain ⟨spare, rfl, hspare⟩ : exists m, fuel = m + 1 + intersectionSteps t + 1 /\
      (t.lexemes []).length ≤ m + 1 :=
    ⟨fuel - intersectionSteps t - 2, by omega, by omega⟩
  rw [run_intersection hg h hmember hsize b row hspare (hrest.mono (by decide))]
  exact run_intersectionFrom_end hrest spare t

omit hg in
theorem run_unionFrom_end (h : Closes typeClosers rest) {fuel : Nat} (hfuel : 1 ≤ fuel)
    (t : TypeTree) : (unionFrom g context fuel t).run rest = some (t, rest) := by
  obtain ⟨fuel, rfl⟩ : exists m, fuel = m + 1 := ⟨fuel - 1, by omega⟩
  obtain ⟨u, us, rfl⟩ := h.exists_cons
  have hbar : u.isMark '|' = false := h.isMark (by decide)
  simp [unionFrom, run_atTypeOperator_none hbar]

/-- The grammar reads the lexemes as a member of a union, wherever they stand. -/
structure ReadsAsMember (g : Grammar) (context : Context) (ls : List Lexeme) (t : TypeTree) : Prop where
  isMember : t.isMember = true
  comments (row : Nat) (rest : List Token) :
    commentTypes.run (Lexeme.place row ls ++ rest) = some ([], Lexeme.place row ls ++ rest)
  read {fuel : Nat} (hfuel : 2 * ls.length + 2 ≤ fuel) (row : Nat) {rest : List Token}
    (hrest : Closes memberClosers rest) :
    (intersectionType g context fuel).run (Lexeme.place row ls ++ rest) = some (t, rest)

/-- A bar in front of the lexemes is the operator of unions. -/
def StandsBehindBar (context : Context) (ls : List Lexeme) : Prop :=
  forall (b : List Char) (row row' : Nat) (rest : List Token),
    (atTypeOperator context '|').run
        ((Lexeme.mark b '|').token row :: (Lexeme.place row' ls ++ rest)) =
      some (true, (Lexeme.mark b '|').token row :: (Lexeme.place row' ls ++ rest))

theorem readsAsMember_lexemes {t : TypeTree} (h : t.Canonical) (hmember : t.isMember = true)
    (hsize : (t.lexemes []).length ≤ n + 1) (b : List Char) :
    ReadsAsMember g context (t.lexemes b) t where
  isMember := hmember
  comments row rest := run_commentTypes_place h b row rest
  read hfuel row _ hrest := by
    rw [TypeTree.length_lexemes h b] at hfuel
    exact run_intersectionType hg h hmember hsize b row hfuel hrest

omit hg in
theorem standsBehindBar_lexemes {t : TypeTree} (h : t.Canonical) :
    StandsBehindBar context (t.lexemes [' ']) := by
  intro b row row' rest
  obtain ⟨u, us, hu, hglued⟩ := place_lexemes_eq_cons h ' ' [] row'
  rw [hu]
  exact run_atTypeOperator '|' b hglued row (us ++ rest)

omit hg in
theorem run_unionFrom {ps : List (Further TypeTree)}
    (hread : forall p, p ∈ ps -> ReadsAsMember g context p.lexemes p.value)
    (hbar : forall p, p ∈ ps -> StandsBehindBar context p.lexemes) (row : Nat) {fuel : Nat}
    (hfuel : 2 * (Further.lexemesOf '|' ps).length + 3 ≤ fuel) (left : TypeTree)
    (hrest : Closes typeClosers rest) :
    (unionFrom g context fuel left).run (Lexeme.place row (Further.lexemesOf '|' ps) ++ rest) =
      some (if ps.isEmpty then left else .union (left.unionMembers ++ ps.map Further.value), rest) := by
  induction ps generalizing row fuel left with
  | nil => exact run_unionFrom_end hrest (by omega) left
  | cons p ps ih =>
      simp only [Further.lexemesOf_cons, List.length_append, List.length_cons] at hfuel
      obtain ⟨fuel, rfl⟩ : exists m, fuel = m + 1 := ⟨fuel - 1, by omega⟩
      have hp := hread p List.mem_cons_self
      have hmembers := TypeTree.unionMembers_of_isMember hp.isMember
      have hbehind : forall row, Closes memberClosers
          (Lexeme.place row (Further.lexemesOf '|' ps) ++ rest) :=
        fun row => closes_further (by decide) (by decide) ps row (hrest.mono (by decide))
      have hfirst := fun row row' => hp.read (show 2 * p.lexemes.length + 2 ≤ fuel by omega) row
        (hbehind row')
      have hmore := fun row => ih (fun q hq => hread q (List.mem_cons_of_mem p hq))
        (fun q hq => hbar q (List.mem_cons_of_mem p hq)) row
        (show 2 * (Further.lexemesOf '|' ps).length + 3 ≤ fuel by omega)
        (.union (left.unionMembers ++ [p.value]))
      have hoperator := hbar p List.mem_cons_self
      rw [Further.lexemesOf_cons, Lexeme.place_append, Lexeme.place_cons, List.append_assoc,
        List.cons_append, unionFrom]
      simp only [StateT.run_bind, hoperator _ _ _ _, Option.bind_eq_bind, Option.bind_some, if_true,
        run_commentTypes_mark, run_advance, hp.comments, hfirst, hmembers, List.append_nil,
        Lexeme.token_kind, Lexeme.mark_kind, ne_eq, reduceCtorEq, not_false_eq_true, hmore]
      cases ps with
      | nil => rfl
      | cons q qs => simp [TypeTree.unionMembers]

/-!
## Whole types
-/

omit hg in
theorem run_type {t : TypeTree} (h : (unionType g context).run ts = some (t, rest))
    (hrest : Closes typeClosers rest) : (type g context).run ts = some (t, rest) := by
  obtain ⟨u, us, rfl⟩ := hrest.exists_cons
  have hextends : u.isWord "extends" = false := hrest.isWord (by decide)
  simp only [type, StateT.run_bind, StateT.run_get, Option.pure_def, Option.bind_eq_bind,
    Option.bind_some, h, run_atWord, hextends, run_endsHere, Bool.false_and, Bool.false_eq_true,
    if_false]
  rfl

omit hg in
theorem run_unionType {first t : TypeTree} {mid : List Token}
    (hfirst : (intersectionType g context (3 * ts.length)).run ts = some (first, mid))
    (hmore : (unionFrom g context (3 * ts.length) first).run mid = some (t, rest)) :
    (unionType g context).run ts = some (t, rest) := by
  simp only [unionType, StateT.run_bind, StateT.run_get, Option.pure_def, Option.bind_eq_bind,
    Option.bind_some, hfirst, hmore]

omit hg in
theorem run_intersectionType_constant (b : List Char) (row : Nat) {fuel : Nat} (hfuel : 2 ≤ fuel)
    (hrest : Closes memberClosers rest) :
    (intersectionType g context fuel).run
        (Lexeme.place row (TypeTree.constant.lexemes b) ++ rest) = some (.constant, rest) := by
  obtain ⟨fuel, rfl⟩ : exists m, fuel = m + 1 + 1 := ⟨fuel - 2, by omega⟩
  have hopens : OpensPrimary (Lexeme.place row (TypeTree.constant.lexemes b) ++ rest) := by
    refine ⟨_, _, rfl, by simp, ?_, by simp⟩
    intro w hw
    rw [Lexeme.isWord_keyword]
    revert w
    decide
  have hread : (indexedType g context).run (Lexeme.place row (TypeTree.constant.lexemes b) ++ rest) =
      some (.constant, rest) := by
    rw [run_indexedType_eq]
    refine (run_bind_some (run_primaryType_constant _)).trans ?_
    exact run_indexedFrom_end (hrest.mono (by decide)) _
  rw [intersectionType, StateT.run_bind, run_operandType hopens, hread]
  exact run_intersectionFrom_end hrest fuel _

theorem run_unionType_member {t : TypeTree} (h : t.Canonical) (hmember : t.isMember = true)
    (hsize : (t.lexemes []).length ≤ n + 1) (b : List Char) (row : Nat)
    (hrest : Closes typeClosers rest) :
    (unionType g context).run (Lexeme.place row (t.lexemes b) ++ rest) = some (t, rest) := by
  have hlength : (Lexeme.place row (t.lexemes b) ++ rest).length =
      (t.lexemes []).length + rest.length := by
    rw [List.length_append, Lexeme.length_place, TypeTree.length_lexemes h b]
  have hpositive := TypeTree.length_pos h
  obtain ⟨u, us, rfl⟩ := hrest.exists_cons
  simp only [List.length_cons] at hlength
  refine run_unionType (run_intersectionType hg h hmember hsize b row ?_ (hrest.mono (by decide))) ?_
  · omega
  · exact run_unionFrom_end hrest (by omega) t

omit hg in
theorem run_operandType_bar {t : TypeTree} {fuel : Nat}
    (hcomments : commentTypes.run ts = some ([], ts))
    (hread : (intersectionType g context fuel).run ts = some (t, rest)) (b : List Char) (row : Nat) :
    (operandType g context (fuel + 1 + 1)).run ((Lexeme.mark b '|').token row :: ts) =
      some (.union t.unionMembers, rest) := by
  rw [operandType, prefixedBy]
  simp [run_peek, run_mark?, run_mark, hcomments, hread]

omit hg in
theorem run_unionType_further {lead ls : List Lexeme} {first : TypeTree}
    {ps : List (Further TypeTree)} (hlead : Lexeme.IsOptional '|' lead) (hne : lead = [] -> ps ≠ [])
    (hfirst : ReadsAsMember g context ls first)
    (hread : forall p, p ∈ ps -> ReadsAsMember g context p.lexemes p.value)
    (hbar : forall p, p ∈ ps -> StandsBehindBar context p.lexemes) (row : Nat)
    (hrest : Closes typeClosers rest) :
    (unionType g context).run
        (Lexeme.place row (lead ++ ls ++ Further.lexemesOf '|' ps) ++ rest) =
      some (.union (first :: ps.map Further.value), rest) := by
  have hmembers := TypeTree.unionMembers_of_isMember hfirst.isMember
  have hbehind : forall row, Closes memberClosers
      (Lexeme.place row (Further.lexemesOf '|' ps) ++ rest) :=
    fun row => closes_further (by decide) (by decide) ps row (hrest.mono (by decide))
  have hmore := fun row left fuel hfuel =>
    @run_unionFrom g context rest _ hread hbar row fuel hfuel left hrest
  have hlength : 0 < rest.length := by
    obtain ⟨u, us, rfl⟩ := hrest.exists_cons
    exact Nat.succ_pos _
  rcases hlead with rfl | ⟨b, rfl⟩
  · rw [List.nil_append, Lexeme.place_append, List.append_assoc]
    refine run_unionType (hfirst.read ?_ row (hbehind _)) ((hmore _ _ _ ?_).trans ?_)
    · simp only [List.length_append, Lexeme.length_place]
      omega
    · simp only [List.length_append, Lexeme.length_place]
      omega
    · rw [if_neg (by simpa using hne rfl), hmembers]
      rfl
  · have hbarred : forall row row' row₂ fuel, 2 * ls.length + 5 ≤ fuel ->
        (intersectionType g context fuel).run ((Lexeme.mark b '|').token row ::
          (Lexeme.place row' ls ++ (Lexeme.place row₂ (Further.lexemesOf '|' ps) ++ rest))) =
        some (.union [first], Lexeme.place row₂ (Further.lexemesOf '|' ps) ++ rest) := by
      intro row row' row₂ fuel hfuel
      obtain ⟨fuel, rfl⟩ : exists m, fuel = m + 1 + 1 + 1 := ⟨fuel - 3, by omega⟩
      have hinner := hfirst.read (show 2 * ls.length + 2 ≤ fuel by omega) row' (hbehind row₂)
      rw [intersectionType, StateT.run_bind,
        run_operandType_bar (hfirst.comments _ _) hinner, hmembers]
      exact run_intersectionFrom_end (hbehind row₂) _ _
    rw [List.append_assoc, List.singleton_append, Lexeme.place_cons, Lexeme.place_append,
      List.cons_append, List.append_assoc]
    refine run_unionType (hbarred _ _ _ _ ?_) ((hmore _ _ _ ?_).trans ?_)
    · simp only [List.length_append, Lexeme.length_place, List.length_cons]
      omega
    · simp only [List.length_append, Lexeme.length_place, List.length_cons]
      omega
    · cases ps <;> rfl

section

variable {first : TypeTree} {more : List TypeTree}
  (hmember : forall t, t ∈ first :: more -> t.isMember = true)
  (hcanonical : forall t, t ∈ first :: more -> t.Canonical)
  (hsize : forall t, t ∈ first :: more -> (t.lexemes []).length ≤ n + 1)

include hmember hcanonical hsize

theorem readsAsMember_further (b : List Char) {p : Further TypeTree}
    (hp : p ∈ TypeTree.further b more) :
    ReadsAsMember g context p.lexemes p.value /\ StandsBehindBar context p.lexemes := by
  obtain ⟨t, ht, rfl⟩ := List.mem_map.mp hp
  have hmem := List.mem_cons_of_mem first ht
  exact ⟨readsAsMember_lexemes hg (hcanonical t hmem) (hmember t hmem) (hsize t hmem) [' '],
    standsBehindBar_lexemes (hcanonical t hmem)⟩

theorem run_unionType_union (hne : more ≠ []) (b : List Char) (row : Nat)
    (hrest : Closes typeClosers rest) :
    (unionType g context).run
        (Lexeme.place row ((TypeTree.union (first :: more)).lexemes b) ++ rest) =
      some (.union (first :: more), rest) := by
  have hfirst := @readsAsMember_lexemes g context n hg first (hcanonical first List.mem_cons_self)
    (hmember first List.mem_cons_self) (hsize first List.mem_cons_self) b
  have hmore := fun p => @readsAsMember_further g context n hg first more hmember hcanonical hsize [' '] p
  have hall := run_unionType_further (.inl rfl) (fun _ => by simpa [TypeTree.further] using hne)
    hfirst (fun p hp => (hmore p hp).left) (fun p hp => (hmore p hp).right) row hrest
  rw [TypeTree.values_further] at hall
  rw [TypeTree.lexemes, TypeTree.lexemesOf, TypeTree.lexemesBehind_eq]
  exact hall

theorem run_unionType_barred (b : List Char) (row : Nat) (hrest : Closes typeClosers rest) :
    (unionType g context).run
        (Lexeme.place row (TypeTree.lexemesBehind (.mark b '|') (first :: more)) ++ rest) =
      some (.union (first :: more), rest) := by
  have hfirst := @readsAsMember_lexemes g context n hg first (hcanonical first List.mem_cons_self)
    (hmember first List.mem_cons_self) (hsize first List.mem_cons_self) [' ']
  have hmore := fun p => @readsAsMember_further g context n hg first more hmember hcanonical hsize b p
  have hall := run_unionType_further (.inr ⟨b, rfl⟩) (fun hnil => by cases hnil) hfirst
    (fun p hp => (hmore p hp).left) (fun p hp => (hmore p hp).right) row hrest
  rw [TypeTree.values_further] at hall
  rw [TypeTree.lexemesBehind, TypeTree.lexemesBehind_eq]
  exact hall

end

omit hg in
theorem run_unionType_constant (b : List Char) (row : Nat) (hrest : Closes typeClosers rest) :
    (unionType g context).run (Lexeme.place row (TypeTree.constant.lexemes b) ++ rest) =
      some (.constant, rest) := by
  obtain ⟨u, us, rfl⟩ := hrest.exists_cons
  refine run_unionType (run_intersectionType_constant b row ?_ (hrest.mono (by decide))) ?_
  · simp only [List.length_append, List.length_cons]
    omega
  · refine run_unionFrom_end hrest ?_ .constant
    simp only [List.length_append, List.length_cons]
    omega

end

/-- The rules for deeper types read all types of fewer lexemes. -/
theorem readsTypes_upTo (n : Nat) : ReadsTypes (Grammar.upTo n) n := by
  induction n with
  | zero =>
      intro t h hsize
      have hpositive := TypeTree.length_pos h
      omega
  | succ n ih =>
      intro t h hsize context b row rest hrest
      refine run_type ?_ hrest
      cases h with
      | @union first second more hmember hcanonical =>
          refine run_unionType_union ih hmember hcanonical ?_ (List.cons_ne_nil _ _) b row hrest
          intro u hu
          have hlength := TypeTree.length_le_lexemesOf_of_mem (.mark [' '] '|') hu (hcanonical u hu)
          simp only [TypeTree.lexemes] at hsize
          omega
      | constant => exact run_unionType_constant b row hrest
      | intersection hl hr hcl hcr =>
          exact run_unionType_member ih (.intersection hl hr hcl hcr) rfl hsize b row hrest
      | array he h => exact run_unionType_member ih (.array he h) rfl hsize b row hrest
      | parenthesized hc h =>
          exact run_unionType_member ih (.parenthesized hc h) rfl hsize b row hrest
      | lookup hp hq hc ho hi =>
          exact run_unionType_member ih (.lookup hp hq hc ho hi) rfl hsize b row hrest
      | keyOf ho h => exact run_unionType_member ih (.keyOf ho h) rfl hsize b row hrest
      | typeOf h => exact run_unionType_member ih (.typeOf h) rfl hsize b row hrest
      | string h hq => exact run_unionType_member ih (.string h hq) rfl hsize b row hrest
      | generic hn hc h => exact run_unionType_member ih (.generic hn hc h) rfl hsize b row hrest
      | text h => exact run_unionType_member ih (.text h) rfl hsize b row hrest

end Parser
end TypeScript
end SchemaTypes
