import SchemaTypes.Proofs.TypeScript.TypeReading

/-!
# Types in any layout

A type can be spelled with any blanks between its tokens, apart from a line end in front
of an opening bracket, and a union with a bar in front of its first member.  Whatever the
spelling, the grammar reads the same type.
-/

namespace SchemaTypes
namespace TypeScript

/-!
## Spellings
-/

namespace TypeTree

/-- The lexemes spell a type made of words, literals, brackets, parentheses, type
arguments and unions. -/
inductive Spelled : TypeTree -> List Lexeme -> Prop where
  | word (b : List Char) {s : List Char} (hs : isTypeWord s = true) :
      Spelled (text s) [.word (.ofBlank b) s]
  | string (b : List Char) {s : List Char} (hs : isLiteral s = true) :
      Spelled (string s) [.string (.ofBlank b) s]
  | array {element : TypeTree} {ls : List Lexeme} {b : List Char} (b' : List Char)
      (hprimary : element.isPrimary = true) (h : Spelled element ls)
      (hb : isRowBlank b = true) :
      Spelled (array element) (ls ++ [.mark b '[', .mark b' ']'])
  | parenthesized {inner : TypeTree} {ls : List Lexeme} (b b' : List Char)
      (h : Spelled inner ls) :
      Spelled (parenthesized inner) (.mark b '(' :: ls ++ [.mark b' ')'])
  | generic {name : List Char} {first : TypeTree} {ls : List Lexeme}
      {more : List (Further TypeTree)} (b b' b'' : List Char) (hname : isGenericName name = true)
      (hfirst : Spelled first ls) (hmore : forall p, p ∈ more -> Spelled p.value p.lexemes) :
      Spelled (generic name (first :: more.map Further.value))
        (.word (.ofBlank b) name :: .mark b' '<' :: ls ++ Further.lexemesOf ',' more ++
          [.mark b'' '>'])
  | union {first : TypeTree} {lead ls : List Lexeme} {more : List (Further TypeTree)}
      (hlead : Lexeme.IsOptional '|' lead) (hne : more ≠ []) (hprimary : first.isPrimary = true)
      (hfirst : Spelled first ls) (hprimaries : forall p, p ∈ more -> p.value.isPrimary = true)
      (hmore : forall p, p ∈ more -> Spelled p.value p.lexemes) :
      Spelled (union (first :: more.map Further.value))
        (lead ++ ls ++ Further.lexemesOf '|' more)

section

variable {t : TypeTree} {ls : List Lexeme}

theorem Spelled.not_isConstant (h : Spelled t ls) : t.isConstant = false := by
  cases h <;> rfl

/-- The first lexeme has no comment in front of it and is no mark but a parenthesis or
the bar in front of a union. -/
theorem Spelled.eq_cons (h : Spelled t ls) :
    exists l more b, ls = l :: more /\ l.gap = .ofBlank b /\
      forall row c, c ≠ '(' -> (c = '|' -> t.isPrimary = true) -> (l.token row).isMark c = false := by
  induction h with
  | word b hs => exact ⟨_, _, _, rfl, Lexeme.word_gap, by simp⟩
  | string b hs => exact ⟨_, _, _, rfl, Lexeme.string_gap, by simp⟩
  | array b' hprimary _ _ ih =>
      obtain ⟨l, more, b, rfl, hgap, hmark⟩ := ih
      exact ⟨l, _, b, rfl, hgap, fun row c hc _ => hmark row c hc fun _ => hprimary⟩
  | parenthesized b b' =>
      refine ⟨_, _, _, rfl, Lexeme.mark_gap, ?_⟩
      intro row c hc _
      simpa using hc.symm
  | generic => exact ⟨_, _, _, rfl, Lexeme.word_gap, by simp⟩
  | union hlead _ hprimary _ _ _ ih =>
      rcases hlead with rfl | ⟨b, rfl⟩
      · obtain ⟨l, more, b, rfl, hgap, hmark⟩ := ih
        exact ⟨l, _, b, rfl, hgap, fun row c hc _ => hmark row c hc fun _ => hprimary⟩
      · refine ⟨_, _, b, rfl, Lexeme.mark_gap, ?_⟩
        intro row c _ hc
        rw [Lexeme.isMark_mark, beq_eq_false_iff_ne]
        rintro rfl
        cases hc rfl

theorem Spelled.length_pos (h : Spelled t ls) : 0 < ls.length := by
  obtain ⟨l, more, b, rfl, -⟩ := h.eq_cons
  exact Nat.succ_pos _

open Lexeme in
theorem balanced_further {c : Char} (hc : c ∉ "()[]\x7b\x7d".toList) {ps : List (Further TypeTree)}
    (h : forall p, p ∈ ps -> Balanced p.lexemes) : Balanced (Further.lexemesOf c ps) := by
  induction ps with
  | nil => exact balanced_nil
  | cons p ps ih =>
      have hmore := ih fun q hq => h q (List.mem_cons_of_mem p hq)
      have hfirst := h p List.mem_cons_self
      rw [Further.lexemesOf_cons]
      exact balanced_append (balanced_cons (balanced_mark _ hc) hfirst) hmore

open Lexeme in
theorem Spelled.balanced (h : Spelled t ls) : Balanced ls := by
  induction h with
  | word b hs => exact balanced_word _ _
  | string b hs => exact balanced_string _ _
  | array b' _ _ _ ih =>
      exact balanced_append ih (balanced_brackets _ b' (by decide) balanced_nil)
  | parenthesized b b' _ ih => exact balanced_brackets b b' (by decide) ih
  | @generic name _ _ _ b b' b'' _ _ _ ihfirst ihmore =>
      have hmore := balanced_further (show ',' ∉ _ by decide) ihmore
      have hinside := balanced_cons (balanced_mark b' (show '<' ∉ _ by decide))
        (balanced_append ihfirst hmore)
      exact balanced_append (balanced_cons (balanced_word (.ofBlank b) name) hinside)
        (balanced_mark b'' (by decide))
  | union hlead _ _ _ _ _ ihfirst ihmore =>
      have hmore := balanced_further (show '|' ∉ _ by decide) ihmore
      rcases hlead with rfl | ⟨b, rfl⟩
      · exact balanced_append ihfirst hmore
      · exact balanced_append (balanced_cons (balanced_mark b (by decide)) ihfirst) hmore

end

end TypeTree

namespace Parser

open TypeTree

variable {g : Grammar} {context : Context} {row : Nat} {rest ts : List Token} {t : TypeTree}
  {ls : List Lexeme}

/-!
## Types between brackets
-/

def ReadsAs (g : Grammar) (ls : List Lexeme) (t : TypeTree) : Prop :=
  forall (context : Context) (row : Nat) (rest : List Token), Closes typeClosers rest ->
    (g.type context).run (Lexeme.place row ls ++ rest) = some (t, rest)

/-- The grammar reads every spelling of at most so many lexemes. -/
def ReadsSpellings (g : Grammar) (n : Nat) : Prop :=
  forall (t : TypeTree) (ls : List Lexeme), Spelled t ls -> ls.length ≤ n -> ReadsAs g ls t

theorem run_commentTypes_spelled (h : Spelled t ls) (row : Nat) (rest : List Token) :
    commentTypes.run (Lexeme.place row ls ++ rest) = some ([], Lexeme.place row ls ++ rest) := by
  obtain ⟨l, more, b, rfl, hgap, -⟩ := h.eq_cons
  have hcomments : (l.token row).comments = [] := Lexeme.comments_token (by rw [hgap]; rfl)
  rw [Lexeme.place_cons, List.cons_append, run_commentTypes, hcomments]
  rfl

theorem run_primaryType_inside (h : Spelled t ls) (hread : ReadsAs g ls t) (b b' : List Char)
    (rest : List Token) :
    (primaryType g context).run
        (Lexeme.place row (.mark b '(' :: ls ++ [.mark b' ')']) ++ rest) =
      some (.parenthesized t, rest) := by
  have hclose : forall row, Closes typeClosers ((Lexeme.mark b' ')').token row :: rest) :=
    fun row => Closes.of_mark (by decide) (by decide) row rest
  have hinner := fun row => hread .enclosed row _ (hclose (row + Lexeme.rows ls))
  have hparts := parts_of_not_constant h.not_isConstant
  simp [primaryType, parenthesizedType, withText, run_peek, run_mark, run_commentTypes_spelled h,
    hinner, run_commentTypes_mark, hparts]

theorem readsArgument_spelled (h : Spelled t ls) (hread : ReadsAs g ls t) : ReadsArgument g ls t := by
  intro row rest hrest
  simp [typeArgument, run_commentTypes_spelled h, hread .enclosed row rest hrest]

/-!
## Brackets behind types
-/

theorem run_indexedFrom_brackets {start : List Token} {fuel : Nat} {object : TypeTree}
    (hobject : object.isConstant = false) {b : List Char} (hb : isRowBlank b = true) (b' : List Char)
    (row : Nat) (rest : List Token) :
    (indexedFrom g context start (fuel + 1) object).run
        (Lexeme.place row [.mark b '[', .mark b' ']'] ++ rest) =
      (indexedFrom g context start fuel (.array object)).run rest := by
  have hends := endsBefore_mark context hb (c := '[') (by decide) row
    ((Lexeme.mark b' ']').token (row + Lexeme.rows [Lexeme.mark b '[']) :: rest)
  simp only [Lexeme.place_cons, Lexeme.place_nil, List.cons_append, List.nil_append] at hends ⊢
  simp [indexedFrom, run_atMark, run_endsHere, hends, run_commentTypes_mark, run_advance,
    parts_of_not_constant hobject]

theorem opensPrimary_spelled (h : Spelled t ls) (hprimary : t.isPrimary = true) (row : Nat)
    (hrest : startsWithMarks rest "=>".toList = false) :
    OpensPrimary (Lexeme.place row ls ++ rest) := by
  induction h generalizing rest with
  | word b hs =>
      refine ⟨_, _, rfl, by simp, ?_, by simp⟩
      intro w hw
      have hleaf := @not_isWord_leaf row _ (.inl hs) (.ofBlank b) w hw
      rwa [Lexeme.leaf_of_isWordText (isWordText_of_isTypeWord hs)] at hleaf
  | string b hs => exact ⟨_, _, rfl, by simp, by simp, by simp⟩
  | array b' helement _ _ ih =>
      rw [Lexeme.place_append, List.append_assoc]
      exact ih helement (startsWithMarks_eq_false (c := '=') (by simp) _ ['>'])
  | parenthesized b b' hinner =>
      have hbehind := Lexeme.behindBracket_parentheses b b' hinner.balanced row
        (row + Lexeme.rows [.mark b '(']) rest
      refine ⟨_, _, rfl, ?_, ?_, ?_⟩
      · intro c hc
        rw [Lexeme.isMark_mark]
        revert c
        exact forall_mem_of_all (by decide)
      · intro w _
        exact Lexeme.isWord_mark
      · intro _
        exact hbehind.symm ▸ hrest
  | generic b b' b'' hname =>
      refine ⟨_, _, rfl, by simp, ?_, by simp⟩
      intro w hw
      rw [isGenericName, Bool.and_eq_true, Bool.and_eq_true, Bool.not_eq_true'] at hname
      exact isWord_eq_false_of_text hname.left.right (by revert w; decide)
  | union => cases hprimary

theorem indexSteps_le_length (h : Spelled t ls) : indexSteps t ≤ ls.length := by
  induction h with
  | array _ _ _ _ ih =>
      simp only [indexSteps, List.length_append, List.length_cons]
      omega
  | _ => exact Nat.zero_le _

section

variable {n : Nat} (hg : ReadsSpellings g n)

include hg

/-- A type that brackets bind to is read, with one step of the loop for every pair of
brackets behind it. -/
theorem run_indexed_spelled (h : Spelled t ls) (hprimary : t.isPrimary = true)
    (hsize : ls.length ≤ n + 1) {start : List Token} (row fuel : Nat)
    (hrest : Closes primaryClosers rest) :
    (primaryType g context >>= indexedFrom g context start (fuel + indexSteps t)).run
        (Lexeme.place row ls ++ rest) = (indexedFrom g context start fuel t).run rest := by
  induction h generalizing row fuel rest with
  | word b hs =>
      have hword := @run_primaryType_leafWord g context row rest _ hs b hrest
      rw [TypeTree.lexemes, Lexeme.leaf_of_isWordText (isWordText_of_isTypeWord hs)] at hword
      exact run_bind_some hword
  | string b hs => exact run_bind_some (run_primaryType_string _ _)
  | @array element ls b b' helement h hb ih =>
      have hsteps : fuel + indexSteps (.array element) = fuel + 1 + indexSteps element := by
        rw [indexSteps]
        omega
      have hlength : ls.length ≤ n + 1 := by
        simp only [List.length_append] at hsize
        omega
      have hbehind : Closes primaryClosers
          (Lexeme.place (row + Lexeme.rows ls) [.mark b '[', .mark b' ']'] ++ rest) :=
        Closes.of_mark (by decide) (by decide) _ _
      rw [Lexeme.place_append, List.append_assoc, hsteps, ih helement hlength row (fuel + 1) hbehind]
      exact run_indexedFrom_brackets h.not_isConstant hb b' _ rest
  | @parenthesized inner ls b b' h _ =>
      have hlength : ls.length ≤ n := by
        simp only [List.length_append, List.length_cons] at hsize
        omega
      exact run_bind_some (run_primaryType_inside h (hg inner ls h hlength) b b' rest)
  | @generic name first ls more b b' b'' hname hfirst hmore _ _ =>
      simp only [List.length_append, List.length_cons] at hsize
      have hargument := readsArgument_spelled hfirst (hg first ls hfirst (by omega))
      have hfurther : forall p, p ∈ more -> ReadsArgument g p.lexemes p.value := by
        intro p hp
        have hle := Further.length_le_of_mem ',' hp
        exact readsArgument_spelled (hmore p hp) (hg p.value p.lexemes (hmore p hp) (by omega))
      exact run_bind_some (run_primaryType_genericName hname
        (fun row => run_typeArguments_further hargument hfurther b' b'' row rest) (.ofBlank b))
  | union => cases hprimary

/-!
## Unions
-/

theorem run_intersectionType_spelled (h : Spelled t ls) (hprimary : t.isPrimary = true)
    (hsize : ls.length ≤ n + 1) (row : Nat) {fuel : Nat} (hfuel : 2 ≤ fuel)
    (hrest : Closes memberClosers rest) :
    (intersectionType g context fuel).run (Lexeme.place row ls ++ rest) = some (t, rest) := by
  obtain ⟨fuel, rfl⟩ : exists m, fuel = m + 1 + 1 := ⟨fuel - 2, by omega⟩
  have hsteps := indexSteps_le_length h
  have hlength : (Lexeme.place row ls ++ rest).length =
      (ls.length - indexSteps t + rest.length) + indexSteps t := by
    rw [List.length_append, Lexeme.length_place]
    omega
  have hindexed : (indexedType g context).run (Lexeme.place row ls ++ rest) = some (t, rest) := by
    rw [run_indexedType_eq, hlength,
      run_indexed_spelled hg h hprimary hsize row _ (hrest.mono (by decide))]
    exact run_indexedFrom_end (hrest.mono (by decide)) _
  rw [intersectionType, StateT.run_bind, run_operandType (opensPrimary_spelled h hprimary row hrest.right),
    hindexed]
  exact run_intersectionFrom_end hrest fuel t

theorem readsAsMember_spelled (h : Spelled t ls) (hprimary : t.isPrimary = true)
    (hsize : ls.length ≤ n + 1) : ReadsAsMember g context ls t where
  isMember := isMember_of_isOperand (isOperand_of_isPrimary hprimary)
  comments row rest := run_commentTypes_spelled h row rest
  read hfuel row _ hrest := run_intersectionType_spelled hg h hprimary hsize row (by omega) hrest

omit hg in
/-- A bar is the operator of unions in front of what opens a member of one. -/
theorem standsBehindBar_spelled (h : Spelled t ls) (hprimary : t.isPrimary = true) :
    StandsBehindBar context ls := by
  obtain ⟨l, ls, b, rfl, -, hmark⟩ := h.eq_cons
  intro b' row row' rest
  have hbar := hmark row' '|' (by decide) fun _ => hprimary
  have hbrace := hmark row' '\x7d' (by decide) (by simp)
  simp [atTypeOperator, startsWithMarks, hbar, hbrace]

theorem run_unionType_primary (h : Spelled t ls) (hprimary : t.isPrimary = true)
    (hsize : ls.length ≤ n + 1) (row : Nat) (hrest : Closes typeClosers rest) :
    (unionType g context).run (Lexeme.place row ls ++ rest) = some (t, rest) := by
  have hpositive := h.length_pos
  have hfuel : 2 ≤ 3 * (Lexeme.place row ls ++ rest).length := by
    rw [List.length_append, Lexeme.length_place]
    omega
  refine run_unionType (run_intersectionType_spelled hg h hprimary hsize row hfuel
    (hrest.mono (by decide))) ?_
  exact run_unionFrom_end hrest (by omega) t

theorem run_unionType_spelled {lead : List Lexeme} {first : TypeTree} {ps : List (Further TypeTree)}
    (hlead : Lexeme.IsOptional '|' lead) (hne : ps ≠ []) (hprimary : first.isPrimary = true)
    (hfirst : Spelled first ls) (hprimaries : forall p, p ∈ ps -> p.value.isPrimary = true)
    (h : forall p, p ∈ ps -> Spelled p.value p.lexemes)
    (hsize : (lead ++ ls ++ Further.lexemesOf '|' ps).length ≤ n + 1) (row : Nat)
    (hrest : Closes typeClosers rest) :
    (unionType g context).run
        (Lexeme.place row (lead ++ ls ++ Further.lexemesOf '|' ps) ++ rest) =
      some (.union (first :: ps.map Further.value), rest) := by
  simp only [List.length_append] at hsize
  have hmembers : forall p, p ∈ ps -> ReadsAsMember g context p.lexemes p.value := by
    intro p hp
    have hle := Further.length_le_of_mem '|' hp
    exact readsAsMember_spelled hg (h p hp) (hprimaries p hp) (by omega)
  exact run_unionType_further hlead (fun _ => hne)
    (readsAsMember_spelled hg hfirst hprimary (by omega)) hmembers
    (fun p hp => standsBehindBar_spelled (h p hp) (hprimaries p hp)) row hrest

end

/-- The rules for deeper types read all spellings of fewer lexemes. -/
theorem readsSpellings_upTo (n : Nat) : ReadsSpellings (Grammar.upTo n) n := by
  induction n with
  | zero =>
      intro t ls h hsize
      have hpositive := h.length_pos
      omega
  | succ n ih =>
      intro t ls h hsize context row rest hrest
      refine run_type ?_ hrest
      cases h with
      | union hlead hne hprimary hfirst hprimaries hmore =>
          exact run_unionType_spelled ih hlead hne hprimary hfirst hprimaries hmore hsize row hrest
      | word b hs => exact run_unionType_primary ih (.word b hs) rfl hsize row hrest
      | string b hs => exact run_unionType_primary ih (.string b hs) rfl hsize row hrest
      | array b' hprimary h hb =>
          exact run_unionType_primary ih (.array b' hprimary h hb) rfl hsize row hrest
      | parenthesized b b' h =>
          exact run_unionType_primary ih (.parenthesized b b' h) rfl hsize row hrest
      | generic b b' b'' hname hfirst hmore =>
          exact run_unionType_primary ih (.generic b b' b'' hname hfirst hmore) rfl hsize row hrest

end Parser
end TypeScript
end SchemaTypes
