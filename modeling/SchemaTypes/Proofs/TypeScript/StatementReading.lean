import SchemaTypes.Proofs.TypeScript.StatementSpelling

/-!
# Reading statements

The tokens of a canonical statement are read as that statement, whose members are found
on the rows they stand on.
-/

namespace SchemaTypes
namespace TypeScript
namespace Parser

variable {g : Grammar} {n : Nat} {row : Nat} {rest ts : List Token}

/-!
## Declarators
-/

theorem run_bindingName {s : List Char} (h : isBindingName s = true) (gap : Gap) (row : Nat)
    (rest : List Token) :
    (textOf (pattern g bindingName)).run ((Lexeme.word gap s).token row :: rest) = some (s, rest) := by
  rw [isBindingName, Bool.and_eq_true, Bool.not_eq_true'] at h
  have hword : bindingName.run ((Lexeme.word gap s).token row :: rest) =
      some ((Lexeme.word gap s).token row, rest) :=
    run_wordOutside (by simp) fun w hw => isWord_of_excluded h.right hw
  have hpattern : (pattern g bindingName).run ([(Lexeme.word gap s).token row] ++ rest) =
      some ((), rest) := by
    simp [pattern, patternFrom, run_mark?, hword]
  have htext := run_textOf hpattern
  rwa [written_singleton, Lexeme.token_text, Lexeme.word_text, List.singleton_append] at htext

def ReadsDeclarator (g : Grammar) (o : Setting) (d : Declarator) : Prop :=
  (forall t, d.declared = some t -> ReadsType g t) /\
    forall e, d.value = some e -> ReadsExpression g o [' '] e

/-- The value of a declarator behind its equals sign. -/
def valueLexemes (o : Setting) (value : Option Expression) : List Lexeme :=
  value.elim [] fun e => .mark [' '] '=' :: e.lexemes o [' ']

theorem place_value_eq_cons (o : Setting) (value : Option Expression) (row : Nat)
    (hrest : Ends [',', ';'] rest) :
    exists u us c, Lexeme.place row (valueLexemes o value) ++ rest = u :: us /\
      c ∈ ['=', ',', ';'] /\ u.isMark c = true := by
  cases value with
  | none =>
      obtain ⟨t, ts, c, rfl, hc, ht⟩ := hrest
      exact ⟨t, ts, c, rfl, List.mem_cons_of_mem _ hc, ht⟩
  | some e => exact ⟨_, _, '=', rfl, by decide, by simp⟩

theorem closes_value (o : Setting) {value : Option Expression}
    (h : forall e, value = some e -> e.Canonical) (row : Nat) (hrest : Ends [',', ';'] rest) :
    Closes typeClosers (Lexeme.place row (valueLexemes o value) ++ rest) := by
  cases value with
  | none => exact Closes.mono (hrest.closes (by decide)) (by decide)
  | some e =>
      obtain ⟨l, ls, hl, hgap, -⟩ := Expression.lexemes_eq_cons (h e rfl) o [' ']
      refine ⟨⟨_, _, rfl, .inr ⟨'=', by decide, by simp⟩⟩, ?_⟩
      have hglued : forall row, (l.token row).glued = false :=
        fun row => Lexeme.glued_token_of_blank hgap
      simp [valueLexemes, hl, startsWithMarks, hglued]

theorem run_declaratorValue {o : Setting} {value : Option Expression}
    (hread : forall e, value = some e -> ReadsExpression g o [' '] e) (row : Nat)
    (hrest : Ends [',', ';'] rest) :
    (declaratorValue g false).run (Lexeme.place row (valueLexemes o value) ++ rest) =
      some (value, rest) := by
  cases value with
  | none =>
      obtain ⟨t, ts, c, rfl, hc, ht⟩ := hrest
      have hne : '=' ∉ [',', ';'] := by decide
      have hequals : t.isMark '=' = false := by
        refine Token.isMark_of_isMark ht ?_
        rintro rfl
        exact hne hc
      simp [declaratorValue, valueLexemes, run_atMark, hequals]
  | some e =>
      have hends : Ends expressionClosers rest := hrest.mono (by decide)
      have hvalue := hread e rfl .expressionEnding (row + Lexeme.rows [.mark [' '] '=']) rest hends
      have hmark : (mark '=').run ((Lexeme.mark [' '] '=').token row ::
          (Lexeme.place (row + Lexeme.rows [.mark [' '] '=']) (e.lexemes o [' ']) ++ rest)) =
            some (_, _) := run_mark (by simp)
      simp only [valueLexemes, Option.elim_some]
      rw [Lexeme.place_cons, List.cons_append]
      simp [declaratorValue, run_atMark, hmark, hvalue, -Lexeme.place_append]

theorem run_definiteMark {u : Token} (h : u.isMark '!' = false) :
    definiteMark.run (u :: ts) = some (false, u :: ts) := by
  cases hends : Context.typeEnding.endsBefore (u :: ts) <;>
    simp [definiteMark, run_endsHere, hends, run_mark?, h]

def declaredLexemes (declared : Option TypeTree) : List Lexeme :=
  declared.elim [] fun t => .mark [] ':' :: t.lexemes [' ']

theorem run_declaratorType {declared : Option TypeTree}
    (hread : forall t, declared = some t -> ReadsType g t)
    (h : forall t, declared = some t -> t.Canonical /\ t.isConstant = false) (row : Nat)
    (hrest : Closes typeClosers rest) (hcolon : forall t ts, rest = t :: ts -> t.isMark ':' = false) :
    (declaratorType g false).run (Lexeme.place row (declaredLexemes declared) ++ rest) =
      some (declared, rest) := by
  cases declared with
  | none =>
      obtain ⟨t, ts, rfl⟩ := hrest.exists_cons
      simp [declaratorType, declaredLexemes, run_atMark, hcolon t ts rfl]
  | some t =>
      have htype := run_declaredType (hread t rfl) (h t rfl).left (h t rfl).right [] .typeEnding row
        hrest
      simp only [declaredLexemes, Option.elim_some]
      rw [Lexeme.place_cons, List.cons_append] at htype ⊢
      simp [declaratorType, run_atMark, htype, -Lexeme.place_append]

theorem run_declarator {d : Declarator} (h : d.Canonical) {o : Setting} (hread : ReadsDeclarator g o d)
    (row : Nat) (hrest : Ends [',', ';'] rest) :
    (declarator g).run (Lexeme.place row (d.lexemes o) ++ rest) = some (d, rest) := by
  obtain ⟨name, definite, declared, value⟩ := d
  obtain ⟨hname, rfl, hdeclared, hvalue⟩ := h
  have hmarks : forall c, c ∈ ['=', ',', ';'] -> c ≠ '!' /\ c ≠ ':' :=
    forall_mem_of_all (by decide)
  have hlexemes : (Declarator.mk name false declared value).lexemes o =
      .word (.ofBlank [' ']) name :: (declaredLexemes declared ++ valueLexemes o value) := rfl
  rw [hlexemes, Lexeme.place_cons, List.cons_append, Lexeme.place_append, List.append_assoc]
  generalize row + Lexeme.rows [.word (.ofBlank [' ']) name] = row₁
  generalize row₁ + Lexeme.rows (declaredLexemes declared) = row₂
  obtain ⟨u, us, c, hus, hc, hu⟩ := place_value_eq_cons o value row₂ hrest
  have hcloses := closes_value o hvalue row₂ hrest
  have hrunValue := run_declaratorValue hread.right row₂ hrest
  rw [hus] at hcloses hrunValue ⊢
  have hrunType := run_declaratorType hread.left hdeclared row₁ hcloses (by
    rintro t ts ⟨⟩
    exact Token.isMark_of_isMark hu (hmarks c hc).right)
  have hbang : exists v vs, Lexeme.place row₁ (declaredLexemes declared) ++ u :: us = v :: vs /\
      v.isMark '!' = false := by
    cases declared with
    | none => exact ⟨u, us, rfl, Token.isMark_of_isMark hu (hmarks c hc).left⟩
    | some t => exact ⟨_, _, rfl, by simp⟩
  obtain ⟨v, vs, hvs, hv⟩ := hbang
  rw [hvs] at hrunType ⊢
  refine (run_bind_some (run_bindingName hname _ row _)).trans ?_
  refine (run_bind_some (run_definiteMark hv)).trans ?_
  refine (run_bind_some hrunType).trans ?_
  exact run_bind_some hrunValue

/-!
## Lists of declarators
-/

theorem run_semicolon (operators : Bool) (b : List Char) (row : Nat) (rest : List Token) :
    (semicolon operators).run ((Lexeme.mark b ';').token row :: rest) = some ((), rest) := by
  simp [semicolon, run_mark?]

theorem run_furtherDeclarators {ds : List Declarator} (h : forall d, d ∈ ds -> d.Canonical)
    {o : Setting} (hread : forall d, d ∈ ds -> ReadsDeclarator g o d) (hrest : Ends [';'] rest)
    {fuel : Nat} (hfuel : ds.length ≤ fuel) (row : Nat) :
    (manyFrom (do let _ ← mark ','; declarator g) fuel).run
        (Lexeme.place row (ds.flatMap fun d => .mark [] ',' :: d.lexemes o) ++ rest) =
      some (ds, rest) := by
  induction ds generalizing row fuel with
  | nil =>
      obtain ⟨t, ts, c, rfl, hc, ht⟩ := hrest
      have hne : ',' ∉ [';'] := by decide
      have hcomma : t.isMark ',' = false := by
        refine Token.isMark_of_isMark ht ?_
        rintro rfl
        exact hne hc
      exact run_manyFrom_nil (run_bind_none (run_mark_none hcomma)) fuel
  | cons d ds ih =>
      obtain ⟨fuel, rfl⟩ : exists m, fuel = m + 1 :=
        ⟨fuel - 1, by simp only [List.length_cons] at hfuel; omega⟩
      have hmore := fun row => ih (fun e he => h e (List.mem_cons_of_mem d he))
        (fun e he => hread e (List.mem_cons_of_mem d he)) (Nat.le_of_succ_le_succ hfuel) row
      have hends : forall row, Ends [',', ';']
          (Lexeme.place row (ds.flatMap fun d => .mark [] ',' :: d.lexemes o) ++ rest) := by
        intro row
        cases ds with
        | nil => exact hrest.mono (by decide)
        | cons e es => exact ends_mark [] List.mem_cons_self row _
      rw [List.flatMap_cons, List.cons_append, Lexeme.place_cons, List.cons_append,
        Lexeme.place_append, List.append_assoc]
      generalize row + Lexeme.rows [.mark [] ','] = row₁
      generalize row₁ + Lexeme.rows (d.lexemes o) = row₂
      have hfirst := run_declarator (h d List.mem_cons_self) (hread d List.mem_cons_self) row₁
        (hends row₂)
      exact run_manyFrom_cons ((run_bind_some (run_mark (by simp))).trans hfirst) (hmore row₂)

theorem run_declarators {d : Declarator} {ds : List Declarator}
    (h : forall e, e ∈ d :: ds -> e.Canonical) {o : Setting}
    (hread : forall e, e ∈ d :: ds -> ReadsDeclarator g o e) (row : Nat) (rest : List Token) :
    (declarators g).run
        (Lexeme.place row (Declarator.lexemesOf o (d :: ds) ++ [.mark [] ';']) ++ rest) =
      some (d :: ds, rest) := by
  have hsemicolon : forall row, Ends [';'] (Lexeme.place row [.mark [] ';'] ++ rest) :=
    fun row => ends_mark [] List.mem_cons_self row rest
  have hends : forall row row', Ends [',', ';']
      (Lexeme.place row (ds.flatMap fun d => .mark [] ',' :: d.lexemes o) ++
        (Lexeme.place row' [.mark [] ';'] ++ rest)) := by
    intro row row'
    cases ds with
    | nil => exact (hsemicolon row').mono (by decide)
    | cons e es => exact ends_mark [] List.mem_cons_self row _
  have hlength := length_le_flatMap (.mark [] ',') (Declarator.lexemes o) ds
  rw [Declarator.lexemesOf, Lexeme.place_append, Lexeme.place_append, List.append_assoc,
    List.append_assoc]
  generalize row + Lexeme.rows (d.lexemes o) = row₁
  generalize row + Lexeme.rows (d.lexemes o ++ ds.flatMap fun d => .mark [] ',' :: d.lexemes o) = row₂
  have hfirst := run_declarator (h d List.mem_cons_self) (hread d List.mem_cons_self) row
    (hends row₁ row₂)
  have hmore : (many (do let _ ← mark ','; declarator g)).run
      (Lexeme.place row₁ (ds.flatMap fun d => .mark [] ',' :: d.lexemes o) ++
        (Lexeme.place row₂ [.mark [] ';'] ++ rest)) =
      some (ds, Lexeme.place row₂ [.mark [] ';'] ++ rest) := by
    refine run_many (run_furtherDeclarators (fun e he => h e (List.mem_cons_of_mem d he))
      (fun e he => hread e (List.mem_cons_of_mem d he)) (hsemicolon row₂) ?_ row₁)
    rw [List.length_append, Lexeme.length_place]
    omega
  have hseparated : (separated (mark ',') (declarator g)).run
      (Lexeme.place row (d.lexemes o) ++
        (Lexeme.place row₁ (ds.flatMap fun d => .mark [] ',' :: d.lexemes o) ++
          (Lexeme.place row₂ [.mark [] ';'] ++ rest))) =
      some (d :: ds, Lexeme.place row₂ [.mark [] ';'] ++ rest) :=
    (run_bind_some hfirst).trans (run_bind_some hmore)
  refine (run_bind_some hseparated).trans ?_
  exact run_bind_some (run_semicolon _ [] row₂ rest)

/-!
## Declarations
-/

/-- The types, expressions and broken unions of at most so many lexemes are read. -/
structure ReadsStatements (g : Grammar) (n : Nat) : Prop where
  expressions : ReadsExpressions g n
  spellings : ReadsSpellings g n
  barred {first : TypeTree} {more : List TypeTree}
    (h : forall t, t ∈ first :: more -> t.isMember = true /\ t.Canonical) (b : List Char)
    (hsize : (TypeTree.lexemesBehind (.mark b '|') (first :: more)).length ≤ n) (context : Context)
    (row : Nat) {rest : List Token} (hrest : Closes typeClosers rest) :
    (g.type context).run
        (Lexeme.place row (TypeTree.lexemesBehind (.mark b '|') (first :: more)) ++ rest) =
      some (.union (first :: more), rest)

theorem ReadsStatements.legible (hg : ReadsStatements g n) : ReadsLegible g n :=
  ⟨hg.expressions.types, hg.spellings⟩

theorem length_le_lexemesBehind_of_mem {t : TypeTree} {ts : List TypeTree} (h : t ∈ ts)
    (hcanonical : t.Canonical) (separator : Lexeme) :
    (t.lexemes []).length ≤ (TypeTree.lexemesBehind separator ts).length := by
  rw [← TypeTree.length_lexemes hcanonical [' ']]
  induction ts with
  | nil => cases h
  | cons u us ih =>
      rw [TypeTree.lexemesBehind, List.cons_append, List.length_cons, List.length_append]
      rcases List.mem_cons.mp h with rfl | hmem
      · omega
      · have hrest := ih hmem
        omega

theorem readsStatements_upTo (n : Nat) : ReadsStatements (Grammar.upTo n) n := by
  refine ⟨readsExpressions_upTo n, readsSpellings_upTo n, ?_⟩
  intro first more h b hsize context row rest hrest
  cases n with
  | zero => cases hsize
  | succ n =>
      have hlength : forall t, t ∈ first :: more -> (t.lexemes []).length ≤ n + 1 := fun t ht =>
        Nat.le_trans (length_le_lexemesBehind_of_mem ht (h t ht).right (.mark b '|')) hsize
      exact run_type (run_unionType_barred (readsTypes_upTo n) (fun t ht => (h t ht).left)
        (fun t ht => (h t ht).right) hlength b row hrest) hrest

/-- The members between their braces are found on the rows behind the opening brace. -/
theorem run_membersLexemes {members : List (Item Member)} (tabWidth : Nat)
    (h : forall m, m ∈ Piece.nodes (Item.arrange none members) -> m.Canonical)
    (hread : forall m, m ∈ Piece.nodes (Item.arrange none members) -> ReadsMember g m) (row : Nat)
    (rest : List Token) :
    (objectMembers g).run
        (Lexeme.place row (Statement.membersLexemes tabWidth members) ++ rest) =
      some ((false, bodyItems (Line.margin tabWidth 1) row (Item.arrange none members)), rest) := by
  cases members with
  | nil =>
      have hclose : (closeMembers false).run ((Lexeme.mark [] '\x7d').token row :: rest) =
          some ((false, []), rest) := by
        have hmark : (mark '\x7d').run ((Lexeme.mark [] '\x7d').token row :: rest) =
            some ((Lexeme.mark [] '\x7d').token row, rest) := run_mark (by simp)
        simp [closeMembers, run_commentItems, run_atMark, comments_mark, hmark]
      have hopen : forall ts, (mark '\x7b').run ((Lexeme.mark [' '] '\x7b').token row :: ts) =
          some ((Lexeme.mark [' '] '\x7b').token row, ts) := fun ts => run_mark (by simp)
      have hrow : row + Lexeme.rows [.mark [' '] '\x7b'] = row := rfl
      simp only [Statement.membersLexemes, List.isEmpty_nil, if_true, Lexeme.place_cons,
        Lexeme.place_nil, List.cons_append, List.nil_append, hrow]
      simp only [objectMembers, StateT.run_bind, hopen, run_atMark, run_peek, Lexeme.isMark_mark,
        Option.bind_eq_bind, Option.bind_some]
      exact run_orElse_some hclose
  | cons first more => exact run_objectMembers h hread row rest

theorem run_interfaceDeclaration_plain {t u : Token} (ht : t.isWord "interface" = true)
    {name : List Char} (hname : isIdentifier name = true) (hu : u.isMark '\x7b' = true)
    {us : List Token} {items : List (Item Member)}
    (hmembers : (objectMembers g).run (u :: us) = some ((false, items), rest)) (gap : Gap)
    (row : Nat) :
    (interfaceDeclaration g).run (t :: (Lexeme.word gap name).token row :: u :: us) =
      some (.interface none name [] none false items, rest) := by
  have hextends : u.isWord "extends" = false := by
    refine Token.isWord_of_kind ?_ _
    rw [Token.kind_of_isMark hu]
    decide
  refine (run_bind_some (run_word ht)).trans ?_
  refine (run_bind_some (run_identifier hname gap row _)).trans ?_
  refine (run_noParameters (Token.isMark_of_isMark hu (by decide)) _).trans ?_
  refine (run_noParents hextends _).trans ?_
  exact run_bind_some hmembers

theorem run_interfaceDeclaration (hg : ReadsLegible g n) {t : Token}
    (ht : t.isWord "interface" = true) {name parameters : List Char} {parents : Option (List Char)}
    (hname : isIdentifier name = true) (hheader : Header.IsKept parameters parents)
    (hsize : (Header.lexemes parameters parents).length ≤ n) {members : List (Item Member)}
    (tabWidth : Nat) (h : forall m, m ∈ Piece.nodes (Item.arrange none members) -> m.Canonical)
    (hread : forall m, m ∈ Piece.nodes (Item.arrange none members) -> ReadsMember g m)
    (row row' : Nat) (rest : List Token) :
    (interfaceDeclaration g).run (t :: (Lexeme.word (.ofBlank [' ']) name).token row ::
        (Lexeme.place row' (Header.lexemes parameters parents ++
          Statement.membersLexemes tabWidth members) ++ rest)) =
      some (.interface none name parameters parents false
        (bodyItems (Line.margin tabWidth 1) row' (Item.arrange none members)), rest) := by
  have hrow : row' + Lexeme.rows (Header.lexemes parameters parents) = row' := by
    rw [Header.rows_lexemes hheader, Nat.add_zero]
  have hmembers := run_membersLexemes tabWidth h hread row' rest
  have hbrace : exists us,
      Lexeme.place row' (Statement.membersLexemes tabWidth members) ++ rest =
        (Lexeme.mark [' '] '\x7b').token row' :: us := by
    cases members <;> exact ⟨_, rfl⟩
  obtain ⟨us, hus⟩ := hbrace
  rw [Header.lexemes, List.length_append] at hsize
  rw [Lexeme.place_append, hrow, List.append_assoc, hus, Header.lexemes, Lexeme.place_append,
    List.append_assoc]
  rw [hus] at hmembers
  generalize row' + Lexeme.rows (Lexeme.ofText parameters) = row₂
  have hends : Ends ['\x7b'] ((Lexeme.mark [' '] '\x7b').token row' :: us) :=
    ends_mark [' '] List.mem_cons_self row' us
  have hextended := fun next : Option (List Char) -> Parser Statement =>
    run_extended hg hheader (by omega) row₂ hends next
  obtain ⟨v, vs, hvs, hv⟩ := place_parents_eq_cons hheader row₂
    (show ((Lexeme.mark [' '] '\x7b').token row').isMark '\x7b' = true by simp) us
  rw [hvs] at hextended ⊢
  refine (run_bind_some (run_word ht)).trans ?_
  refine (run_bind_some (run_identifier hname _ row _)).trans ?_
  refine (run_parameters hg hheader (by omega) row' hv _).trans ?_
  refine (hextended _).trans ?_
  exact run_bind_some hmembers

section

variable {t : Token} (ht : t.isWord "type" = true) {name : List Char}
  (hname : isIdentifier name = true) {value : TypeTree} {b : List Char}
  (hread : (g.type .typeEnding).run ts = some (value, (Lexeme.mark b ';').token row :: rest))
  (gap : Gap) (b' : List Char)

include hread in
theorem run_aliasBody (name parameters : List Char) (row' : Nat) :
    (do
      let _ ← mark '='
      let value ← g.type .typeEnding
      semicolon false
      return .typeAlias none name parameters value : Parser Statement).run
        ((Lexeme.mark b' '=').token row' :: ts) =
      some (.typeAlias none name parameters value, rest) := by
  refine (run_bind_some (run_mark (by simp))).trans ?_
  refine (run_bind_some hread).trans ?_
  exact run_bind_some (run_semicolon false b row rest)

include ht hname hread

theorem run_aliasDeclaration_plain (row₁ row₂ : Nat) :
    (aliasDeclaration g).run (t :: (Lexeme.word gap name).token row₁ ::
        (Lexeme.mark b' '=').token row₂ :: ts) =
      some (.typeAlias none name [] value, rest) := by
  refine (run_bind_some (run_word ht)).trans ?_
  refine (run_bind_some (run_identifier hname gap row₁ _)).trans ?_
  refine (run_noParameters (by simp) _).trans ?_
  exact run_aliasBody hread b' _ [] row₂

theorem run_aliasDeclaration (hg : ReadsLegible g n) {parameters : List Char}
    (hheader : Header.IsKept parameters none) (hsize : (Lexeme.ofText parameters).length ≤ n)
    (row₁ row₂ row₃ : Nat) :
    (aliasDeclaration g).run (t :: (Lexeme.word gap name).token row₁ ::
        (Lexeme.place row₂ (Lexeme.ofText parameters) ++ (Lexeme.mark b' '=').token row₃ :: ts)) =
      some (.typeAlias none name parameters value, rest) := by
  refine (run_bind_some (run_word ht)).trans ?_
  refine (run_bind_some (run_identifier hname gap row₁ _)).trans ?_
  refine (run_parameters hg hheader hsize row₂ (by simp) _).trans ?_
  exact run_aliasBody hread b' _ parameters row₃

end

theorem run_lexicalDeclaration {t : Token} (ht : t.isWord "const" = true \/ t.isWord "let" = true)
    {ds : List Declarator} (hds : (declarators g).run ts = some (ds, rest)) :
    (lexicalDeclaration g).run (t :: ts) = some (.lexical none t.text ds, rest) := by
  have hkind : t.kind ≠ .endOfSource := by
    cases ht with
    | inl hconst => exact Token.ne_endOfSource_of_isWord hconst
    | inr hlet => exact Token.ne_endOfSource_of_isWord hlet
  have hword : (t.isWord "const" || t.isWord "let") = true := by simpa using ht
  simp only [lexicalDeclaration, StateT.run_bind, run_advance hkind, hword, run_require_true, hds,
    Option.bind_eq_bind, Option.bind_some]
  rfl

/-!
## Parts of statements

No part has more lexemes than the whole.
-/

theorem canonical_of_declared_mem {groups : List (List String)} {pieces : List MemberPiece}
    (h : Member.Modified groups pieces) {t : TypeTree} (ht : .declared t ∈ pieces) : t.Canonical := by
  induction h with
  | name _ optional hdeclared _ =>
      simp only [Member.tail, List.mem_cons, reduceCtorEq, false_or, List.mem_append] at ht
      rcases ht with hoptional | hmem
      · cases optional <;> simp at hoptional
      · simp only [List.mem_map, MemberPiece.declared.injEq, exists_eq_right,
          Option.mem_toList] at hmem
        exact (hdeclared t hmem).left
  | taken _ _ ih =>
      rcases List.mem_cons.mp ht with heq | hmem
      · cases heq
      · exact ih hmem
  | passed _ _ ih => exact ih ht

theorem length_declared_le {t : TypeTree} (h : t.Canonical) {pieces : List MemberPiece}
    (ht : .declared t ∈ pieces) (gap : Gap) :
    (t.lexemes []).length ≤ (Member.lexemesFrom gap pieces).length := by
  induction pieces generalizing gap with
  | nil => cases ht
  | cons p rest ih =>
      rcases List.mem_cons.mp ht with rfl | hmem
      · rw [Member.lexemesFrom, ← TypeTree.length_lexemes h [' '], List.length_append,
          List.length_cons]
        omega
      · have hrest := ih hmem
        cases p with
        | modifier s =>
            rw [Member.lexemesFrom, List.length_cons]
            exact Nat.le_succ_of_le (hrest _)
        | name n =>
            rw [Member.lexemesFrom, List.length_cons]
            exact Nat.le_succ_of_le (hrest _)
        | optional =>
            rw [Member.lexemesFrom, List.length_cons]
            exact Nat.le_succ_of_le (hrest _)
        | declared u =>
            have hle := hrest (.ofBlank [])
            rw [Member.lexemesFrom, List.length_append]
            omega

theorem exists_length_le (margin : List Char) {m : Member} {ps : List (Piece Member)}
    (h : m ∈ Piece.nodes ps) (first : List Char) (pending : List (List Char × List Char)) :
    exists gap, (m.lexemes gap).length ≤
      (Piece.lexemesOf margin memberLexemes first pending ps).length := by
  induction ps generalizing first pending with
  | nil => cases h
  | cons p ps ih =>
      cases p with
      | beside s => exact ih h _ _
      | comment apart s => exact ih h _ _
      | node apart a =>
          rw [Piece.lexemesOf, List.length_append]
          rcases List.mem_cons.mp h with rfl | hmem
          · refine ⟨⟨pending, Piece.lead first apart⟩, ?_⟩
            rw [memberLexemes, List.length_append]
            omega
          · obtain ⟨gap, hgap⟩ := ih hmem margin []
            exact ⟨gap, by omega⟩

theorem readsMember_of_length {m : Member} (h : m.Canonical) (hg : ReadsLegible g n) {gap : Gap}
    (hsize : (m.lexemes gap).length ≤ n) : ReadsMember g m := by
  cases h with
  | property h _ =>
      intro t ht
      have hcanonical := canonical_of_declared_mem h ht
      exact hg.types t hcanonical (Nat.le_trans (length_declared_le hcanonical ht gap) hsize)
  | method _ _ =>
      rw [Member.lexemes, Lexeme.length_withGap] at hsize
      exact ⟨n, hg, hsize⟩

theorem readsMembers_of_length {members : List (Item Member)} (tabWidth : Nat)
    (h : forall m, m ∈ Piece.nodes (Item.arrange none members) -> m.Canonical) (hg : ReadsLegible g n)
    (hsize : (Statement.membersLexemes tabWidth members).length ≤ n) :
    forall m, m ∈ Piece.nodes (Item.arrange none members) -> ReadsMember g m := by
  intro m hm
  obtain ⟨gap, hgap⟩ := exists_length_le (Line.margin tabWidth 1) hm (Line.margin tabWidth 1) []
  refine readsMember_of_length (h m hm) hg (Nat.le_trans hgap ?_)
  cases members with
  | nil => cases hm
  | cons first more =>
      simp only [Statement.membersLexemes, List.isEmpty_cons, Bool.false_eq_true, if_false,
        bodyLexemes, List.length_append, List.length_cons] at hsize
      omega

theorem readsDeclarator_of_length {d : Declarator} (h : d.Canonical) (hg : ReadsExpressions g n)
    {o : Setting} (hsize : (d.lexemes o).length ≤ n) : ReadsDeclarator g o d := by
  rw [Declarator.lexemes, Declarator.tailLexemes, List.length_cons, List.length_append] at hsize
  refine ⟨?_, ?_⟩
  · intro t ht
    refine hg.types t (h.declared t ht).left ?_
    rw [ht, Option.elim_some, List.length_cons,
      TypeTree.length_lexemes (h.declared t ht).left] at hsize
    omega
  · intro e he
    refine hg.expressions e (h.value e he) o [' '] ?_
    rw [he, Option.elim_some, List.length_cons] at hsize
    omega

theorem length_declarator_le {d : Declarator} {ds : List Declarator} (h : d ∈ ds) (o : Setting) :
    (d.lexemes o).length ≤ (Declarator.lexemesOf o ds).length := by
  have hmore : forall {es : List Declarator}, d ∈ es ->
      (d.lexemes o).length ≤ (es.flatMap fun d => .mark [] ',' :: d.lexemes o).length := by
    intro es hes
    induction es with
    | nil => cases hes
    | cons e es ih =>
        rw [List.flatMap_cons, List.length_append, List.length_cons]
        rcases List.mem_cons.mp hes with rfl | hmem
        · omega
        · have hrest := ih hmem
          omega
  cases ds with
  | nil => cases h
  | cons e es =>
      rw [Declarator.lexemesOf, List.length_append]
      rcases List.mem_cons.mp h with rfl | hmem
      · omega
      · have hrest := hmore hmem
        omega

/-!
## Statements
-/

end Parser

namespace Statement

def located (tabWidth row : Nat) : Statement -> Statement
  | interface exported name parameters parents closed members =>
      interface exported name parameters parents closed
        (Parser.bodyItems (Line.margin tabWidth 1) row (Item.arrange none members))
  | s => s

def exportedAs (e : Option Export) : Statement -> Statement
  | interface _ name parameters parents closed members =>
      interface e name parameters parents closed members
  | typeAlias _ name parameters value => typeAlias e name parameters value
  | lexical _ keyword declarators => lexical e keyword declarators
  | text s => text s

end Statement

namespace Parser

theorem run_opensDeclaration {t : Token} (w : String) {fits : Token -> Bool} {b : List Char}
    (hb : isRowBlank b = true) {name : List Char}
    (hfits : forall row, fits ((Lexeme.word (.ofBlank b) name).token row) = true) (row : Nat) :
    (opensDeclaration w fits).run (t :: (Lexeme.word (.ofBlank b) name).token row :: rest) =
      some (t.isWord w, t :: (Lexeme.word (.ofBlank b) name).token row :: rest) :=
  run_opensDeclaration_of (hfits row)
    (endsBefore_token .expressionEnding Lexeme.word_gap hb (by simp) (by simp) rest) t w

/-!
## Words that open statements
-/

section

variable {t : Token} {b name : List Char} (hb : isRowBlank b = true)

theorem run_declaration_of_interface (ht : t.isWord "interface" = true) {r : Statement × List Token}
    (hrun : (interfaceDeclaration g).run (t :: ts) = some r) (behindWord : Bool) (fuel : Nat) :
    (declaration g behindWord (fuel + 1)).run (t :: ts) = some r := by
  simp only [declaration, StateT.run_bind, run_peek, ht, if_true, Option.bind_eq_bind,
    Option.bind_some, hrun]

include hb

theorem run_declaration_of_alias (ht : t.isWord "type" = true) {r : Statement × List Token}
    (hrun : (aliasDeclaration g).run
      (t :: (Lexeme.word (.ofBlank b) name).token row :: ts) = some r) (behindWord : Bool)
    (fuel : Nat) :
    (declaration g behindWord (fuel + 1)).run
      (t :: (Lexeme.word (.ofBlank b) name).token row :: ts) = some r := by
  have hinterface := Token.isWord_of_isWord ht (show "type" ≠ "interface" by decide)
  have hopens := @run_opensDeclaration ts t "type" isWordToken b hb name
    (fun row => by simp [isWordToken]) row
  cases behindWord <;>
    simp only [declaration, StateT.run_bind, run_peek, hinterface, hopens, ht, if_true, if_false,
      Bool.false_eq_true, Option.bind_eq_bind, Option.bind_some, StateT.run_pure, Option.pure_def,
      hrun]

theorem run_declaration_of_const (ht : t.isWord "const" = true)
    (hname : (name == "enum".toList) = false) {r : Statement × List Token}
    (hrun : (lexicalDeclaration g).run
      (t :: (Lexeme.word (.ofBlank b) name).token row :: ts) = some r) (behindWord : Bool)
    (fuel : Nat) :
    (declaration g behindWord (fuel + 1)).run
      (t :: (Lexeme.word (.ofBlank b) name).token row :: ts) = some r := by
  have hinterface := Token.isWord_of_isWord ht (show "const" ≠ "interface" by decide)
  have htype := Token.isWord_of_isWord ht (show "const" ≠ "type" by decide)
  have hopens := @run_opensDeclaration ts t "type" isWordToken b hb name
    (fun row => by simp [isWordToken]) row
  cases behindWord <;>
    simp only [declaration, StateT.run_bind, run_peek, run_second, hinterface, hopens, htype, ht,
      List.head?_cons, Option.any_some, Lexeme.isWord_word, hname, Bool.and_false, if_true, if_false,
      Bool.false_eq_true, Option.bind_eq_bind, Option.bind_some, StateT.run_pure, Option.pure_def,
      hrun]

theorem run_declaration_of_let (ht : t.isWord "let" = true) {r : Statement × List Token}
    (hrun : (lexicalDeclaration g).run
      (t :: (Lexeme.word (.ofBlank b) name).token row :: ts) = some r) (behindWord : Bool)
    (fuel : Nat) :
    (declaration g behindWord (fuel + 1)).run
      (t :: (Lexeme.word (.ofBlank b) name).token row :: ts) = some r := by
  have hinterface := Token.isWord_of_isWord ht (show "let" ≠ "interface" by decide)
  have htype := Token.isWord_of_isWord ht (show "let" ≠ "type" by decide)
  have hconst := Token.isWord_of_isWord ht (show "let" ≠ "const" by decide)
  have hopensType := @run_opensDeclaration ts t "type" isWordToken b hb name
    (fun row => by simp [isWordToken]) row
  have hopensLet := @run_opensDeclaration ts t "let"
    (fun n => isWordToken n || n.isMark '\x7b' || n.isMark '[') b hb name
    (fun row => by simp [isWordToken]) row
  cases behindWord <;>
    simp only [declaration, StateT.run_bind, run_peek, run_second, hinterface, hopensType,
      hopensLet, htype, hconst, ht, Bool.false_and, if_true, if_false, Bool.false_eq_true,
      Option.bind_eq_bind, Option.bind_some, StateT.run_pure, Option.pure_def, hrun]

theorem run_opensExport (row : Nat) :
    (opensDeclaration "export" (fun n => !n.isMark '.' && !n.isMark ':')).run
        (t :: (Lexeme.word (.ofBlank b) name).token row :: ts) =
      some (t.isWord "export", t :: (Lexeme.word (.ofBlank b) name).token row :: ts) :=
  run_opensDeclaration "export" hb (fun row => by simp) row

theorem run_statement_of_declaration (hkind : t.kind = .word) (hexport : t.isWord "export" = false)
    {r : Statement × List Token}
    (hrun : forall fuel, (declaration g false (fuel + 1)).run
      (t :: (Lexeme.word (.ofBlank b) name).token row :: ts) = some r) :
    (statement g).run (t :: (Lexeme.word (.ofBlank b) name).token row :: ts) = some r := by
  have hat : t.isMark '@' = false := by
    refine Token.isMark_of_kind ?_ _
    rw [hkind]
    decide
  simp only [statement, StateT.run_bind, run_opensExport hb, hexport, run_atMark, hat,
    Bool.false_eq_true, if_false, StateT.run_get, Option.pure_def, Option.bind_eq_bind,
    Option.bind_some, List.length_cons]
  exact run_orElse_some (hrun _)

omit hb

theorem run_exported_of_declaration (hkind : t.kind = .word) (has : t.isWord "as" = false)
    (hdefault : t.isWord "default" = false) {gap : Gap} {s : Statement}
    (hrun : forall fuel, (declaration g true (fuel + 1)).run
      (t :: (Lexeme.word gap name).token row :: ts) = some (s, rest)) :
    (exported g false).run (t :: (Lexeme.word gap name).token row :: ts) =
      some ((⟨false, false⟩, some s), rest) := by
  have hmark : forall c, t.isMark c = false := by
    refine Token.isMark_of_kind ?_
    rw [hkind]
    decide
  have hnext := hrun ((Lexeme.word gap name).token row :: ts).length
  simp only [exported, StateT.run_bind, StateT.run_get, StateT.run_pure, Option.pure_def,
    Option.bind_eq_bind, Option.bind_some, run_atMark, run_atWord, run_second, run_mark?, run_word?,
    hmark, has, hdefault, List.head?_cons, Option.any_some, Lexeme.isMark_word, Bool.and_false,
    Bool.or_self, Bool.false_and, Bool.false_eq_true, if_false, List.length_cons] at hnext ⊢
  rw [hnext]
  rfl

include hb

theorem run_statement_of_exported (hword : t.isWord "export" = true) {s : Statement}
    (hs : forall text, s ≠ .text text)
    (hrun : (exported g false).run ((Lexeme.word (.ofBlank b) name).token row :: ts) =
      some ((⟨false, false⟩, some s), rest)) :
    (statement g).run (t :: (Lexeme.word (.ofBlank b) name).token row :: ts) =
      some (s.exportedAs (some ⟨false, false⟩), rest) := by
  have hdecorators : forall ts, (many (decorator g)).run (t :: ts) = some ([], t :: ts) :=
    fun ts => run_decorators (Token.kind_of_isWord hword)
  simp only [statement, StateT.run_bind, run_opensExport hb, hword, if_true, Option.bind_eq_bind,
    Option.bind_some]
  simp only [exportStatement, StateT.run_bind, StateT.run_get, Option.pure_def, hdecorators,
    run_word hword, List.isEmpty_nil, Bool.not_true, hrun, Option.bind_eq_bind, Option.bind_some]
  cases s with
  | text text => exact absurd rfl (hs text)
  | _ => rfl

end

/-!
## Canonical declarations
-/

theorem lineFeeds_of_isWordText {s : List Char} (h : isWordText s = true) :
    Text.lineFeeds s = 0 := by
  rw [Text.lineFeeds, List.count_eq_zero]
  intro hmem
  have hvisible := List.all_eq_true.mp (TypeTree.visible_of_isWordText h) '\n' hmem
  cases hvisible

theorem rows_word {s : List Char} (h : isWordText s = true) (gap : Gap) :
    Lexeme.rows [.word gap s] = Text.lineFeeds gap.text := by
  simp [Lexeme.rows, Text.lineFeeds_append, lineFeeds_of_isWordText h]

variable {printWidth tabWidth : Nat}

/-- The first lexeme behind the opening word is a name on the same row. -/
theorem tailLexemes_eq_cons {s : Statement} (h : s.Declared printWidth) (tabWidth : Nat) :
    exists name ls, s.tailLexemes printWidth tabWidth = .word (.ofBlank [' ']) name :: ls /\
      isWordText name = true /\ (s.keyword = "const".toList -> (name == "enum".toList) = false) := by
  have hconst : forall w, w ∈ ["interface", "type"] -> w.toList ≠ "const".toList := by decide
  cases h with
  | interface hexported hname hheader h hsound =>
      refine ⟨_, _, rfl, isWordText_of_isIdentifier hname, ?_⟩
      intro heq
      exact absurd heq (hconst "interface" (by decide))
  | typeAlias hexported hname hheader hflat hbroken =>
      refine ⟨_, _, rfl, isWordText_of_isIdentifier hname, ?_⟩
      intro heq
      exact absurd heq (hconst "type" (by decide))
  | @lexical exported keyword ds hexported hkeyword hne h =>
      cases ds with
      | nil => exact absurd rfl hne
      | cons d ds =>
          have hname := (h d List.mem_cons_self).name
          refine ⟨_, _, rfl, isWordText_of_isBindingName hname, ?_⟩
          intro _
          rw [isBindingName, Bool.and_eq_true, Bool.not_eq_true', List.any_cons,
            Bool.or_eq_false_iff] at hname
          exact hname.right.left

theorem run_declaration_interface (hg : ReadsStatements g n) {exported : Option Export}
    {name parameters : List Char} {parents : Option (List Char)} {members : List (Item Member)}
    (hname : isIdentifier name = true) (hheader : Header.IsKept parameters parents)
    (h : forall m, m ∈ Piece.nodes (Item.arrange none members) -> m.Canonical)
    (hsize : (Header.lexemes parameters parents ++
      Statement.membersLexemes tabWidth members).length ≤ n) {t : Token}
    (ht : t.isWord "interface" = true) (behindWord : Bool) (row fuel : Nat) (rest : List Token) :
    (declaration g behindWord (fuel + 1)).run (t :: (Lexeme.place row
        ((Statement.interface exported name parameters parents false members).tailLexemes printWidth
          tabWidth) ++ rest)) =
      some (.interface none name parameters parents false
        (bodyItems (Line.margin tabWidth 1) row (Item.arrange none members)), rest) := by
  have hrow : row + Lexeme.rows [.word (.ofBlank [' ']) name] = row := by
    rw [rows_word (isWordText_of_isIdentifier hname)]
    rfl
  rw [List.length_append] at hsize
  have hread := readsMembers_of_length tabWidth h hg.legible (by omega)
  have hrun := run_interfaceDeclaration hg.legible ht hname hheader (by omega) tabWidth h hread row row
    rest
  rw [Statement.tailLexemes, Lexeme.place_cons, List.cons_append, hrow]
  exact run_declaration_of_interface ht hrun behindWord fuel

/-- The type of an alias, on one line or with its members on lines of their own. -/
theorem run_aliasValue (hg : ReadsStatements g n) {exported : Option Export}
    {name parameters : List Char} {value : TypeTree}
    (hflat : Statement.isBroken printWidth (.typeAlias exported name parameters value) = false ->
      value.Canonical)
    (hbroken : Statement.isBroken printWidth (.typeAlias exported name parameters value) = true ->
      value.IsBarred)
    (hsize : ((Statement.typeAlias exported name parameters value).tailLexemes printWidth tabWidth).length ≤ n)
    (row : Nat) (rest : List Token) :
    (g.type .typeEnding).run
        (Lexeme.place row (Statement.valueLexemes tabWidth
            (Statement.isBroken printWidth (.typeAlias exported name parameters value)) value) ++
          (Lexeme.place (row + Lexeme.rows (Statement.valueLexemes tabWidth
            (Statement.isBroken printWidth (.typeAlias exported name parameters value)) value))
            [.mark [] ';'] ++ rest)) =
      some (value, Lexeme.place (row + Lexeme.rows (Statement.valueLexemes tabWidth
          (Statement.isBroken printWidth (.typeAlias exported name parameters value)) value))
          [.mark [] ';'] ++ rest) := by
  have hcloses : forall row, Closes typeClosers (Lexeme.place row [.mark [] ';'] ++ rest) :=
    fun row => Closes.of_mark (by decide) (by decide) row rest
  simp only [Statement.tailLexemes, List.length_append, List.length_cons] at hsize
  cases hwide : Statement.isBroken printWidth (.typeAlias exported name parameters value) with
  | false =>
      rw [hwide] at hsize
      have hlength : (value.lexemes []).length ≤ n := by
        rw [← TypeTree.length_lexemes (hflat hwide) [' ']]
        simp only [Statement.valueLexemes, Bool.false_eq_true, if_false] at hsize
        omega
      exact hg.expressions.types value (hflat hwide) hlength .typeEnding [' '] row _ (hcloses _)
  | true =>
      rw [hwide] at hsize
      obtain ⟨first, more, rfl, hmembers⟩ := hbroken hwide
      simp only [Statement.valueLexemes, if_true, TypeTree.unionMembers] at hsize ⊢
      exact hg.barred hmembers (Line.margin tabWidth 1) (by omega) .typeEnding row (hcloses _)

theorem run_declaration_typeAlias (hg : ReadsStatements g n) {exported : Option Export}
    {name parameters : List Char} {value : TypeTree}
    (h : (Statement.typeAlias exported name parameters value).Declared printWidth)
    (hsize : ((Statement.typeAlias exported name parameters value).tailLexemes printWidth tabWidth).length ≤ n)
    {t : Token} (ht : t.isWord "type" = true) (behindWord : Bool) (row fuel : Nat)
    (rest : List Token) :
    (declaration g behindWord (fuel + 1)).run (t :: (Lexeme.place row
        ((Statement.typeAlias exported name parameters value).tailLexemes printWidth tabWidth) ++ rest)) =
      some (.typeAlias none name parameters value, rest) := by
  cases h with
  | typeAlias hexported hname hheader hflat hbroken =>
      have hread := fun row => run_aliasValue hg hflat hbroken hsize row rest
      rw [Statement.tailLexemes, List.length_cons, List.length_append, Header.lexemes,
        Header.parentLexemes, Option.elim_none, List.append_nil] at hsize
      rw [Statement.tailLexemes, Header.lexemes, Header.parentLexemes, Option.elim_none,
        List.append_nil, Lexeme.place_cons, List.cons_append, Lexeme.place_append, List.append_assoc,
        Lexeme.place_cons, List.cons_append, Lexeme.place_append, List.append_assoc]
      exact run_declaration_of_alias rfl ht
        (run_aliasDeclaration ht hname (hread _) (.ofBlank [' ']) [' '] hg.legible hheader (by omega)
          _ _ _) behindWord fuel

theorem run_declaration_lexical (hg : ReadsStatements g n) {exported : Option Export}
    {keyword : List Char} {ds : List Declarator}
    (h : (Statement.lexical exported keyword ds).Declared printWidth)
    (hsize : ((Statement.lexical exported keyword ds).tailLexemes printWidth tabWidth).length ≤ n)
    {t : Token} (hkind : t.kind = .word) (ht : t.text = keyword) (behindWord : Bool) (row fuel : Nat)
    (rest : List Token) :
    (declaration g behindWord (fuel + 1)).run (t :: (Lexeme.place row
        ((Statement.lexical exported keyword ds).tailLexemes printWidth tabWidth) ++ rest)) =
      some (.lexical none keyword ds, rest) := by
  obtain ⟨name, ls, htail, hname, henum⟩ := tailLexemes_eq_cons h tabWidth
  cases h with
  | lexical hexported hkeyword hne h =>
      have hword : t.isWord "const" = true \/ t.isWord "let" = true := by
        simpa [Token.isWord, hkind, ht] using hkeyword
      have hread : forall d, d ∈ ds -> ReadsDeclarator g (Statement.setting tabWidth
          (Statement.isBroken printWidth (.lexical exported keyword ds))) d := by
        intro d hd
        refine readsDeclarator_of_length (h d hd) hg.expressions (Nat.le_trans
          (length_declarator_le hd _) ?_)
        simp only [Statement.tailLexemes, List.length_append, List.length_cons] at hsize
        omega
      have hrun : (lexicalDeclaration g).run (t :: (Lexeme.place row
          ((Statement.lexical exported keyword ds).tailLexemes printWidth tabWidth) ++ rest)) =
            some (.lexical none keyword ds, rest) := by
        cases ds with
        | nil => exact absurd rfl hne
        | cons d ds =>
            have hds := run_lexicalDeclaration hword (run_declarators h hread row rest)
            rw [ht] at hds
            exact hds
      rw [htail, Lexeme.place_cons, List.cons_append] at hrun ⊢
      rcases hword with hconst | hlet
      · refine run_declaration_of_const rfl hconst (henum ?_) hrun behindWord fuel
        rw [Token.isWord, Bool.and_eq_true, beq_iff_eq, beq_iff_eq] at hconst
        rw [Statement.keyword_lexical, ← ht, hconst.right]
      · exact run_declaration_of_let rfl hlet hrun behindWord fuel

section

variable (hg : ReadsStatements g n) {s : Statement} (h : s.Declared printWidth)
  (hsize : (s.tailLexemes printWidth tabWidth).length ≤ n)

include hg h hsize

theorem run_declaration {t : Token} (hkind : t.kind = .word) (ht : t.text = s.keyword)
    (behindWord : Bool) (row fuel : Nat) (rest : List Token) :
    (declaration g behindWord (fuel + 1)).run
        (t :: (Lexeme.place row (s.tailLexemes printWidth tabWidth) ++ rest)) =
      some ((s.located tabWidth row).exportedAs none, rest) := by
  have hopen := h
  cases h with
  | @interface exported name parameters parents members hexported hname hheader hmembers hsound =>
      have hword : t.isWord "interface" = true := by
        rw [Token.isWord, hkind, ht]
        simp
      simp only [Statement.tailLexemes, List.length_cons] at hsize
      exact run_declaration_interface hg hname hheader hmembers (Nat.le_of_succ_le hsize) hword
        behindWord row fuel rest
  | typeAlias hexported hname hheader hflat hbroken =>
      have hword : t.isWord "type" = true := by
        rw [Token.isWord, hkind, ht]
        simp
      exact run_declaration_typeAlias hg hopen hsize hword behindWord row fuel rest
  | lexical hexported hkeyword hne hds =>
      exact run_declaration_lexical hg hopen hsize hkind ht behindWord row fuel rest

omit hg hsize in
/-- The opening word is none of those that are read in another way. -/
theorem isWord_keyword_eq_false {t : Token} (ht : t.text = s.keyword) {w : String}
    (hw : w ∈ ["export", "as", "default"]) : t.isWord w = false := by
  have hne : forall v, v ∈ ["interface", "type", "const", "let"] ->
      forall w, w ∈ ["export", "as", "default"] -> (v.toList == w.toList) = false := by decide
  have hkeyword : exists v, v ∈ ["interface", "type", "const", "let"] /\ s.keyword = v.toList := by
    cases h with
    | interface _ _ _ _ _ => exact ⟨"interface", by decide, rfl⟩
    | typeAlias _ _ _ _ _ => exact ⟨"type", by decide, rfl⟩
    | lexical _ hkeyword _ _ =>
        cases hkeyword with
        | inl hconst => exact ⟨"const", by decide, hconst⟩
        | inr hlet => exact ⟨"let", by decide, hlet⟩
  obtain ⟨v, hv, heq⟩ := hkeyword
  rw [Token.isWord, ht, heq, hne v hv w hw, Bool.and_false]

theorem run_exported {t : Token} (hkind : t.kind = .word) (ht : t.text = s.keyword) (row : Nat)
    (rest : List Token) :
    (exported g false).run (t :: (Lexeme.place row (s.tailLexemes printWidth tabWidth) ++ rest)) =
      some ((⟨false, false⟩, some ((s.located tabWidth row).exportedAs none)), rest) := by
  obtain ⟨name, ls, htail, -, -⟩ := tailLexemes_eq_cons h tabWidth
  have hrun := fun fuel => run_declaration hg h hsize hkind ht true row fuel rest
  have has := isWord_keyword_eq_false h ht (show "as" ∈ _ by decide)
  have hdefault := isWord_keyword_eq_false h ht (show "default" ∈ _ by decide)
  rw [htail, Lexeme.place_cons, List.cons_append] at hrun ⊢
  exact run_exported_of_declaration hkind has hdefault hrun

omit hg hsize in
theorem exported_eq : s.exported = none \/ s.exported = some ⟨false, false⟩ := by
  have hplain : forall {e : Option Export}, Statement.isPlain e = true ->
      e = none \/ e = some ⟨false, false⟩ := by
    intro e he
    cases e with
    | none => exact .inl rfl
    | some e =>
        obtain ⟨decorated, byDefault⟩ := e
        refine .inr ?_
        simpa [Statement.isPlain] using he
  cases h with
  | interface hexported _ _ _ _ => exact hplain hexported
  | typeAlias hexported _ _ _ _ => exact hplain hexported
  | lexical hexported _ _ _ => exact hplain hexported

omit hg hsize in
theorem isWordText_keyword : isWordText s.keyword = true := by
  cases h with
  | interface _ _ _ _ _ => exact show isWordText "interface".toList = true by decide
  | typeAlias _ _ _ _ _ => exact show isWordText "type".toList = true by decide
  | lexical _ hkeyword _ _ =>
      rw [Statement.keyword_lexical]
      rcases hkeyword with rfl | rfl <;> decide

omit hg hsize in
theorem exportedAs_located (row : Nat) :
    ((s.located tabWidth row).exportedAs none).exportedAs s.exported = s.located tabWidth row := by
  cases h <;> rfl

theorem run_statement_plain (hnone : s.exported = none) (gap : Gap) (row : Nat) (rest : List Token) :
    (statement g).run (Lexeme.place row (s.lexemes printWidth tabWidth gap) ++ rest) =
      some (s.located tabWidth (row + Text.lineFeeds gap.text), rest) := by
  obtain ⟨name, ls, htail, hname, -⟩ := tailLexemes_eq_cons h tabWidth
  have hrow := rows_word (isWordText_keyword h) gap
  have hrun := fun fuel => run_declaration hg h hsize
    (t := (Lexeme.word gap s.keyword).token row) (by simp) (by simp) false
    (row + Text.lineFeeds gap.text) fuel rest
  have hword : ((Lexeme.word gap s.keyword).token row).isWord "export" = false :=
    isWord_keyword_eq_false h (by simp) (by decide)
  have hlocated : (s.located tabWidth (row + Text.lineFeeds gap.text)).exportedAs none =
      s.located tabWidth (row + Text.lineFeeds gap.text) := by
    rw [← exportedAs_located h, hnone]
    cases h <;> rfl
  have hlexemes : s.lexemes printWidth tabWidth gap =
      .word gap s.keyword :: s.tailLexemes printWidth tabWidth := by
    rw [Statement.lexemes, hnone]
    rfl
  rw [hlocated] at hrun
  rw [hlexemes, Lexeme.place_cons, List.cons_append, hrow]
  rw [htail, Lexeme.place_cons, List.cons_append] at hrun ⊢
  exact run_statement_of_declaration rfl (by simp) hword hrun

theorem run_statement_exported (hsome : s.exported = some ⟨false, false⟩) (gap : Gap) (row : Nat)
    (rest : List Token) :
    (statement g).run (Lexeme.place row (s.lexemes printWidth tabWidth gap) ++ rest) =
      some (s.located tabWidth (row + Text.lineFeeds gap.text), rest) := by
  have hrow := rows_word (show isWordText "export".toList = true by decide) gap
  have hrowKeyword : Lexeme.rows [.word (.ofBlank [' ']) s.keyword] = 0 :=
    rows_word (isWordText_keyword h) (.ofBlank [' '])
  have hlexemes : s.lexemes printWidth tabWidth gap = .word gap "export".toList ::
      .word (.ofBlank [' ']) s.keyword :: s.tailLexemes printWidth tabWidth := by
    rw [Statement.lexemes, hsome]
    rfl
  have hword : ((Lexeme.word gap "export".toList).token row).isWord "export" = true := by
    simp
  have hlocated : ((s.located tabWidth (row + Text.lineFeeds gap.text)).exportedAs none).exportedAs
      s.exported = s.located tabWidth (row + Text.lineFeeds gap.text) := exportedAs_located h _
  have hrun := run_exported hg h hsize
    (t := (Lexeme.word (.ofBlank [' ']) s.keyword).token (row + Text.lineFeeds gap.text)) (by simp)
    (by simp) (row + Text.lineFeeds gap.text) rest
  have htext : forall text, (s.located tabWidth (row + Text.lineFeeds gap.text)).exportedAs none ≠
      .text text := by
    intro text
    cases h <;> exact Statement.noConfusion
  rw [hlexemes, Lexeme.place_cons, Lexeme.place_cons, List.cons_append, List.cons_append, hrow,
    hrowKeyword, Nat.add_zero, ← hlocated, hsome]
  exact run_statement_of_exported rfl hword htext hrun

theorem run_statement_declared (gap : Gap) (row : Nat) (rest : List Token) :
    (statement g).run (Lexeme.place row (s.lexemes printWidth tabWidth gap) ++ rest) =
      some (s.located tabWidth (row + Text.lineFeeds gap.text), rest) := by
  cases exported_eq h with
  | inl hnone => exact run_statement_plain hg h hsize hnone gap row rest
  | inr hsome => exact run_statement_exported hg h hsize hsome gap row rest

end

section

variable (hg : ReadsStatements g n) {s : Statement} (h : s.Canonical printWidth)
  (hsize : (s.tailLexemes printWidth tabWidth).length ≤ n)

include hg h hsize

theorem run_statement (gap : Gap) (row : Nat) (rest : List Token) :
    (statement g).run (Lexeme.place row (s.lexemes printWidth tabWidth gap) ++ rest) =
      some (s.located tabWidth (row + Text.lineFeeds gap.text), rest) := by
  cases h with
  | declared h => exact run_statement_declared hg h hsize gap row rest
  | module h _ =>
      obtain ⟨hstatement, -, hsource⟩ := h.ofText
      have hread := @run_statement_module g _ hstatement gap row rest
      rw [hsource] at hread
      rw [Statement.lexemes_module h]
      exact hread

/-!
## Statements among others
-/

omit hg h hsize in
theorem run_items {α : Type} {p : Parser α} {l : Lexeme} {ls : List Lexeme} {a : α}
    (h : p.run (Lexeme.place row (l :: ls) ++ rest) = some (a, rest)) :
    (Program.items p).run (Lexeme.place row (l :: ls) ++ rest) =
      some (Piece.commentItems row l.gap.comments ++
        [.node (row + Text.lineFeeds l.gap.text) (row + Lexeme.rows (l :: ls)) a], rest) := by
  have hitem := run_asItem h
  rw [Lexeme.place_cons, List.cons_append] at hitem ⊢
  simp only [Program.items, StateT.run_bind, run_comments, hitem, Lexeme.comments_token_eq,
    Option.bind_eq_bind, Option.bind_some]
  simp [Piece.commentItems]

theorem readsNode_statement :
    ReadsNode (Program.items (statement g)) (Statement.lexemes printWidth tabWidth)
      (fun s => Text.lineFeeds (s.written printWidth tabWidth)) (Statement.located tabWidth) [] s := by
  intro gap row next rest
  have hrows : Lexeme.rows (s.lexemes printWidth tabWidth gap) =
      Text.lineFeeds gap.text + Text.lineFeeds (s.written printWidth tabWidth) :=
    Statement.rows_lexemes gap s
  refine ⟨hrows, ?_⟩
  have hrun := run_statement hg h hsize gap row (Lexeme.place next [] ++ rest)
  obtain ⟨l, ls, hl, hgap⟩ : exists l ls, s.lexemes printWidth tabWidth gap = l :: ls /\
      l.gap = gap := by
    rw [Statement.lexemes]
    cases s.exported with
    | none => exact ⟨_, _, rfl, Lexeme.word_gap⟩
    | some e => exact ⟨_, _, rfl, Lexeme.keyword_gap⟩
  rw [hl] at hrun hrows
  rw [List.nil_append, hl]
  rw [run_items hrun, hgap, hrows, ← Nat.add_assoc]
  rfl

end

end Parser
end TypeScript
end SchemaTypes
