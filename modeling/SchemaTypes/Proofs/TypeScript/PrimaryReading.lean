import SchemaTypes.Proofs.TypeScript.TypeSpelling

/-!
# Reading primary types

The tokens of a canonical type that indexing binds to are read as that type, up to the
brackets behind it, as long as the grammar reads the types nested in it.
-/

namespace SchemaTypes
namespace TypeScript

/-!
## Brackets
-/

namespace Lexeme

/-- The brackets of the lexemes are closed in order. -/
def Balanced (ls : List Lexeme) : Prop :=
  forall (depth row : Nat) (rest : List Token), 1 ≤ depth ->
    Parser.behindBracket depth (place row ls ++ rest) = Parser.behindBracket depth rest

theorem balanced_nil : Balanced [] :=
  fun _ _ _ _ => rfl

theorem balanced_append {ls ms : List Lexeme} (hls : Balanced ls) (hms : Balanced ms) :
    Balanced (ls ++ ms) := by
  intro depth row rest h
  rw [place_append, List.append_assoc, hls depth row _ h, hms depth _ rest h]

theorem balanced_cons {l : Lexeme} (hl : Balanced [l]) {ls : List Lexeme} (hls : Balanced ls) :
    Balanced (l :: ls) :=
  balanced_append hl hls

theorem balanced_word (g : Gap) (s : List Char) : Balanced [word g s] := by
  intro depth row rest h
  simp [Parser.behindBracket]

theorem balanced_number (g : Gap) (s : List Char) : Balanced [number g s] := by
  intro depth row rest h
  simp [Parser.behindBracket]

theorem balanced_leaf (g : Gap) (s : List Char) : Balanced [leaf g s] := by
  rw [leaf]
  split
  · exact balanced_number g s
  · exact balanced_word g s

theorem balanced_string (g : Gap) (s : List Char) : Balanced [string g s] := by
  intro depth row rest h
  simp [Parser.behindBracket]

theorem balanced_mark (b : List Char) {c : Char} (hc : c ∉ "()[]\x7b\x7d".toList) :
    Balanced [mark b c] := by
  intro depth row rest h
  simp at hc
  simp [Parser.behindBracket, hc]

theorem balanced_brackets (b b' : List Char) {o c : Char}
    (h : (o, c) ∈ [('(', ')'), ('[', ']'), ('\x7b', '\x7d')]) {ls : List Lexeme} (hls : Balanced ls) :
    Balanced (mark b o :: ls ++ [mark b' c]) := by
  intro depth row rest hdepth
  have hne : ¬ depth + 1 ≤ 1 := by omega
  simp at h
  rcases h with ⟨rfl, rfl⟩ | ⟨rfl, rfl⟩ | ⟨rfl, rfl⟩ <;>
    simp [Parser.behindBracket, hls (depth + 1) _ _ (Nat.le_add_left 1 depth), hne]

theorem behindBracket_parentheses (b b' : List Char) {ls : List Lexeme} (hls : Balanced ls)
    (row row' : Nat) (rest : List Token) :
    Parser.behindBracket 0
        ((mark b '(').token row :: (place row' (ls ++ [mark b' ')']) ++ rest)) = rest := by
  simp [Parser.behindBracket, hls 1 _ _ (Nat.le_refl 1)]

end Lexeme

namespace TypeTree

open Lexeme

theorem balanced_lexemesBehind {b : List Char} {c : Char} (hc : c ∉ "()[]\x7b\x7d".toList)
    {ts : List TypeTree} (ih : forall t, t ∈ ts -> Balanced (t.lexemes [' '])) :
    Balanced (lexemesBehind (.mark b c) ts) := by
  induction ts with
  | nil => exact balanced_nil
  | cons t ts ihts =>
      have hrest := ihts fun u hu => ih u (List.mem_cons_of_mem t hu)
      rw [lexemesBehind]
      exact balanced_append (balanced_cons (balanced_mark b hc) (ih t List.mem_cons_self)) hrest

theorem balanced_lexemes {t : TypeTree} (h : Canonical t) (blank : List Char) :
    Balanced (t.lexemes blank) := by
  induction h generalizing blank with
  | @union first second rest _ _ ih =>
      rw [lexemes, lexemesOf]
      refine balanced_append (ih first List.mem_cons_self blank) ?_
      refine balanced_lexemesBehind (by decide) ?_
      intro t ht
      exact ih t (List.mem_cons_of_mem first ht) [' ']
  | intersection _ _ _ _ ihleft ihright =>
      rw [lexemes, lexemesOf]
      refine balanced_append (ihleft blank) ?_
      refine balanced_lexemesBehind (by decide) ?_
      intro t ht
      rw [List.mem_singleton.mp ht]
      exact ihright [' ']
  | array _ _ ih =>
      rw [lexemes]
      exact balanced_append (ih blank) (balanced_brackets [] [] (by decide) balanced_nil)
  | parenthesized _ _ ih =>
      rw [lexemes]
      exact balanced_brackets blank [] (by decide) (ih [])
  | lookup _ _ _ _ _ iho ihi =>
      rw [lexemes, List.append_assoc]
      exact balanced_append (iho blank) (balanced_brackets [] [] (by decide) (ihi []))
  | keyOf _ _ ih =>
      rw [lexemes]
      exact balanced_cons (balanced_word _ _) (ih [' '])
  | typeOf =>
      exact balanced_cons (balanced_word _ _) (balanced_word _ _)
  | string => exact balanced_string _ _
  | @generic name first rest _ _ _ ih =>
      rw [lexemes, lexemesOf]
      refine balanced_append (balanced_cons (balanced_word _ name) ?_) (balanced_mark [] (by decide))
      refine balanced_cons (balanced_mark [] (by decide)) ?_
      refine balanced_append (ih first List.mem_cons_self []) ?_
      refine balanced_lexemesBehind (by decide) ?_
      intro t ht
      exact ih t (List.mem_cons_of_mem first ht) [' ']
  | constant => exact balanced_word _ _
  | text => exact balanced_leaf _ _

end TypeTree

/-!
## What follows a type
-/

namespace Parser

def typeClosers : List Char := ";,)]>=\x7d".toList

def Closes (marks : List Char) (ts : List Token) : Prop :=
  (exists t rest, ts = t :: rest /\
    (t.isWord "as" = true \/ exists c, c ∈ marks /\ t.isMark c = true)) /\
    startsWithMarks ts "=>".toList = false

theorem Closes.mono {cs ds : List Char} {ts : List Token} (h : Closes cs ts)
    (hsub : cs.all ds.contains = true) : Closes ds ts := by
  obtain ⟨⟨t, rest, rfl, hhead⟩, harrow⟩ := h
  refine ⟨⟨t, rest, rfl, ?_⟩, harrow⟩
  cases hhead with
  | inl has => exact .inl has
  | inr hmark =>
      obtain ⟨c, hc, ht⟩ := hmark
      exact .inr ⟨c, List.contains_iff_mem.mp (List.all_eq_true.mp hsub c hc), ht⟩

theorem Closes.of_mark {cs : List Char} {b : List Char} {c : Char} (hc : c ∈ cs) (hne : c ≠ '=')
    (row : Nat) (rest : List Token) : Closes cs ((Lexeme.mark b c).token row :: rest) := by
  refine ⟨⟨_, rest, rfl, .inr ⟨c, hc, by simp⟩⟩, ?_⟩
  cases rest <;> simp [startsWithMarks, hne]

section

variable {cs : List Char} {t : Token} {ts : List Token}

theorem Closes.isMark (h : Closes cs (t :: ts)) {c : Char} (hc : c ∉ cs) : t.isMark c = false := by
  obtain ⟨⟨u, rest, heq, hhead⟩, -⟩ := h
  obtain ⟨rfl, rfl⟩ := List.cons.inj heq
  cases hhead with
  | inl has =>
      refine Token.isMark_of_kind ?_ c
      rw [Token.kind_of_isWord has]
      decide
  | inr hmark =>
      obtain ⟨d, hd, ht⟩ := hmark
      refine Token.isMark_of_isMark ht ?_
      rintro rfl
      exact hc hd

theorem Closes.isWord (h : Closes cs (t :: ts)) {w : String} (hw : w ≠ "as") :
    t.isWord w = false := by
  obtain ⟨⟨u, rest, heq, hhead⟩, -⟩ := h
  obtain ⟨rfl, rfl⟩ := List.cons.inj heq
  cases hhead with
  | inl has =>
      simp only [Token.isWord, Bool.and_eq_true, beq_iff_eq] at has
      have hne : ¬ "as".toList = w.toList := fun h => hw (String.toList_inj.mp h).symm
      rw [Token.isWord, has.right]
      simp only [Bool.and_eq_false_imp, beq_eq_false_iff_ne, ne_eq]
      exact fun _ => hne
  | inr hmark =>
      obtain ⟨d, hd, ht⟩ := hmark
      refine Token.isWord_of_kind ?_ w
      rw [Token.kind_of_isMark ht]
      decide

theorem Closes.exists_cons (h : Closes cs ts) : exists t rest, ts = t :: rest := by
  obtain ⟨⟨t, rest, heq, -⟩, -⟩ := h
  exact ⟨t, rest, heq⟩

end

theorem endsBefore_token (context : Context) {l : Lexeme} {b : List Char} (hgap : l.gap = .ofBlank b)
    (hb : isRowBlank b = true) {row : Nat} (hbrace : (l.token row).isMark '\x7d' = false)
    (hend : l.kind ≠ .endOfSource) (rest : List Token) :
    context.endsBefore (l.token row :: rest) = false := by
  have hblank : b.dropWhile (fun c => isPlainBlank c && c != '\n') = [] := by
    have hnil : (([] : List Char).head?.any (fun c => isPlainBlank c && c != '\n')) = false := rfl
    have hdrop := (Text.takeWhile_append_of_all hb hnil).right
    rwa [List.append_nil] at hdrop
  have hrow : Semicolon.endsOnRow context.operators (l.token row :: rest) = false := by
    simp [Semicolon.endsOnRow, hbrace, hend]
  have hnone : Semicolon.inGap? context.operators (l.token row :: rest) (l.token row).gap = none := by
    have hplace : (l.token row).gap = Gap.triviaOfBlank b := by
      rw [Lexeme.token, hgap]
      rfl
    rw [hplace]
    cases b with
    | nil => simp [Gap.triviaOfBlank, Semicolon.inGap?, hrow]
    | cons d b => simp [Gap.triviaOfBlank, Semicolon.inGap?, hblank, hrow]
  simp [Context.endsBefore, automaticSemicolon?, hnone]

theorem endsBefore_mark (context : Context) {b : List Char} (hb : isRowBlank b = true) {c : Char}
    (hc : c ≠ '\x7d') (row : Nat) (rest : List Token) :
    context.endsBefore ((Lexeme.mark b c).token row :: rest) = false :=
  endsBefore_token context Lexeme.mark_gap hb (by simpa using hc) (by simp) rest

variable {g : Grammar} {context : Context} {row : Nat} {rest ts : List Token}

/-!
## Primary types
-/

theorem run_commentTypes_place {t : TypeTree} (h : t.Canonical) (b : List Char) (row : Nat)
    (rest : List Token) :
    commentTypes.run (Lexeme.place row (t.lexemes b) ++ rest) =
      some ([], Lexeme.place row (t.lexemes b) ++ rest) := by
  obtain ⟨l, ls, hl, hgap, -⟩ := t.lexemes_eq_cons h b
  have hcomments : (l.token row).comments = [] := Lexeme.comments_token (by rw [hgap]; rfl)
  rw [hl, Lexeme.place_cons, List.cons_append, run_commentTypes, hcomments]
  rfl

theorem comments_mark (b : List Char) (c : Char) (row : Nat) :
    ((Lexeme.mark b c).token row).comments = [] :=
  Lexeme.comments_token rfl

theorem run_commentTypes_mark (b : List Char) (c : Char) (row : Nat) (rest : List Token) :
    commentTypes.run ((Lexeme.mark b c).token row :: rest) =
      some ([], (Lexeme.mark b c).token row :: rest) := by
  rw [run_commentTypes, comments_mark]
  rfl

theorem parts_of_not_constant {t : TypeTree} (h : t.isConstant = false) : t.parts = [t] := by
  rw [TypeTree.parts, h]
  rfl

theorem run_primaryType_string (gap : Gap) (s : List Char) :
    (primaryType g context).run ((Lexeme.string gap s).token row :: rest) = some (.string s, rest) := by
  simp [primaryType, run_peek, run_advance]

theorem run_primaryType_number (gap : Gap) (s : List Char) :
    (primaryType g context).run ((Lexeme.number gap s).token row :: rest) = some (.text s, rest) := by
  simp [primaryType, run_peek, run_advance]

theorem run_primaryType_constant (gap : Gap) :
    (primaryType g context).run ((Lexeme.keyword gap "const").token row :: rest) =
      some (.constant, rest) := by
  simp [primaryType, run_peek, run_advance]

theorem run_primaryType_parenthesized {inner : TypeTree} (hcanonical : inner.Canonical)
    (hconstant : inner.isConstant = false) (b : List Char) (rest : List Token)
    (hread : forall row rest, Closes typeClosers rest ->
      (g.type .enclosed).run (Lexeme.place row (inner.lexemes []) ++ rest) = some (inner, rest)) :
    (primaryType g context).run
        (Lexeme.place row ((TypeTree.parenthesized inner).lexemes b) ++ rest) =
      some (.parenthesized inner, rest) := by
  have hparts := parts_of_not_constant hconstant
  have hclose : Closes typeClosers
      ((Lexeme.mark [] ')').token (row + Lexeme.rows [Lexeme.mark b '('] + Lexeme.rows (inner.lexemes [])) ::
        rest) :=
    Closes.of_mark (by decide) (by decide) _ rest
  have hinner := hread (row + Lexeme.rows [Lexeme.mark b '(']) _ hclose
  have hbefore := run_commentTypes_place hcanonical [] (row + Lexeme.rows [Lexeme.mark b '('])
    ((Lexeme.mark [] ')').token (row + Lexeme.rows [Lexeme.mark b '('] + Lexeme.rows (inner.lexemes [])) ::
        rest)
  simp [primaryType, parenthesizedType, withText, TypeTree.lexemes, run_peek, run_mark,
    hbefore, hinner, run_commentTypes_mark, hparts]


def primaryClosers : List Char := ['[', '&', '|'] ++ typeClosers

theorem run_pathRest {t : Token} (h : t.isMark '.' = false) :
    pathRest.run (t :: ts) = some ((), t :: ts) := by
  have hmany : (many (do let _ ← mark '.'; identifier)).run (t :: ts) = some ([], t :: ts) :=
    run_many_nil (run_bind_none (run_mark_none h))
  simp [pathRest, hmany]

theorem written_singleton (t : Token) : Token.written [t] = t.text := by
  simp [Token.written, Token.source]

theorem isWord_eq_false_of_text {t : Token} {ws : List String}
    (h : ws.any (t.text == ·.toList) = false) {w : String} (hw : w ∈ ws) : t.isWord w = false := by
  rw [List.any_eq_false] at h
  have hne := h w hw
  simp only [beq_iff_eq] at hne
  simp [Token.isWord, hne]

theorem any_isWord {t : Token} (hkind : t.kind = .word) (ws : List String) :
    ws.any t.isWord = ws.any (t.text == ·.toList) := by
  have heq : t.isWord = (t.text == ·.toList) := by
    funext w
    simp [Token.isWord, hkind]
  rw [heq]

section

variable {t : Token}

theorem run_primaryType_literalWord (hkind : t.kind = .word) (hconst : t.isWord "const" = false)
    (hliteral : literalWords.any t.isWord = true) :
    (primaryType g context).run (t :: rest) = some (.text t.text, rest) := by
  have hend : t.kind ≠ .endOfSource := by simp [hkind]
  have htext : (textOf (do let _ ← advance)).run ([t] ++ rest) = some (t.text, rest) := by
    rw [run_textOf (a := ()) (by simp [run_advance hend]), written_singleton]
  rw [List.singleton_append] at htext
  simp only [primaryType, textType, StateT.run_bind, run_peek, Option.bind_eq_bind, Option.bind_some,
    hkind, hconst, hliteral, Bool.false_eq_true, if_false, if_true, StateT.run_map, htext]
  rfl

theorem run_path (hkind : t.kind = .word)
    (hname : forall w, w ∈ nonTypeWords -> t.isWord w = false) {u : Token}
    (hpoint : u.isMark '.' = false) :
    (withText (do
      let t ← wordOutside nonTypeWords
      if !predefinedWords.any t.isWord then
        pathRest
      return t)).run (t :: u :: ts) = some ((t, t.text), u :: ts) := by
  have hpath : (do
      let t ← wordOutside nonTypeWords
      if !predefinedWords.any t.isWord then
        pathRest
      return t : Parser Token).run ([t] ++ (u :: ts)) = some (t, u :: ts) := by
    simp only [List.singleton_append, StateT.run_bind, run_wordOutside hkind hname,
      Option.bind_eq_bind, Option.bind_some]
    cases predefinedWords.any t.isWord <;>
      simp only [Bool.not_true, Bool.not_false, Bool.false_eq_true, if_false, if_true, StateT.run_bind,
        run_pathRest hpoint, Option.bind_eq_bind, Option.bind_some] <;> rfl
  have hwithText := run_withText hpath
  rwa [written_singleton, List.singleton_append] at hwithText

theorem run_namedType (hkind : t.kind = .word)
    (hname : forall w, w ∈ nonTypeWords -> t.isWord w = false)
    (h : Closes primaryClosers rest) :
    (namedType g).run (t :: rest) = some (.text t.text, rest) := by
  obtain ⟨u, us, rfl⟩ := h.exists_cons
  have hpoint : u.isMark '.' = false := h.isMark (by decide)
  have hopen : u.isMark '<' = false := h.isMark (by decide)
  simp only [namedType, StateT.run_bind, run_path hkind hname hpoint, run_atMark, hopen,
    Option.bind_eq_bind, Option.bind_some, Bool.false_and, Bool.false_eq_true, if_false]
  rfl

theorem run_namedType_generic (hkind : t.kind = .word)
    (hname : forall w, w ∈ nonTypeWords -> t.isWord w = false)
    (hfree : predefinedWords.any t.isWord = false) {u : Token} (hopen : u.isMark '<' = true)
    {arguments : List TypeTree}
    (harguments : (typeArguments g).run (u :: ts) = some (arguments, rest)) :
    (namedType g).run (t :: u :: ts) = some (.generic t.text arguments, rest) := by
  have hpoint : u.isMark '.' = false := Token.isMark_of_isMark hopen (by decide)
  simp only [namedType, StateT.run_bind, run_path hkind hname hpoint, run_atMark, hopen, hfree,
    Option.bind_eq_bind, Option.bind_some, Bool.not_false, Bool.and_self, if_true, harguments]
  rfl

theorem run_primaryType_word (hkind : t.kind = .word)
    (hname : forall w, w ∈ nonTypeWords -> t.isWord w = false)
    (h : Closes primaryClosers rest) :
    (primaryType g context).run (t :: rest) = some (.text t.text, rest) := by
  have hconst := hname "const" (by decide)
  have hunique := hname "unique" (by decide)
  have htypeof := hname "typeof" (by decide)
  cases hliteral : literalWords.any t.isWord with
  | true => exact run_primaryType_literalWord hkind hconst hliteral
  | false =>
      simp only [primaryType, StateT.run_bind, run_peek, Option.bind_eq_bind, Option.bind_some,
        hkind, hconst, hliteral, hunique, htypeof, Bool.false_eq_true, if_false]
      exact run_namedType hkind hname h

theorem run_primaryType_generic (hkind : t.kind = .word)
    (hname : forall w, w ∈ nonTypeWords -> t.isWord w = false)
    (hfree : predefinedWords.any t.isWord = false) {u : Token} (hopen : u.isMark '<' = true)
    {arguments : List TypeTree}
    (harguments : (typeArguments g).run (u :: ts) = some (arguments, rest)) :
    (primaryType g context).run (t :: u :: ts) = some (.generic t.text arguments, rest) := by
  have hconst := hname "const" (by decide)
  have hunique := hname "unique" (by decide)
  have htypeof := hname "typeof" (by decide)
  have hliteral : literalWords.any t.isWord = false := by
    rw [List.any_eq_false] at hfree ⊢
    intro w hw
    exact hfree w (by revert w; decide)
  simp only [primaryType, StateT.run_bind, run_peek, Option.bind_eq_bind, Option.bind_some,
    hkind, hconst, hliteral, hunique, htypeof, Bool.false_eq_true, if_false]
  exact run_namedType_generic hkind hname hfree hopen harguments

end

/-!
## Type arguments
-/

def ReadsType (g : Grammar) (t : TypeTree) : Prop :=
  forall (context : Context) (b : List Char) (row : Nat) (rest : List Token),
    Closes typeClosers rest ->
      (g.type context).run (Lexeme.place row (t.lexemes b) ++ rest) = some (t, rest)

def ReadsArgument (g : Grammar) (ls : List Lexeme) (t : TypeTree) : Prop :=
  forall (row : Nat) (rest : List Token), Closes typeClosers rest ->
    (typeArgument g).run (Lexeme.place row ls ++ rest) = some ([t], rest)

theorem readsArgument_lexemes {u : TypeTree} (hread : ReadsType g u) (hcanonical : u.Canonical)
    (b : List Char) : ReadsArgument g (u.lexemes b) u := by
  intro row rest h
  simp [typeArgument, run_commentTypes_place hcanonical, hread .enclosed b row rest h]

/-- What stands behind one of several types in a row is a separator or what stands behind
all of them. -/
theorem closes_further {cs : List Char} {c : Char} (hc : c ∈ cs) (hne : c ≠ '=')
    (ps : List (Further TypeTree)) (row : Nat) (hrest : Closes cs rest) :
    Closes cs (Lexeme.place row (Further.lexemesOf c ps) ++ rest) := by
  cases ps with
  | nil => exact hrest
  | cons p ps => exact Closes.of_mark hc hne row _

theorem run_furtherTypeArguments {ps : List (Further TypeTree)}
    (h : forall p, p ∈ ps -> ReadsArgument g p.lexemes p.value) {fuel : Nat}
    (hfuel : ps.length ≤ fuel) (row : Nat) (hrest : Closes ['>'] rest) :
    (manyFrom (furtherTypeArgument g) fuel).run
        (Lexeme.place row (Further.lexemesOf ',' ps) ++ rest) =
      some (ps.map fun p => [p.value], rest) := by
  induction ps generalizing fuel row with
  | nil =>
      obtain ⟨t, ts, rfl⟩ := hrest.exists_cons
      have hcomma : t.isMark ',' = false := hrest.isMark (by decide)
      refine run_manyFrom_nil ?_ fuel
      simp [furtherTypeArgument, run_commentTypes, run_mark_none hcomma]
  | cons p ps ih =>
      obtain ⟨fuel, rfl⟩ : exists m, fuel = m + 1 :=
        ⟨fuel - 1, by simp only [List.length_cons] at hfuel; omega⟩
      have hmore := fun row => ih (fun q hq => h q (List.mem_cons_of_mem p hq))
        (Nat.le_of_succ_le_succ hfuel) row
      have hcloses : forall row, Closes typeClosers
          (Lexeme.place row (Further.lexemesOf ',' ps) ++ rest) :=
        fun row => closes_further (by decide) (by decide) ps row (hrest.mono (by decide))
      have hfirst := fun row row' => h p List.mem_cons_self row _ (hcloses row')
      rw [Further.lexemesOf_cons, Lexeme.place_append, Lexeme.place_cons, List.append_assoc,
        List.cons_append]
      generalize row + Lexeme.rows (.mark p.blank ',' :: p.lexemes) = row₁
      refine run_manyFrom_cons ?_ (hmore row₁)
      refine (run_bind_some (run_commentTypes_mark _ _ _ _)).trans ?_
      refine (run_bind_some (run_mark (by simp))).trans ?_
      exact run_bind_some (hfirst _ _)

theorem run_typeArguments_further {first : TypeTree} {ls : List Lexeme}
    {ps : List (Further TypeTree)} (hfirst : ReadsArgument g ls first)
    (h : forall p, p ∈ ps -> ReadsArgument g p.lexemes p.value) (b b' : List Char) (row : Nat)
    (rest : List Token) :
    (typeArguments g).run
        (Lexeme.place row (.mark b '<' :: ls ++ Further.lexemesOf ',' ps ++ [.mark b' '>']) ++ rest) =
      some (first :: ps.map Further.value, rest) := by
  have hangle : forall row, Closes ['>'] ((Lexeme.mark b' '>').token row :: rest) :=
    fun row => Closes.of_mark (by decide) (by decide) row rest
  have hmore : forall row row', (many (furtherTypeArgument g)).run
      (Lexeme.place row (Further.lexemesOf ',' ps) ++ (Lexeme.mark b' '>').token row' :: rest) =
        some (ps.map fun p => [p.value], (Lexeme.mark b' '>').token row' :: rest) := by
    intro row row'
    refine run_many (run_furtherTypeArguments h ?_ row (hangle row'))
    have hlength := Further.length_le_lexemesOf ',' ps
    rw [List.length_append, Lexeme.length_place]
    omega
  have hcloses : forall row row', Closes typeClosers (Lexeme.place row (Further.lexemesOf ',' ps) ++
      (Lexeme.mark b' '>').token row' :: rest) :=
    fun row row' => closes_further (by decide) (by decide) ps row ((hangle row').mono (by decide))
  have hargument := fun row row' => hfirst row _ (hcloses (row + Lexeme.rows ls) row')
  have hflat : (ps.map fun p => [p.value]).flatten = ps.map Further.value := by
    rw [← List.flatMap_def, ← List.map_eq_flatMap]
  simp [typeArguments, run_mark, hargument, hmore, run_commentTypes_mark, run_mark?, hflat]

theorem run_typeArguments {first : TypeTree} {more : List TypeTree}
    (hread : forall u, u ∈ first :: more -> ReadsType g u)
    (hcanonical : forall u, u ∈ first :: more -> u.Canonical) (row : Nat) (rest : List Token) :
    (typeArguments g).run
        (Lexeme.place row (.mark [] '<' :: TypeTree.lexemesOf (.mark [] ',') [] (first :: more) ++
          [.mark [] '>']) ++ rest) = some (first :: more, rest) := by
  have hargument : forall u, u ∈ first :: more -> forall b, ReadsArgument g (u.lexemes b) u :=
    fun u hu b => readsArgument_lexemes (hread u hu) (hcanonical u hu) b
  have hfurther : forall p, p ∈ TypeTree.further [] more -> ReadsArgument g p.lexemes p.value := by
    intro p hp
    obtain ⟨u, hu, rfl⟩ := List.mem_map.mp hp
    exact hargument u (List.mem_cons_of_mem first hu) [' ']
  have hall := run_typeArguments_further (hargument first List.mem_cons_self []) hfurther [] [] row rest
  rw [TypeTree.values_further] at hall
  rw [TypeTree.lexemesOf, TypeTree.lexemesBehind_eq]
  exact hall

/-!
## Queries
-/

theorem run_queryStep_none {u : Token}
    (h : forall c, c ∈ ['.', '?', '('] -> u.isMark c = false) :
    (queryStep g context).run (u :: ts) = none := by
  have hpoint := h '.' (by decide)
  have hquestion := h '?' (by decide)
  have hparenthesis := h '(' (by decide)
  have hmarks : startsWithMarks (u :: ts) "?.".toList = false := by
    cases ts <;> simp [startsWithMarks, hquestion]
  have hcall : (callArguments g).run (u :: ts) = none := run_bind_none (run_mark_none hparenthesis)
  simp only [queryStep, StateT.run_bind, run_atMarks, hmarks, Option.bind_eq_bind, Option.bind_some,
    Bool.false_eq_true, if_false, run_mark?, hpoint, run_endsHere]
  cases context.endsBefore (u :: ts) with
  | true => rfl
  | false => exact hcall

/-- No index stands in front of other tokens than an opening bracket, nor where the bracket
is closed at once. -/
theorem run_queryIndex_none {u : Token}
    (h : u.isMark '[' = false \/ exists v vs, ts = v :: vs /\ v.isMark ']' = true) :
    queryIndex.run (u :: ts) = none := by
  cases hopen : u.isMark '[' with
  | false => exact run_bind_none (run_mark_none hopen)
  | true =>
      rw [hopen] at h
      obtain ⟨v, vs, rfl, hclose⟩ := h.resolve_left (by decide)
      have hkind := Token.kind_of_isMark hclose
      have hword : predefinedWords.any v.isWord = false := by
        rw [List.any_eq_false]
        intro w _
        rw [Token.isWord_of_kind (by rw [hkind]; decide)]
        decide
      have hno : (v.kind == .string || v.kind == .number || predefinedWords.any v.isWord) = false := by
        rw [hkind, hword]
        rfl
      simp only [queryIndex, StateT.run_bind, run_mark hopen, run_peek, hno, run_require_false,
        Option.bind_eq_bind, Option.bind_some]
      rfl

theorem run_typeQuery {t u : Token} (hkind : t.kind = .word)
    (hname : forall w, w ∈ nonQueryWords -> t.isWord w = false)
    (hclosers : forall c, c ∈ ['.', '?', '(', '<'] -> u.isMark c = false)
    (hindex : u.isMark '[' = false \/ exists v vs, ts = v :: vs /\ v.isMark ']' = true) :
    (typeQuery g context).run (t :: u :: ts) = some ((), u :: ts) := by
  have himport := hname "import" (by decide)
  have hthis := hname "this" (by decide)
  have hangle := hclosers '<' (by decide)
  have hsteps : (many (queryStep g context)).run (u :: ts) = some ([], u :: ts) :=
    run_many_nil (run_queryStep_none fun c hc => hclosers c (by revert c; exact forall_mem_of_all (by decide)))
  have hindices : (many (do require (!(← endsHere context)); queryIndex)).run (u :: ts) =
      some ([], u :: ts) := by
    refine run_many_nil ?_
    simp only [StateT.run_bind, run_endsHere, Option.bind_eq_bind, Option.bind_some]
    cases context.endsBefore (u :: ts) with
    | true => rfl
    | false => exact run_queryIndex_none hindex
  have hword : (wordOutside nonQueryWords).run (t :: u :: ts) = some (t, u :: ts) :=
    run_wordOutside hkind hname
  simp only [typeQuery, StateT.run_bind, run_atWord, himport, run_word?, hthis, hword, hsteps,
    hindices, run_atMark, hangle, run_endsHere, Option.bind_eq_bind, Option.bind_some,
    Bool.false_eq_true, if_false, Bool.false_and, List.isEmpty_nil, if_true]
  rfl


theorem run_primaryType_query {t q u : Token} (htypeof : t.isWord "typeof" = true)
    (hq : q.kind = .word) (hname : forall w, w ∈ nonQueryWords -> q.isWord w = false)
    (hcomments : q.comments = [])
    (hclosers : forall c, c ∈ ['.', '?', '(', '<'] -> u.isMark c = false)
    (hindex : u.isMark '[' = false \/ exists v vs, ts = v :: vs /\ v.isMark ']' = true) :
    (primaryType g context).run (t :: q :: u :: ts) = some (.typeOf q.text, u :: ts) := by
  have hkind := Token.kind_of_isWord htypeof
  have htext : t.text = "typeof".toList := by
    simp only [Token.isWord, Bool.and_eq_true, beq_iff_eq] at htypeof
    exact htypeof.right
  have hconst : t.isWord "const" = false := by simp [Token.isWord, htext]
  have hunique : t.isWord "unique" = false := by simp [Token.isWord, htext]
  have hliteral : literalWords.any t.isWord = false := by
    rw [any_isWord hkind, htext]
    decide
  have hquery : (textOf (typeQuery g context)).run ([q] ++ u :: ts) = some (q.text, u :: ts) := by
    rw [run_textOf (run_typeQuery hq hname hclosers hindex), written_singleton]
  have hadvance : advance.run (t :: q :: u :: ts) = some (t, q :: u :: ts) :=
    run_advance (Token.ne_endOfSource_of_isWord htypeof)
  rw [List.singleton_append] at hquery
  simp only [primaryType, StateT.run_bind, run_peek, Option.bind_eq_bind, Option.bind_some,
    hkind, hconst, hliteral, hunique, htypeof, Bool.false_eq_true, if_false, if_true, withText,
    StateT.run_get, Option.pure_def, hadvance, run_comments, hcomments, hquery, StateT.run_pure]
  rfl

/-!
## Brackets behind types
-/

section

variable {start : List Token} {fuel : Nat} {object index : TypeTree}

def indexSteps : TypeTree -> Nat
  | .array element => indexSteps element + 1
  | .lookup object _ => indexSteps object + 1
  | _ => 0

theorem run_indexedFrom_array (hobject : object.isConstant = false) (row : Nat) (rest : List Token) :
    (indexedFrom g context start (fuel + 1) object).run
        (Lexeme.place row [.mark [] '[', .mark [] ']'] ++ rest) =
      (indexedFrom g context start fuel (.array object)).run rest := by
  have hends := endsBefore_mark context (b := []) rfl (c := '[') (by decide) row
    ((Lexeme.mark [] ']').token (row + Lexeme.rows [Lexeme.mark [] '[']) :: rest)
  simp only [Lexeme.place_cons, Lexeme.place_nil, List.cons_append, List.nil_append] at hends ⊢
  simp [indexedFrom, run_atMark, run_endsHere, hends, run_commentTypes_mark, run_advance,
    parts_of_not_constant hobject]

theorem run_indexedFrom_lookup (hobject : object.isConstant = false)
    (hindex : index.isConstant = false) (hcanonical : index.Canonical) (hread : ReadsType g index)
    (row : Nat) (rest : List Token) :
    (indexedFrom g context start (fuel + 1) object).run
        (Lexeme.place row (.mark [] '[' :: index.lexemes [] ++ [.mark [] ']']) ++ rest) =
      (indexedFrom g context start fuel (.lookup object index)).run rest := by
  have hclose : forall row, Closes typeClosers ((Lexeme.mark [] ']').token row :: rest) :=
    fun row => Closes.of_mark (by decide) (by decide) row rest
  have hinside := fun row => run_commentTypes_place hcanonical [] row
    ((Lexeme.mark [] ']').token (row + Lexeme.rows (index.lexemes [])) :: rest)
  have hindexed := fun row => hread .enclosed [] row _
    (hclose (row + Lexeme.rows (index.lexemes [])))
  have hnotClosed : forall row more, (atMark ']').run (Lexeme.place row (index.lexemes []) ++ more) =
      some (false, Lexeme.place row (index.lexemes []) ++ more) := by
    intro row more
    obtain ⟨l, ls, hl, -, hmark⟩ := index.lexemes_eq_cons hcanonical []
    rw [hl, Lexeme.place_cons, List.cons_append, run_atMark, hmark row ']' (by decide)]
  have hends := fun ts => endsBefore_mark context (b := []) rfl (c := '[') (by decide) row ts
  simp only [Lexeme.place_cons, Lexeme.place_nil, Lexeme.place_append, List.cons_append,
    List.nil_append, List.append_assoc]
  simp [indexedFrom, run_atMark, run_endsHere, hends, run_commentTypes_mark, run_advance, run_mark,
    hinside, hindexed, hnotClosed, parts_of_not_constant hobject, parts_of_not_constant hindex]

end


/-!
## Indexed types
-/

theorem run_primaryType_leafNumber {s : List Char} (hs : isWholeNumber s = true) (b : List Char) :
    (primaryType g context).run (Lexeme.place row ((TypeTree.text s).lexemes b) ++ rest) =
      some (.text s, rest) := by
  rw [TypeTree.lexemes, Lexeme.leaf_of_isWholeNumber hs]
  exact run_primaryType_number _ _

theorem run_primaryType_leafWord {s : List Char} (hs : TypeTree.isTypeWord s = true) (b : List Char)
    (hrest : Closes primaryClosers rest) :
    (primaryType g context).run (Lexeme.place row ((TypeTree.text s).lexemes b) ++ rest) =
      some (.text s, rest) := by
  rw [TypeTree.lexemes, Lexeme.leaf_of_isWordText (TypeTree.isWordText_of_isTypeWord hs)]
  rw [TypeTree.isTypeWord, Bool.and_eq_true, Bool.or_eq_true, Bool.not_eq_true'] at hs
  cases hs.right with
  | inl hliteral =>
      have hconst : ((Lexeme.word (.ofBlank b) s).token row).isWord "const" = false := by
        obtain ⟨w, hw, heq⟩ := List.any_eq_true.mp hliteral
        have hall : forall w, w ∈ literalWords -> (w.toList == "const".toList) = false := by decide
        rw [Lexeme.isWord_word, eq_of_beq heq]
        exact hall w hw
      exact run_primaryType_literalWord rfl hconst (by rw [any_isWord rfl]; exact hliteral)
  | inr hname =>
      exact run_primaryType_word rfl (fun w hw => isWord_eq_false_of_text hname hw) hrest

theorem run_primaryType_genericName {name : List Char} (hname : TypeTree.isGenericName name = true)
    {b : List Char} {ls : List Lexeme} {arguments : List TypeTree}
    (harguments : forall row, (typeArguments g).run (Lexeme.place row (.mark b '<' :: ls) ++ rest) =
      some (arguments, rest)) (gap : Gap) :
    (primaryType g context).run
        (Lexeme.place row (.word gap name :: .mark b '<' :: ls) ++ rest) =
      some (.generic name arguments, rest) := by
  rw [TypeTree.isGenericName, Bool.and_eq_true, Bool.and_eq_true, Bool.not_eq_true',
    Bool.not_eq_true'] at hname
  obtain ⟨⟨-, hword⟩, hfree⟩ := hname
  exact run_primaryType_generic rfl (fun w hw => isWord_eq_false_of_text hword hw)
    (by rw [any_isWord rfl]; exact hfree) (by simp) (harguments _)

def ReadsTypes (g : Grammar) (n : Nat) : Prop :=
  forall (t : TypeTree), t.Canonical -> (t.lexemes []).length ≤ n -> ReadsType g t

def ClosesQuery (ts : List Token) : Prop :=
  forall (t : Token) (rest : List Token), ts = t :: rest ->
    t.isMark '[' = false \/ exists v vs, rest = v :: vs /\ v.isMark ']' = true

theorem run_primaryType_typeOf {query : List Char} (hquery : TypeTree.isQueryWord query = true)
    (b : List Char) (hrest : Closes primaryClosers rest) (hclosed : ClosesQuery rest) :
    (primaryType g context).run (Lexeme.place row ((TypeTree.typeOf query).lexemes b) ++ rest) =
      some (.typeOf query, rest) := by
  obtain ⟨u, us, rfl⟩ := hrest.exists_cons
  rw [TypeTree.isQueryWord, Bool.and_eq_true, Bool.not_eq_true'] at hquery
  have hname : forall w, w ∈ nonQueryWords ->
      ((Lexeme.word (.ofBlank [' ']) query).token
        (row + Lexeme.rows [Lexeme.keyword (.ofBlank b) "typeof"])).isWord w = false :=
    fun w hw => isWord_eq_false_of_text (by simpa using hquery.right) hw
  have hclosers : forall c, c ∈ ['.', '?', '(', '<'] -> u.isMark c = false :=
    fun c hc => hrest.isMark (by revert c; exact forall_mem_of_all (by decide))
  have htypeof : ((Lexeme.keyword (.ofBlank b) "typeof").token row).isWord "typeof" = true := by
    simp
  exact run_primaryType_query htypeof rfl hname (Lexeme.comments_token rfl) hclosers
    (hclosed u us rfl)

theorem closesQuery_brackets (row : Nat) (rest : List Token) :
    ClosesQuery (Lexeme.place row [.mark [] '[', .mark [] ']'] ++ rest) := by
  intro u us hu
  obtain ⟨-, rfl⟩ := List.cons.inj hu
  exact .inr ⟨_, _, rfl, by simp⟩

theorem run_indexed {t : TypeTree} (h : t.Canonical) (hprimary : t.isPrimary = true) {n : Nat}
    (hg : ReadsTypes g n) (hsize : (t.lexemes []).length ≤ n + 1) {start : List Token} (b : List Char)
    (row : Nat) (fuel : Nat) {rest : List Token} (hrest : Closes primaryClosers rest)
    (hquery : t.isQuery = true -> ClosesQuery rest) :
    (primaryType g context >>= indexedFrom g context start (fuel + indexSteps t)).run
        (Lexeme.place row (t.lexemes b) ++ rest) = (indexedFrom g context start fuel t).run rest := by
  induction h generalizing b row fuel rest with
  | union => cases hprimary
  | intersection => cases hprimary
  | keyOf => cases hprimary
  | constant => cases hprimary
  | @array element helement hcanonical ih =>
      have hsteps : fuel + indexSteps (.array element) = fuel + 1 + indexSteps element := by
        rw [indexSteps]
        omega
      have hbehind : Closes primaryClosers
          (Lexeme.place (row + Lexeme.rows (element.lexemes b)) [.mark [] '[', .mark [] ']'] ++ rest) :=
        Closes.of_mark (by decide) (by decide) _ _
      have hlength : (element.lexemes []).length ≤ n + 1 := by
        simp only [TypeTree.lexemes, List.length_append] at hsize
        omega
      rw [TypeTree.lexemes, Lexeme.place_append, List.append_assoc, hsteps,
        ih helement hlength b row (fuel + 1) hbehind fun _ => closesQuery_brackets _ rest]
      exact run_indexedFrom_array (TypeTree.not_isConstant_of_isPrimary helement) _ rest
  | @parenthesized inner hconstant hinner _ =>
      have hlength : (inner.lexemes []).length ≤ n := by
        simp only [TypeTree.lexemes, List.length_append, List.length_cons] at hsize
        omega
      have hread := hg inner hinner hlength .enclosed []
      exact run_bind_some (run_primaryType_parenthesized hinner hconstant b rest hread)
  | @lookup object index hobject hnotQuery hconstant hcanonical hindex ih _ =>
      have hsteps : fuel + indexSteps (.lookup object index) = fuel + 1 + indexSteps object := by
        rw [indexSteps]
        omega
      have hbehind : Closes primaryClosers
          (Lexeme.place (row + Lexeme.rows (object.lexemes b))
            (.mark [] '[' :: index.lexemes [] ++ [.mark [] ']']) ++ rest) :=
        Closes.of_mark (by decide) (by decide) _ _
      simp only [TypeTree.lexemes, List.length_append, List.length_cons] at hsize
      have hobjectLength : (object.lexemes []).length ≤ n + 1 := by omega
      have hindexLength : (index.lexemes []).length ≤ n := by omega
      rw [TypeTree.lexemes, List.append_assoc, Lexeme.place_append, List.append_assoc, hsteps,
        ih hobject hobjectLength b row (fuel + 1) hbehind (by simp [hnotQuery])]
      exact run_indexedFrom_lookup (TypeTree.not_isConstant_of_isPrimary hobject) hconstant hindex
        (hg index hindex hindexLength) _ rest
  | @typeOf query hword =>
      exact run_bind_some (run_primaryType_typeOf hword b hrest (hquery rfl))
  | string => exact run_bind_some (run_primaryType_string _ _)
  | @generic name first more hname hconstant hcanonical _ =>
      have hnested : forall u, u ∈ first :: more -> ReadsType g u := by
        intro u hu
        have hlength := TypeTree.length_le_lexemesOf_of_mem (.mark [] ',') hu (hcanonical u hu)
        refine hg u (hcanonical u hu) ?_
        simp only [TypeTree.lexemes, List.length_append, List.length_cons] at hsize
        omega
      exact run_bind_some (run_primaryType_genericName hname
        (fun row => run_typeArguments hnested hcanonical row rest) (.ofBlank b))
  | @text s hs =>
      cases hs with
      | inl hword => exact run_bind_some (run_primaryType_leafWord hword b hrest)
      | inr hnumber => exact run_bind_some (run_primaryType_leafNumber hnumber b)

end Parser
end TypeScript
end SchemaTypes
