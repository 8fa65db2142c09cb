import SchemaTypes.Proofs.Style.Neighbors
import SchemaTypes.Proofs.Style.Objects
import SchemaTypes.Proofs.TypeScript.MemberReading

/-!
# Members in any layout

The members of an interface can be spelled with a comma or a semicolon behind each, with
none behind the last one, and with any blanks around them.  The body is read as the same
members, with a row left free in front of the same of them.
-/

namespace SchemaTypes
namespace TypeScript

/-!
## Spellings
-/

structure Signature where
  readonly : Bool
  key : PropertyName
  optional : Bool
  type : TypeTree

namespace Signature

def pieces (s : Signature) : List MemberPiece :=
  (if s.readonly then [.modifier "readonly".toList] else []) ++
    .name s.key :: Member.tail s.optional (some s.type)

def member (s : Signature) : Member :=
  .property s.pieces

/-- The lexemes spell what stands behind the name of a property. -/
inductive SpelledTail (type : TypeTree) : Bool -> List Lexeme -> Prop where
  | required {b : List Char} {ls : List Lexeme} (hb : isRowBlank b = true) (h : type.Spelled ls) :
      SpelledTail type false (.mark b ':' :: ls)
  | optional {b : List Char} {ls : List Lexeme} (hb : isRowBlank b = true)
      (h : SpelledTail type false ls) : SpelledTail type true (.mark b '?' :: ls)

inductive Spelled : Signature -> List Lexeme -> Prop where
  | plain (b : List Char) {key : PropertyName} {optional : Bool} {type : TypeTree} {ls : List Lexeme}
      (hkey : key.isKey = true) (habstract : Member.isAbstract [.name key] = false)
      (h : SpelledTail type optional ls) :
      Spelled ⟨false, key, optional, type⟩ (key.lexeme (.ofBlank b) :: ls)
  | readonly (b : List Char) {b' : List Char} {key : PropertyName} {optional : Bool}
      {type : TypeTree} {ls : List Lexeme} (hb : isRowBlank b' = true) (hkey : key.isKey = true)
      (h : SpelledTail type optional ls) :
      Spelled ⟨true, key, optional, type⟩
        (.keyword (.ofBlank b) "readonly" :: key.lexeme (.ofBlank b') :: ls)

def IsSeparator (ls : List Lexeme) : Prop :=
  exists b c, c ∈ [',', ';'] /\ ls = [.mark b c]

/-- The lexemes spell members with a separator behind each, except perhaps the last one.  A
flag tells whether a row is left free in front of a member. -/
inductive SpelledAll : List (Bool × Signature) -> List Lexeme -> Prop where
  | nil : SpelledAll [] []
  | cons {first : Signature} {ls closing : List Lexeme} {more : List (Neighbor Signature)}
      (hfirst : Spelled first ls) (hmore : forall n, n ∈ more -> Spelled n.value n.lexemes)
      (hbetween : forall n, n ∈ more -> IsSeparator n.between)
      (hstands : forall n, n ∈ more -> n.Stands) (hclosing : closing = [] \/ IsSeparator closing) :
      SpelledAll ((false, first) :: more.map Neighbor.flagged)
        (ls ++ Neighbor.lexemesOf more ++ closing)

section

variable {s : Signature} {ls : List Lexeme}

/-- A property starts with a word or a literal. -/
theorem Spelled.eq_cons (h : s.Spelled ls) :
    exists l more b, ls = l :: more /\ l.gap = .ofBlank b /\ l.kind ≠ .mark := by
  cases h with
  | plain b _ _ _ =>
      exact ⟨_, _, b, rfl, PropertyName.lexeme_gap _ _, Parser.kind_lexeme_ne_mark _ _⟩
  | readonly b _ _ _ => exact ⟨_, _, b, rfl, Lexeme.keyword_gap, by simp⟩

theorem Spelled.ne_nil (h : s.Spelled ls) : ls ≠ [] := by
  obtain ⟨l, more, b, rfl, -⟩ := h.eq_cons
  exact List.cons_ne_nil _ _

end

end Signature

namespace Parser

open Signature

variable {g : Grammar} {n : Nat} {row : Nat} {rest ts : List Token} {s : Signature} {ls : List Lexeme}

def memberEnds : List Char := [',', ';', '\x7d']

/-!
## Names and types
-/

theorem place_tail {type : TypeTree} {optional : Bool} (h : SpelledTail type optional ls) (row : Nat)
    (rest : List Token) :
    exists u us c, Lexeme.place row ls ++ rest = u :: us /\ c ∈ [':', '?'] /\ u.isMark c = true := by
  cases h with
  | required _ _ => exact ⟨_, _, ':', rfl, by decide, by simp⟩
  | optional _ _ => exact ⟨_, _, '?', rfl, by decide, by simp⟩

theorem run_declaredPieces_spelled (hg : ReadsSpellings g n) {type : TypeTree}
    (h : SpelledTail type false ls) (hsize : ls.length ≤ n) (row : Nat)
    (hrest : Closes typeClosers rest) :
    (declaredPieces g).run (Lexeme.place row ls ++ rest) = some ([.declared type], rest) := by
  cases h with
  | @required b ls hb h =>
      have hread := fun row => hg type ls h (Nat.le_of_succ_le hsize) .typeEnding row rest hrest
      have hcomments := fun row => run_commentTypes_spelled h row rest
      exact run_declaredPieces_of hb row (run_declaredType_of h.not_isConstant hcomments hread b row)

theorem run_tail_spelled (hg : ReadsSpellings g n) {type : TypeTree} {optional : Bool}
    (h : SpelledTail type optional ls) (hsize : ls.length ≤ n) (row : Nat)
    (hrest : Closes typeClosers rest) :
    exists v vs, v.isMark ':' = true /\
      optionalPieces.run (Lexeme.place row ls ++ rest) =
        some ((if optional then [.optional] else []), v :: vs) /\
      (declaredPieces g).run (v :: vs) = some ([.declared type], rest) := by
  have hcolon : forall {ls : List Lexeme}, SpelledTail type false ls -> forall row,
      exists v vs, Lexeme.place row ls ++ rest = v :: vs /\ v.isMark ':' = true := by
    intro ls h row
    cases h with
    | required _ _ => exact ⟨_, _, rfl, by simp⟩
  cases h with
  | required hb h =>
      obtain ⟨v, vs, hplace, hv⟩ := hcolon (.required hb h) row
      have hdeclared := run_declaredPieces_spelled hg (.required hb h) hsize row hrest
      rw [hplace] at hdeclared ⊢
      have hquestion : v.isMark '?' = false := Token.isMark_of_isMark hv (by decide)
      exact ⟨v, vs, hv, run_optionalPieces_none hquestion, hdeclared⟩
  | @optional b ls hb h =>
      obtain ⟨v, vs, hplace, hv⟩ := hcolon h (row + Lexeme.rows [.mark b '?'])
      have hdeclared := run_declaredPieces_spelled hg h (Nat.le_of_succ_le hsize)
        (row + Lexeme.rows [.mark b '?']) hrest
      rw [hplace] at hdeclared
      rw [Lexeme.place_cons, List.cons_append, hplace]
      exact ⟨v, vs, hv, run_optionalPieces_mark hb row _, hdeclared⟩

/-!
## Properties
-/

theorem run_modifiers_readonly (n : PropertyName) {b : List Char} (hb : isRowBlank b = true)
    (b' : List Char) (row : Nat) (ts : List Token) :
    (modifiers propertyModifiers).run ((Lexeme.keyword (.ofBlank b') "readonly").token row ::
        (n.lexeme (.ofBlank b)).token (row + Lexeme.rows [.keyword (.ofBlank b') "readonly"]) ::
          ts) =
      some ([.modifier "readonly".toList], (n.lexeme (.ofBlank b)).token
        (row + Lexeme.rows [.keyword (.ofBlank b') "readonly"]) :: ts) := by
  have hgap : (n.lexeme (.ofBlank b)).gap = .ofBlank b := PropertyName.lexeme_gap _ n
  have hany : ["readonly"].any ("readonly".toList == ·.toList) = true := by decide
  have htaken := run_modifierPieces_taken hany hgap hb (kind_lexeme n _) (.ofBlank b') row ts
  have hpassed := fun ws hws => @run_modifierPieces_passed ws "readonly".toList hws (.ofBlank b')
    row ((n.lexeme (.ofBlank b)).token (row + Lexeme.rows [.keyword (.ofBlank b') "readonly"]) :: ts)
  refine run_modifiers_cons (hpassed _ (by decide)) ?_
  refine run_modifiers_cons (hpassed _ (by decide)) ?_
  refine run_modifiers_cons (hpassed _ (by decide)) ?_
  have hdone : forall ts, (modifiers []).run ts = some ([], ts) := fun _ => rfl
  have hcomments : ((Lexeme.word (.ofBlank b') "readonly".toList).token row).comments = [] :=
    Lexeme.comments_token rfl
  rw [hcomments] at htaken
  exact run_modifiers_cons htaken (hdone _)

theorem run_namedPieces_spelled (hg : ReadsSpellings g n) (h : s.Spelled ls) (hsize : ls.length ≤ n)
    (row : Nat) (hrest : Closes typeClosers rest) :
    (namedPieces g).run (Lexeme.place row ls ++ rest) = some ((s.pieces, false), rest) := by
  have hmarks : forall c, c ∈ [':', '?'] -> c ∉ ['[', '*'] := forall_mem_of_all (by decide)
  cases h with
  | @plain b key optional type ls hkey habstract h =>
      obtain ⟨u, us, c, hplace, hc, hu⟩ :=
        place_tail h (row + Lexeme.rows [key.lexeme (.ofBlank b)]) rest
      obtain ⟨v, vs, hv, hoptional, hdeclared⟩ := run_tail_spelled hg h (Nat.le_of_succ_le hsize)
        (row + Lexeme.rows [key.lexeme (.ofBlank b)]) hrest
      have hword := isWord_abstract_eq_false habstract (.ofBlank b) row
      rw [Lexeme.place_cons, List.cons_append]
      rw [hplace] at hoptional ⊢
      rw [run_namedPieces_of (run_modifiers_mark hu (hmarks c hc) _) hu (hmarks c hc)
        (by rw [hword]; rfl) (PropertyName.plain_of_isKey hkey) hoptional,
        run_behindName (Token.isMark_of_isMark hv (by decide)) (Token.isMark_of_isMark hv (by decide))
          hdeclared]
      simp [pieces, Member.tail, commentPiecesOf_ofBlank]
  | @readonly b b' key optional type ls hb hkey h =>
      simp only [List.length_cons] at hsize
      obtain ⟨row₁, hrow₁⟩ : exists row₁, row₁ = row +
          Lexeme.rows [.keyword (.ofBlank b) "readonly"] := ⟨_, rfl⟩
      obtain ⟨u, us, c, hplace, hc, hu⟩ :=
        place_tail h (row₁ + Lexeme.rows [key.lexeme (.ofBlank b')]) rest
      obtain ⟨v, vs, hv, hoptional, hdeclared⟩ := run_tail_spelled hg h (by omega)
        (row₁ + Lexeme.rows [key.lexeme (.ofBlank b')]) hrest
      have hmodifiers := run_modifiers_readonly key hb b row (u :: us)
      rw [← hrow₁] at hmodifiers
      rw [Lexeme.place_cons, Lexeme.place_cons, List.cons_append, List.cons_append, ← hrow₁]
      rw [hplace] at hoptional ⊢
      refine (run_namedPieces_of hmodifiers hu (hmarks c hc) rfl (PropertyName.plain_of_isKey hkey)
        hoptional).trans ?_
      rw [run_behindName (Token.isMark_of_isMark hv (by decide)) (Token.isMark_of_isMark hv (by decide))
        hdeclared]
      simp [pieces, Member.tail, commentPiecesOf_ofBlank]

theorem opensProperty_spelled (h : s.Spelled ls) (row : Nat) (rest : List Token) :
    exists t u us, Lexeme.place row ls ++ rest = t :: u :: us /\
      t.kind ≠ .mark /\ (forall c, c ∈ "(<[*\x7b".toList -> u.isMark c = false) /\
      t.isWord "abstract" = false /\ (t.isWord "export" = true -> u.kind ≠ .word) := by
  have hmarks : forall c, c ∈ [':', '?'] -> c ∉ "(<[*\x7b".toList := forall_mem_of_all (by decide)
  cases h with
  | @plain b key _ _ ls _ habstract h =>
      obtain ⟨u, us, c, hplace, hc, hu⟩ :=
        place_tail h (row + Lexeme.rows [key.lexeme (.ofBlank b)]) rest
      refine ⟨(key.lexeme (.ofBlank b)).token row, u, us, ?_, ?_, ?_, ?_, ?_⟩
      · rw [Lexeme.place_cons, List.cons_append, hplace]
      · rw [Lexeme.token_kind]
        exact kind_lexeme_ne_mark key _
      · intro d hd
        refine Token.isMark_of_isMark hu ?_
        rintro rfl
        exact hmarks c hc hd
      · exact isWord_abstract_eq_false habstract _ row
      · intro _
        rw [Token.kind_of_isMark hu]
        decide
  | @readonly b b' key _ _ ls _ _ h =>
      refine ⟨_, _, _, rfl, by simp, ?_, by simp, by simp⟩
      intro c _
      refine Token.isMark_of_kind ?_ c
      rw [Lexeme.token_kind]
      exact kind_lexeme_ne_mark key _

/-- What a property starts with opens no other kind of member. -/
theorem run_member_spelled (hg : ReadsSpellings g n) (h : s.Spelled ls) (hsize : ls.length ≤ n)
    (row : Nat) (hrest : Closes typeClosers rest) :
    (member g).run (Lexeme.place row ls ++ rest) = some (s.member, rest) := by
  have hnamed : (namedMember g).run (Lexeme.place row ls ++ rest) = some (s.member, rest) := by
    have hpieces := run_namedPieces_spelled hg h hsize row hrest
    obtain ⟨l, more, b, rfl, hgap, -⟩ := h.eq_cons
    have hcomments : ([] : List MemberPiece).length = (l.token row).comments.length := by
      rw [Lexeme.comments_token_eq, hgap]
      rfl
    exact run_namedMember_of hpieces hcomments
  obtain ⟨t, u, us, hplace, hkind, hu, hword, hexport⟩ := opensProperty_spelled h row rest
  rw [← hnamed, hplace]
  exact run_member_property hkind hu hword hexport

/-!
## Members between others
-/

theorem run_memberItems_spelled (hg : ReadsSpellings g n) (h : s.Spelled ls) (hsize : ls.length ≤ n)
    (row : Nat) (hrest : Ends memberEnds rest) :
    (memberItems g).run (Lexeme.place row ls ++ rest) =
      some ([.node (row + Text.lineFeeds (Lexeme.lead ls)) (row + Lexeme.rows ls) s.member], rest) := by
  have hcloses : Closes typeClosers rest := Closes.mono (hrest.closes (by decide)) (by decide)
  have hmember := run_member_spelled hg h hsize row hcloses
  obtain ⟨l, more, b, rfl, hgap, -⟩ := h.eq_cons
  rw [run_memberItems_of hmember, Lexeme.lead_cons, hgap]
  rfl

theorem readsNeighbor_member (hg : ReadsSpellings g n) {m : Neighbor Signature}
    (h : m.value.Spelled m.lexemes) (hbetween : IsSeparator m.between)
    (hsize : m.lexemes.length ≤ n) :
    ReadsNeighbor (Ends memberEnds) (furtherMember g) id Signature.member m := by
  intro row rest hrest
  obtain ⟨b, c, hc, hmark⟩ := hbetween
  refine ⟨m.value.member, rfl, ?_⟩
  have hitem := run_memberItems_spelled hg h hsize (row + Lexeme.rows m.between) hrest
  rw [Neighbor.item, Lexeme.rows_append, ← Nat.add_assoc, Lexeme.place_append, List.append_assoc]
  refine run_furtherMember ?_ hitem
  rw [hmark]
  exact run_memberEnd b hc

/-!
## The end of a body
-/

/-- Blanks on their own lie in front of the end of a member or behind it as a whole. -/
theorem inGap?_triviaOfBlank (operators : Bool) (ts : List Token) (b : List Char) :
    Semicolon.inGap? operators ts (Gap.triviaOfBlank b) = none \/
      Semicolon.inGap? operators ts (Gap.triviaOfBlank b) = some (Gap.triviaOfBlank b) := by
  cases b with
  | nil =>
      rw [Gap.triviaOfBlank, Semicolon.inGap?]
      split
      · exact .inr rfl
      · exact .inl rfl
  | cons c b =>
      rw [Gap.triviaOfBlank, Semicolon.inGap?]
      split
      · split
        · exact .inr rfl
        · exact .inl rfl
      · exact .inl rfl
      · split
        · exact .inr rfl
        · exact .inl rfl

theorem automaticSemicolon?_mark (operators : Bool) (b : List Char) (c : Char) (row : Nat)
    (rest : List Token) :
    automaticSemicolon? operators ((Lexeme.mark b c).token row :: rest) = none \/
      automaticSemicolon? operators ((Lexeme.mark b c).token row :: rest) =
        some ((Lexeme.mark b c).token row :: rest) := by
  have hgap : ((Lexeme.mark b c).token row).gap = Gap.triviaOfBlank b := rfl
  rcases inGap?_triviaOfBlank operators ((Lexeme.mark b c).token row :: rest) b with hnone | hsome
  · refine .inl ?_
    rw [automaticSemicolon?, hgap, hnone]
    rfl
  · refine .inr ?_
    rw [automaticSemicolon?, hgap, hsome]
    rfl

theorem run_automaticSemicolon_none {operators : Bool}
    (h : automaticSemicolon? operators ts = none) : (automaticSemicolon operators).run ts = none := by
  simp only [automaticSemicolon, StateT.run_bind, StateT.run_get, Option.pure_def,
    Option.bind_eq_bind, Option.bind_some, h]
  rfl

theorem run_memberEnd_brace (b : List Char) (row : Nat) (rest : List Token) :
    memberEnd.run ((Lexeme.mark b '\x7d').token row :: rest) = none \/
      memberEnd.run ((Lexeme.mark b '\x7d').token row :: rest) =
        some ([], (Lexeme.mark b '\x7d').token row :: rest) := by
  rcases automaticSemicolon?_mark false b '\x7d' row rest with hnone | hsome
  · refine .inl ?_
    simp [memberEnd, run_commentItems, run_either?, run_automaticSemicolon_none hnone]
  · refine .inr ?_
    simp [memberEnd, run_commentItems, run_either?, automaticSemicolon, hsome, Token.gapRead]

theorem run_furtherMember_brace {ts : List Token} {t : Token} (h : t.isMark '\x7d' = true)
    (hend : memberEnd.run ts = none \/ memberEnd.run ts = some ([], t :: rest)) :
    (furtherMember g).run ts = none := by
  rcases hend with hnone | hsome
  · exact run_bind_none hnone
  · have hmember : (member g).run (t :: rest) = none := run_member_none h
    simp [furtherMember, hsome, memberItems, run_commentItems, asItem, hmember]

/-- What stands behind the last member is read with nothing left in front of the brace. -/
theorem run_trailing_spelled {closing : List Lexeme} (h : closing = [] \/ IsSeparator closing)
    (b : List Char) (row : Nat) (rest : List Token) :
    exists row' trailing,
      (furtherMember g).run (Lexeme.place row (closing ++ [.mark b '\x7d']) ++ rest) = none /\
        (optional? memberEnd).run (Lexeme.place row (closing ++ [.mark b '\x7d']) ++ rest) =
          some (trailing, (Lexeme.brace (.ofBlank b)).token row' :: rest) /\
        trailing.getD [] = [] := by
  rcases h with rfl | ⟨b', c, hc, rfl⟩
  · have hend := run_memberEnd_brace b row rest
    have hnone := @run_furtherMember_brace g _ _ _ (by simp) hend
    rcases hend with hend | hend
    · exact ⟨row, none, hnone, run_optional?_none hend, rfl⟩
    · exact ⟨row, some [], hnone, run_optional?_some hend, rfl⟩
  · have hend := fun ts => @run_memberEnd row ts b' c hc
    refine ⟨_, some [], run_furtherMember_brace ?_ (.inr (hend _)), run_optional?_some (hend _), rfl⟩
    simp

/-!
## Bodies
-/

theorem ends_separator {closing : List Lexeme} (h : IsSeparator closing) (more : List Lexeme)
    (row : Nat) (rest : List Token) :
    Ends memberEnds (Lexeme.place row (closing ++ more) ++ rest) := by
  obtain ⟨b, c, hc, rfl⟩ := h
  exact (ends_mark b hc row _).mono (by decide)

theorem run_objectMembers_empty (b b' : List Char) (row : Nat) (rest : List Token) :
    (objectMembers g).run (Lexeme.place row [.mark b '\x7b', .mark b' '\x7d'] ++ rest) =
      some ((false, []), rest) := by
  have hclose := run_closeMembers (.ofBlank b') (row + Lexeme.rows [.mark b '\x7b']) rest
  have hopen : forall ts, (mark '\x7b').run ((Lexeme.mark b '\x7b').token row :: ts) =
      some ((Lexeme.mark b '\x7b').token row, ts) := fun ts => run_mark (by simp)
  have hbar : forall row, ((Lexeme.mark b' '\x7d').token row).isMark '|' = false := by simp
  rw [Lexeme.place_cons, Lexeme.place_cons, Lexeme.place_nil, List.cons_append, List.cons_append,
    List.nil_append]
  simp only [objectMembers, StateT.run_bind, hopen, run_atMark, run_peek, hbar,
    Option.bind_eq_bind, Option.bind_some, Bool.false_and, Bool.false_eq_true, if_false]
  exact run_orElse_some hclose

theorem run_furtherMembers_spelled (hg : ReadsSpellings g n) {more : List (Neighbor Signature)}
    (h : forall m, m ∈ more -> Spelled m.value m.lexemes)
    (hbetween : forall m, m ∈ more -> IsSeparator m.between) (hstands : forall m, m ∈ more -> m.Stands)
    (hsize : (Neighbor.lexemesOf more).length ≤ n) (hrest : Ends memberEnds rest)
    (hnone : (furtherMember g).run rest = none) (row : Nat) :
    Ends memberEnds (Lexeme.place row (Neighbor.lexemesOf more) ++ rest) /\
      exists chunks,
        (many (furtherMember g)).run (Lexeme.place row (Neighbor.lexemesOf more) ++ rest) =
          some (chunks, rest) /\
        Item.arrange (some row) chunks.flatten =
          more.map fun m => .node m.apart m.value.member := by
  have hnext : forall m, m ∈ more -> forall row rest,
      Ends memberEnds (Lexeme.place row (m.between ++ m.lexemes) ++ rest) :=
    fun m hm row rest => ends_separator (hbetween m hm) _ row rest
  have hread : forall m, m ∈ more ->
      ReadsNeighbor (Ends memberEnds) (furtherMember g) id Signature.member m :=
    fun m hm => readsNeighbor_member hg (h m hm) (hbetween m hm)
      (Nat.le_trans (Neighbor.length_le_of_mem hm) hsize)
  have hfuel : more.length ≤ (Lexeme.place row (Neighbor.lexemesOf more) ++ rest).length := by
    have hle := Neighbor.length_le_lexemesOf fun m hm => (h m hm).ne_nil
    rw [List.length_append, Lexeme.length_place]
    omega
  obtain ⟨chunks, hmany, harrange⟩ := run_neighbors hread hstands hnext hrest hnone hfuel row
  rw [Piece.map_id, List.map_id] at harrange
  exact ⟨ends_lexemesOf hnext hrest row, chunks, run_many hmany, harrange⟩

theorem run_objectMembers_spelled (hg : ReadsSpellings g n) {ss : List (Bool × Signature)}
    (h : SpelledAll ss ls) (hsize : ls.length ≤ n) (b b' : List Char) (row : Nat)
    (rest : List Token) :
    exists items,
      (objectMembers g).run
          (Lexeme.place row (.mark b '\x7b' :: ls ++ [.mark b' '\x7d']) ++ rest) =
        some ((false, items), rest) /\
      Item.arrange none items = ss.map fun s => .node s.1 s.2.member := by
  cases h with
  | nil => exact ⟨[], run_objectMembers_empty b b' row rest, rfl⟩
  | @cons first ls closing more hfirst hmore hbetween hstands hclosing =>
      simp only [List.length_append] at hsize
      obtain ⟨row₁, hrow₁⟩ : exists row₁, row₁ = row + Lexeme.rows [.mark b '\x7b'] := ⟨_, rfl⟩
      obtain ⟨row₂, hrow₂⟩ : exists row₂, row₂ = row₁ + Lexeme.rows ls := ⟨_, rfl⟩
      obtain ⟨row₃, hrow₃⟩ : exists row₃, row₃ = row₂ + Lexeme.rows (Neighbor.lexemesOf more) :=
        ⟨_, rfl⟩
      have hplace : Lexeme.place row (.mark b '\x7b' :: (ls ++ Neighbor.lexemesOf more ++ closing) ++
          [.mark b' '\x7d']) ++ rest =
          (Lexeme.mark b '\x7b').token row :: (Lexeme.place row₁ ls ++
            (Lexeme.place row₂ (Neighbor.lexemesOf more) ++
              (Lexeme.place row₃ (closing ++ [.mark b' '\x7d']) ++ rest))) := by
        simp [hrow₁, hrow₂, hrow₃]
      obtain ⟨row₄, trailing, hnone, htrailing, hempty⟩ :=
        @run_trailing_spelled g _ hclosing b' row₃ rest
      have hlast : Ends memberEnds (Lexeme.place row₃ (closing ++ [.mark b' '\x7d']) ++ rest) := by
        rcases hclosing with rfl | hseparator
        · exact ends_mark b' (by decide) row₃ _
        · exact ends_separator hseparator _ row₃ rest
      obtain ⟨hends, chunks, hmany, harrange⟩ :=
        run_furtherMembers_spelled hg hmore hbetween hstands (by omega) hlast hnone row₂
      have hitems := run_memberItems_spelled hg hfirst (by omega) row₁ hends
      have hclose := run_closeMembers (.ofBlank b') row₄ rest
      obtain ⟨l, more', b'', rfl, hgap, hkind⟩ := hfirst.eq_cons
      rw [hplace]
      rw [Lexeme.place_cons, List.cons_append] at hitems ⊢
      refine ⟨_, run_objectMembers_filled (by simp) (by rwa [Lexeme.token_kind]) hitems hmany
        htrailing hclose, ?_⟩
      have hcomments : (Piece.commentItems row₄ (Gap.ofBlank b').comments : List (Item Member)) = [] :=
        rfl
      rw [hempty, hcomments, List.append_nil, List.append_nil, List.singleton_append, Item.arrange,
        Item.endRow, ← hrow₂, harrange, List.map_cons, List.map_map]
      rfl

end Parser
end TypeScript
end SchemaTypes
