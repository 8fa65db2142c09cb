import SchemaTypes.Proofs.TypeScript.ItemReading
import SchemaTypes.Proofs.TypeScript.Signature

/-!
# Members of interfaces

The lexemes of a member, the canonical members, which their lexemes spell without loss, and
how a body of such members is read.
-/

namespace SchemaTypes
namespace TypeScript

/-!
## Lexemes
-/

namespace Member

/-- The lexemes of the pieces of a property, the first of them behind a gap. -/
def lexemesFrom (g : Gap) : List MemberPiece -> List Lexeme
  | [] => []
  | .modifier s :: rest => .word g s :: lexemesFrom (.ofBlank [' ']) rest
  | .name n :: rest => n.lexeme g :: lexemesFrom (.ofBlank []) rest
  | .optional :: rest => .mark [] '?' :: lexemesFrom (.ofBlank []) rest
  | .declared t :: rest => .mark [] ':' :: t.lexemes [' '] ++ lexemesFrom (.ofBlank []) rest

def lexemes (g : Gap) : Member -> List Lexeme
  | property pieces => lexemesFrom g pieces
  | text s => Lexeme.withGap g (Lexeme.ofText s)

/-!
## Canonical properties
-/

def tail (optional : Bool) (declared : Option TypeTree) : List MemberPiece :=
  (if optional then [.optional] else []) ++ declared.toList.map .declared

/-- A name behind modifiers, at most one of every list. -/
inductive Modified : List (List String) -> List MemberPiece -> Prop where
  | name {n : PropertyName} (hname : n.isCanonical = true) (optional : Bool)
      {declared : Option TypeTree}
      (hdeclared : forall t, declared = some t -> t.Canonical /\ t.isConstant = false)
      (groups : List (List String)) : Modified groups (.name n :: tail optional declared)
  | taken {ws : List String} {more : List (List String)} {s : List Char} {rest : List MemberPiece}
      (hs : ws.any (s == ·.toList) = true) (h : Modified more rest) :
      Modified (ws :: more) (.modifier s :: rest)
  | passed {ws : List String} {more : List (List String)} {s : List Char} {rest : List MemberPiece}
      (hs : ws.any (s == ·.toList) = false) (h : Modified more (.modifier s :: rest)) :
      Modified (ws :: more) (.modifier s :: rest)

/-- The word that opens a signature where no modifier stands in front of it. -/
def isAbstract : List MemberPiece -> Bool
  | .name n :: _ => !n.quoted && n.text == "abstract".toList
  | _ => false

/-- A name and the call behind it. -/
inductive IsMethod : List Lexeme -> Prop where
  | named {n : PropertyName} {call : List Lexeme} (optional : Bool) (hname : n.isCanonical = true)
      (hword : n.quoted = true \/ n.text ∉ ["abstract".toList, "new".toList])
      (hcall : Signature.IsCall call) :
      IsMethod (n.lexeme (.ofBlank []) :: (Signature.question optional ++ call))

inductive Canonical : Member -> Prop where
  | property {pieces : List MemberPiece} (h : Modified Parser.propertyModifiers pieces)
      (habstract : isAbstract pieces = false) : Canonical (property pieces)
  | method {s : List Char} (h : Lexeme.SpelledAs IsMethod s) (hprint : print (text s) = s) :
      Canonical (text s)

example : Canonical (.text "find(id: Id): T".toList) := by
  have hid : (TypeTree.text "Id".toList).Legible [.word (.ofBlank [' ']) "Id".toList] :=
    .printed (.text (.inl (by decide))) [' ']
  have hresult : (TypeTree.text ['T']).Legible [.word (.ofBlank [' ']) ['T']] :=
    .printed (.text (.inl (by decide))) [' ']
  have hparameter : Signature.IsParameter
      [.word (.ofBlank []) "id".toList, .mark [] ':', .word (.ofBlank [' ']) "Id".toList] :=
    .named [] false (by decide) (.type [] hid)
  have hcall := Signature.IsCall.signature (.inl rfl)
    (.some [] (@Header.IsList.items _ _ [] hparameter nofun)) (.type [] hresult)
    (by simp [Signature.IsPlain, Signature.typeMark])
  have hmethod := @IsMethod.named ⟨"find".toList, false⟩ _ false (by decide) (by decide) hcall
  refine .method ⟨_, hmethod, ?_, rfl⟩ rfl
  simp [Lexeme.Apart, Signature.question, Signature.typeMark]
  decide

def isTail : List MemberPiece -> Bool
  | [] => true
  | [.optional] => true
  | [.declared t] => t.isCanonical && !t.isConstant
  | [.optional, .declared t] => t.isCanonical && !t.isConstant
  | _ => false

def isModified : List (List String) -> List MemberPiece -> Bool
  | _, .name n :: rest => n.isCanonical && isTail rest
  | ws :: more, .modifier s :: rest =>
      if ws.any (s == ·.toList) then isModified more rest else isModified more (.modifier s :: rest)
  | _, _ => false

def isCanonical : Member -> Bool
  | property pieces => isModified Parser.propertyModifiers pieces && !isAbstract pieces
  | text _ => false

theorem tail_of_isTail {pieces : List MemberPiece} (h : isTail pieces = true) :
    exists optional declared, pieces = tail optional declared /\
      forall t, declared = some t -> t.Canonical /\ t.isConstant = false := by
  have hcanonical : forall {t : TypeTree}, (t.isCanonical && !t.isConstant) = true ->
      forall u, some t = some u -> u.Canonical /\ u.isConstant = false := by
    rintro t ht u ⟨⟩
    rw [Bool.and_eq_true, Bool.not_eq_true'] at ht
    exact ⟨TypeTree.canonical_of_isCanonical t ht.left, ht.right⟩
  unfold isTail at h
  split at h
  · exact ⟨false, none, rfl, by simp⟩
  · exact ⟨true, none, rfl, by simp⟩
  · exact ⟨false, some _, rfl, hcanonical h⟩
  · exact ⟨true, some _, rfl, hcanonical h⟩
  · cases h

theorem modified_of_isModified {groups : List (List String)} {pieces : List MemberPiece}
    (h : isModified groups pieces = true) : Modified groups pieces := by
  fun_induction isModified groups pieces with
  | case1 groups n rest =>
      rw [Bool.and_eq_true] at h
      obtain ⟨optional, declared, rfl, hdeclared⟩ := tail_of_isTail h.right
      exact .name h.left optional hdeclared groups
  | case2 ws more s rest hs ih => exact .taken hs (ih h)
  | case3 ws more s rest hs ih => exact .passed (by simpa using hs) (ih h)
  | case4 => cases h

theorem canonical_of_isCanonical {m : Member} (h : m.isCanonical = true) : m.Canonical := by
  cases m with
  | property pieces =>
      rw [isCanonical, Bool.and_eq_true, Bool.not_eq_true'] at h
      exact .property (modified_of_isModified h.left) h.right
  | text s => cases h

/-!
## Printed properties
-/

section

open Lexeme

theorem source_tail (optional : Bool) {declared : Option TypeTree}
    (h : forall t, declared = some t -> t.Canonical /\ t.isConstant = false) (g : Gap) :
    source (lexemesFrom g (tail optional declared)) =
      (tail optional declared).flatMap MemberPiece.print := by
  have hdeclared : forall g, source (lexemesFrom g (declared.toList.map .declared)) =
      (declared.toList.map MemberPiece.declared).flatMap MemberPiece.print := by
    intro g
    cases declared with
    | none => rfl
    | some t =>
        have ht := TypeTree.source_lexemes (h t rfl).left [' ']
        simp [lexemesFrom, MemberPiece.print, ht]
  cases optional with
  | false => exact hdeclared g
  | true => simpa [tail, lexemesFrom, MemberPiece.print] using hdeclared (.ofBlank [])

theorem source_lexemesFrom {groups : List (List String)} {pieces : List MemberPiece}
    (h : Modified groups pieces) (g : Gap) :
    source (lexemesFrom g pieces) = g.text ++ pieces.flatMap MemberPiece.print := by
  induction h generalizing g with
  | name hname optional hdeclared groups =>
      have htail := source_tail optional hdeclared (.ofBlank [])
      rw [lexemesFrom, source_cons, htail, List.flatMap_cons, MemberPiece.print,
        PropertyName.print_eq_text hname]
      simp
  | taken hs _ ih =>
      rw [lexemesFrom, source_cons, ih, List.flatMap_cons, MemberPiece.print]
      simp
  | passed hs _ ih => exact ih g

theorem withGap_method (n : PropertyName) (g g' : Gap) (ls : List Lexeme) :
    withGap g (n.lexeme g' :: ls) = n.lexeme g :: ls := by
  unfold PropertyName.lexeme leaf
  split
  · rfl
  · split <;> rfl

theorem source_lexemes {m : Member} (h : m.Canonical) (g : Gap) :
    source (m.lexemes g) = g.text ++ m.print := by
  cases h with
  | property h _ => exact source_lexemesFrom h g
  | @method s h hprint =>
      obtain ⟨hmethod, -, hsource⟩ := h.ofText
      rw [hprint, lexemes]
      generalize ofText s = ls at hmethod hsource ⊢
      cases hmethod with
      | named optional _ _ _ =>
          rw [← hsource, withGap_method]
          simp

/-!
## Properties stand apart
-/

theorem detached_tail (optional : Bool) {declared : Option TypeTree}
    (h : forall t, declared = some t -> t.Canonical /\ t.isConstant = false) (g : Gap)
    {rest : List Lexeme} (hrest : Detached rest) :
    Detached (lexemesFrom g (tail optional declared) ++ rest) := by
  have hdeclared : forall g, Detached (lexemesFrom g (declared.toList.map .declared) ++ rest) := by
    intro g
    cases declared with
    | none => exact hrest
    | some t =>
        have ht := TypeTree.apart_lexemes (h t rfl).left (show isPad [' '] = true from rfl) hrest
        have hcolon := detached_mark (show isPad [] = true from rfl) (show isLoneMark ':' = true from rfl) ht
        simpa [lexemesFrom] using hcolon
  cases optional with
  | false => exact hdeclared g
  | true => exact detached_mark rfl rfl (hdeclared (.ofBlank [])).left

theorem isWordText_of_propertyModifiers {ws : List String}
    (hws : ws ∈ Parser.propertyModifiers) {s : List Char} (hs : ws.any (s == ·.toList) = true) :
    isWordText s = true := by
  have hall : forall ws, ws ∈ Parser.propertyModifiers -> forall w, w ∈ ws ->
      isWordText w.toList = true := by decide
  obtain ⟨w, hw, heq⟩ := List.any_eq_true.mp hs
  rw [eq_of_beq heq]
  exact hall ws hws w hw

theorem apart_lexemesFrom {groups : List (List String)} {pieces : List MemberPiece}
    (h : Modified groups pieces)
    (hgroups : forall ws, ws ∈ groups -> ws ∈ Parser.propertyModifiers) {g : Gap}
    (hg : g.reads = true) {rest : List Lexeme} (hrest : Detached rest) :
    Apart (lexemesFrom g pieces ++ rest) := by
  induction h generalizing g with
  | name hname optional hdeclared groups =>
      exact PropertyName.apart_lexeme hname hg (detached_tail optional hdeclared _ hrest)
  | @taken ws more s pieces hs hmore ih =>
      have hword := isWordText_of_propertyModifiers (hgroups ws List.mem_cons_self) hs
      have hnext := ih (fun vs hvs => hgroups vs (List.mem_cons_of_mem ws hvs))
        (reads_ofBlank (show isPad [' '] = true from rfl))
      refine apart_word hg hword ⟨hnext, ?_⟩
      intro m hm
      have hgap : m.gap = .ofBlank [' '] := by
        cases hmore <;> simp [lexemesFrom] at hm <;> simp [← hm]
      simp [startsApart, hgap]
  | @passed ws more s pieces hs hmore ih =>
      exact ih (fun vs hvs => hgroups vs (List.mem_cons_of_mem ws hvs)) hg

theorem apart_lexemes {m : Member} (h : m.Canonical) {g : Gap} (hg : g.reads = true)
    {rest : List Lexeme} (hrest : Detached rest) : Apart (m.lexemes g ++ rest) := by
  cases h with
  | property h _ => exact apart_lexemesFrom h (fun _ hws => hws) hg hrest
  | method h _ => exact apart_append (apart_withGap h.ofText.right.left hg) hrest

end

end Member

namespace Parser

open Member

variable {g : Grammar} {row : Nat} {rest ts : List Token}

/-!
## Modifiers
-/

theorem run_anyM {p : String -> Parser Bool} {b : String -> Bool} {ws : List String}
    (h : forall w, w ∈ ws -> (p w).run ts = some (b w, ts)) :
    (ws.anyM p).run ts = some (ws.any b, ts) := by
  induction ws with
  | nil => rfl
  | cons w ws ih =>
      have hmore := ih fun v hv => h v (List.mem_cons_of_mem w hv)
      have hfirst := h w List.mem_cons_self
      rw [List.anyM]
      cases hb : b w <;> simp [hfirst, hb, hmore]

theorem run_commentPieces {t : Token} :
    commentPieces.run (t :: ts) =
      some (t.comments.map fun c => MemberPiece.modifier c.text, t :: ts) :=
  rfl

theorem run_atModifier {t : Token} {l : Lexeme} {b : List Char} (hgap : l.gap = .ofBlank b)
    (hb : isRowBlank b = true) (hkind : l.kind = .word \/ l.kind = .string \/ l.kind = .number) (w : String) :
    (atModifier w).run (t :: l.token row :: rest) =
      some (t.isWord w, t :: l.token row :: rest) := by
  have hbrace : (l.token row).isMark '\x7d' = false := by
    refine Token.isMark_of_kind ?_ _
    rw [Lexeme.token_kind]
    rcases hkind with hkind | hkind | hkind <;> rw [hkind] <;> decide
  have hend : l.kind ≠ .endOfSource := by
    rcases hkind with hkind | hkind | hkind <;> rw [hkind] <;> decide
  have hends := endsBefore_token .typeEnding hgap hb hbrace hend rest
  rcases hkind with hkind | hkind | hkind <;> simp [atModifier, hends, hkind]

theorem run_atModifier_none {t u : Token} {c : Char} (hu : u.isMark c = true)
    (hc : c ∉ ['[', '*']) (w : String) :
    (atModifier w).run (t :: u :: ts) = some (false, t :: u :: ts) := by
  have hne : c ≠ '[' /\ c ≠ '*' := by simpa using hc
  simp [atModifier, Token.kind_of_isMark hu, Token.isMark_of_isMark hu hne.left,
    Token.isMark_of_isMark hu hne.right]

theorem run_modifierPieces {t : Token} {ws : List String}
    (hfound : (ws.anyM atModifier).run (t :: ts) = some (true, t :: ts))
    (hkind : t.kind ≠ .endOfSource) :
    (modifierPieces ws).run (t :: ts) =
      some (t.comments.map (fun c => .modifier c.text) ++ [.modifier t.text], ts) := by
  simp [modifierPieces, hfound, run_commentPieces, run_advance hkind]

theorem run_modifierPieces_none {ws : List String}
    (hfound : (ws.anyM atModifier).run ts = some (false, ts)) :
    (modifierPieces ws).run ts = some ([], ts) := by
  simp [modifierPieces, hfound]

theorem run_modifierPieces_taken {ws : List String} {s : List Char}
    (hs : ws.any (s == ·.toList) = true) {l : Lexeme} {b : List Char} (hgap : l.gap = .ofBlank b)
    (hb : isRowBlank b = true) (hkind : l.kind = .word \/ l.kind = .string \/ l.kind = .number)
    (gap : Gap) (row : Nat) (ts : List Token) :
    (modifierPieces ws).run
        ((Lexeme.word gap s).token row :: l.token (row + Lexeme.rows [.word gap s]) :: ts) =
      some (((Lexeme.word gap s).token row).comments.map (fun c => .modifier c.text) ++
        [.modifier ((Lexeme.word gap s).token row).text],
          l.token (row + Lexeme.rows [.word gap s]) :: ts) := by
  refine run_modifierPieces ?_ (by simp)
  rw [run_anyM fun w _ => run_atModifier hgap hb hkind w]
  simpa using hs

theorem run_modifierPieces_passed {ws : List String} {s : List Char}
    (hs : ws.any (s == ·.toList) = false) (gap : Gap) (row : Nat) (ts : List Token) :
    (modifierPieces ws).run ((Lexeme.word gap s).token row :: ts) =
      some ([], (Lexeme.word gap s).token row :: ts) := by
  refine run_modifierPieces_none ?_
  have hat : forall w, w ∈ ws -> (atModifier w).run ((Lexeme.word gap s).token row :: ts) =
      some (false, (Lexeme.word gap s).token row :: ts) := by
    intro w hw
    have hword : ((Lexeme.word gap s).token row).isWord w = false := by
      simpa using List.any_eq_false.mp hs w hw
    cases ts <;> simp [atModifier, hword]
  rw [run_anyM hat]
  simp

theorem run_modifierPieces_mark {t u : Token} {c : Char} (hu : u.isMark c = true)
    (hc : c ∉ ['[', '*']) (ws : List String) :
    (modifierPieces ws).run (t :: u :: ts) = some ([], t :: u :: ts) := by
  refine run_modifierPieces_none ?_
  rw [run_anyM fun w _ => run_atModifier_none hu hc w]
  simp

theorem run_modifiers_cons {ws : List String} {more : List (List String)} {ps ms : List MemberPiece}
    {mid : List Token} (h : (modifierPieces ws).run ts = some (ps, mid))
    (hmore : (modifiers more).run mid = some (ms, rest)) :
    (modifiers (ws :: more)).run ts = some (ps ++ ms, rest) := by
  simp [modifiers, h, hmore]

theorem run_modifiers_mark {t u : Token} {c : Char} (hu : u.isMark c = true)
    (hc : c ∉ ['[', '*']) (groups : List (List String)) :
    (modifiers groups).run (t :: u :: ts) = some ([], t :: u :: ts) := by
  induction groups with
  | nil => rfl
  | cons ws more ih => simp [modifiers, run_modifierPieces_mark hu hc, ih]

theorem kind_lexeme (n : PropertyName) (gap : Gap) :
    (n.lexeme gap).kind = .word \/ (n.lexeme gap).kind = .string \/
      (n.lexeme gap).kind = .number := by
  rw [PropertyName.lexeme, Lexeme.leaf]
  split
  · exact .inr (.inl Lexeme.string_kind)
  · split
    · exact .inr (.inr Lexeme.number_kind)
    · exact .inl Lexeme.word_kind

theorem kind_lexeme_ne_mark (n : PropertyName) (gap : Gap) : (n.lexeme gap).kind ≠ .mark := by
  rcases kind_lexeme n gap with hkind | hkind | hkind <;> rw [hkind] <;> decide

theorem lexemesFrom_eq_cons {groups : List (List String)} {pieces : List MemberPiece}
    (h : Modified groups pieces) (gap : Gap) :
    exists l ls, lexemesFrom gap pieces = l :: ls /\ l.gap = gap /\
      (l.kind = .word \/ l.kind = .string \/ l.kind = .number) := by
  induction h with
  | @name n hname optional declared _ _ =>
      exact ⟨_, _, rfl, PropertyName.lexeme_gap gap n, kind_lexeme n gap⟩
  | taken _ _ _ => exact ⟨_, _, rfl, Lexeme.word_gap, .inl Lexeme.word_kind⟩
  | passed _ _ ih => exact ih

/-!
## Names and what stands behind them
-/

theorem place_tail_eq_cons (optional : Bool) (declared : Option TypeTree) (row : Nat)
    (hrest : Ends [';'] rest) :
    exists u us c,
      Lexeme.place row (lexemesFrom (.ofBlank []) (tail optional declared)) ++ rest = u :: us /\
        c ∈ [':', '?', ';'] /\ u.isMark c = true := by
  obtain ⟨t, ts, c, rfl, hc, ht⟩ := hrest
  cases optional with
  | true => exact ⟨_, _, '?', rfl, by decide, by simp⟩
  | false =>
      cases declared with
      | none => exact ⟨t, ts, c, rfl, List.mem_cons_of_mem _ (List.mem_cons_of_mem _ hc), ht⟩
      | some t => exact ⟨_, _, ':', rfl, by decide, by simp⟩

theorem run_optionalPieces_mark {b : List Char} (hb : isRowBlank b = true) (row : Nat)
    (ts : List Token) :
    optionalPieces.run ((Lexeme.mark b '?').token row :: ts) = some ([.optional], ts) := by
  have hends := endsBefore_mark .typeEnding hb (show '?' ≠ '\x7d' by decide) row ts
  simp [optionalPieces, run_atMark, run_endsHere, hends, run_commentPieces, run_advance, comments_mark]

theorem run_optionalPieces_none {t : Token} (h : t.isMark '?' = false) :
    optionalPieces.run (t :: ts) = some ([], t :: ts) := by
  simp [optionalPieces, run_atMark, run_endsHere, h]

theorem run_optionalPieces (optional : Bool) (declared : Option TypeTree) (row : Nat)
    (hrest : Ends [';'] rest) :
    exists row', optionalPieces.run
        (Lexeme.place row (lexemesFrom (.ofBlank []) (tail optional declared)) ++ rest) =
      some ((if optional then [.optional] else []),
        Lexeme.place row' (lexemesFrom (.ofBlank []) (tail false declared)) ++ rest) := by
  cases optional with
  | true => exact ⟨row + Lexeme.rows [.mark [] '?'], run_optionalPieces_mark rfl row _⟩
  | false =>
      refine ⟨row, ?_⟩
      obtain ⟨t, ts, c, rfl, hc, ht⟩ := hrest
      have hquestion : t.isMark '?' = false := by
        refine Token.isMark_of_isMark ht ?_
        rintro rfl
        revert hc
        decide
      cases declared with
      | none => exact run_optionalPieces_none hquestion
      | some t => exact run_optionalPieces_none (by simp)

theorem run_declaredType_of {t : TypeTree} {ls : List Lexeme} {context : Context}
    (hconstant : t.isConstant = false)
    (hcomments : forall row, commentTypes.run (Lexeme.place row ls ++ rest) =
      some ([], Lexeme.place row ls ++ rest))
    (hread : forall row, (g.type context).run (Lexeme.place row ls ++ rest) = some (t, rest))
    (b : List Char) (row : Nat) :
    (declaredType g context).run (Lexeme.place row (.mark b ':' :: ls) ++ rest) = some (t, rest) := by
  have hmark : forall ts, (mark ':').run ((Lexeme.mark b ':').token row :: ts) = some (_, ts) :=
    fun ts => run_mark (by simp)
  have hwithText : (withText (do
      let _ ← mark ':'
      let before ← commentTypes
      return before ++ (← g.type context).parts)).run
        (Lexeme.place row (.mark b ':' :: ls) ++ rest) =
      some (([t], Token.written (Lexeme.place row (.mark b ':' :: ls))), rest) := by
    refine run_withText ?_
    rw [Lexeme.place_cons, List.cons_append]
    simp only [StateT.run_bind, hmark, hcomments, hread, StateT.run_pure, Option.pure_def,
      Option.bind_eq_bind, Option.bind_some, parts_of_not_constant hconstant, List.nil_append]
  simp only [declaredType, StateT.run_bind, hwithText, Option.bind_eq_bind, Option.bind_some]
  rfl

theorem run_declaredType {t : TypeTree} (hread : ReadsType g t) (h : t.Canonical)
    (hconstant : t.isConstant = false) (b : List Char) (context : Context) (row : Nat)
    (hrest : Closes typeClosers rest) :
    (declaredType g context).run
        (Lexeme.place row (.mark b ':' :: t.lexemes [' ']) ++ rest) = some (t, rest) :=
  run_declaredType_of hconstant (fun row => run_commentTypes_place h [' '] row rest)
    (fun row => hread context [' '] row rest hrest) b row

theorem run_declaredPieces_of {t : TypeTree} {ls : List Lexeme} {b : List Char}
    (hb : isRowBlank b = true) (row : Nat)
    (h : (declaredType g .typeEnding).run (Lexeme.place row (.mark b ':' :: ls) ++ rest) =
      some (t, rest)) :
    (declaredPieces g).run (Lexeme.place row (.mark b ':' :: ls) ++ rest) =
      some ([.declared t], rest) := by
  have hends := fun ts => endsBefore_mark .typeEnding hb (show ':' ≠ '\x7d' by decide) row ts
  rw [Lexeme.place_cons, List.cons_append] at h ⊢
  simp [declaredPieces, run_atMark, run_endsHere, hends, run_commentPieces, comments_mark, h]

theorem run_declaredPieces {declared : Option TypeTree}
    (hread : forall t, declared = some t -> ReadsType g t)
    (h : forall t, declared = some t -> t.Canonical /\ t.isConstant = false) (row : Nat)
    (hrest : Ends [';'] rest) :
    (declaredPieces g).run
        (Lexeme.place row (lexemesFrom (.ofBlank []) (tail false declared)) ++ rest) =
      some (declared.toList.map .declared, rest) := by
  have hcloses : Closes typeClosers rest :=
    Closes.mono (hrest.closes (by decide)) (by decide)
  cases declared with
  | none =>
      obtain ⟨t, ts, c, rfl, hc, ht⟩ := hrest
      have hcolon : t.isMark ':' = false := by
        refine Token.isMark_of_isMark ht ?_
        rintro rfl
        revert hc
        decide
      simp [tail, lexemesFrom, declaredPieces, run_atMark, run_endsHere, hcolon]
  | some t =>
      have htype := run_declaredType (hread t rfl) (h t rfl).left (h t rfl).right [] .typeEnding row
        hcloses
      simpa [tail, lexemesFrom] using run_declaredPieces_of rfl row htype

/-!
## Properties
-/

def commentPiecesOf (row : Nat) (gap : Gap) : List MemberPiece :=
  (Gap.placedComments row gap.comments).map fun c => .modifier c.text

theorem commentPiecesOf_ofBlank (row : Nat) (b : List Char) :
    commentPiecesOf row (.ofBlank b) = [] :=
  rfl

theorem run_modifiers {groups : List (List String)} {pieces : List MemberPiece}
    (h : Modified groups pieces) (gap : Gap) (row : Nat) (hrest : Ends [';'] rest) :
    exists ms n optional declared gap' row',
      (modifiers groups).run (Lexeme.place row (lexemesFrom gap pieces) ++ rest) =
        some (ms, Lexeme.place row' (lexemesFrom gap' (.name n :: tail optional declared)) ++ rest) /\
      ms ++ commentPiecesOf row' gap' ++ .name n :: tail optional declared =
        commentPiecesOf row gap ++ pieces /\
      n.isCanonical = true /\
      (forall t, declared = some t ->
        t.Canonical /\ t.isConstant = false /\ .declared t ∈ pieces) /\
      (ms = [] -> pieces = .name n :: tail optional declared) := by
  have hmarks : forall c, c ∈ [':', '?', ';'] -> c ∉ ['[', '*'] :=
    forall_mem_of_all (by decide)
  induction h generalizing gap row with
  | @name n hname optional declared hdeclared groups =>
      refine ⟨[], n, optional, declared, gap, row, ?_, rfl, hname, ?_, fun _ => rfl⟩
      · obtain ⟨u, us, c, hus, hc, hu⟩ := place_tail_eq_cons optional declared
          (row + Lexeme.rows [n.lexeme gap]) hrest
        rw [lexemesFrom, Lexeme.place_cons, List.cons_append, hus]
        exact run_modifiers_mark hu (hmarks c hc) groups
      · rintro t rfl
        refine ⟨(hdeclared t rfl).left, (hdeclared t rfl).right, ?_⟩
        simp [tail]
  | @taken ws more s pieces hs hmore ih =>
      obtain ⟨ms, n, optional, declared, gap', row', hrun, hpieces, hname, hdeclared, -⟩ :=
        ih (.ofBlank [' ']) (row + Lexeme.rows [.word gap s])
      refine ⟨commentPiecesOf row gap ++ .modifier s :: ms, n, optional, declared, gap', row', ?_, ?_,
        hname, ?_, ?_⟩
      · obtain ⟨l, ls, hl, hgap, hkind⟩ := lexemesFrom_eq_cons hmore (.ofBlank [' '])
        rw [lexemesFrom, Lexeme.place_cons, List.cons_append]
        rw [hl, Lexeme.place_cons, List.cons_append] at hrun ⊢
        have hmodifier := run_modifierPieces_taken hs hgap rfl hkind gap row
        simp only [modifiers, StateT.run_bind, hmodifier, hrun, Option.bind_eq_bind, Option.bind_some,
          Lexeme.comments_token_eq, Lexeme.word_gap, Lexeme.token_text, Lexeme.word_text]
        simp [commentPiecesOf]
      · rw [commentPiecesOf_ofBlank, List.nil_append] at hpieces
        simp [← hpieces]
      · intro t ht
        have hmem := hdeclared t ht
        exact ⟨hmem.left, hmem.right.left, List.mem_cons_of_mem _ hmem.right.right⟩
      · intro hnil
        simp at hnil
  | @passed ws more s pieces hs hmore ih =>
      obtain ⟨ms, n, optional, declared, gap', row', hrun, hrest'⟩ := ih gap row
      refine ⟨ms, n, optional, declared, gap', row', ?_, hrest'⟩
      have hnone := run_modifierPieces_passed hs gap row
      rw [lexemesFrom, Lexeme.place_cons, List.cons_append] at hrun ⊢
      simp [modifiers, hnone, hrun, -Lexeme.place_append]

theorem eq_of_isWord_lexeme {n : PropertyName} {gap : Gap} {w : String}
    (h : ((n.lexeme gap).token row).isWord w = true) : n.quoted = false /\ n.text = w.toList := by
  rw [PropertyName.lexeme] at h
  split at h
  · simp at h
  · rename_i hquoted
    refine ⟨by simpa using hquoted, ?_⟩
    rw [Token.isWord, Bool.and_eq_true, Lexeme.token_text, Lexeme.leaf_text] at h
    exact eq_of_beq h.right

theorem isWord_abstract_eq_false {n : PropertyName} {rest : List MemberPiece}
    (h : isAbstract (.name n :: rest) = false) (gap : Gap) (row : Nat) :
    ((n.lexeme gap).token row).isWord "abstract" = false := by
  rw [isAbstract] at h
  cases hisWord : ((n.lexeme gap).token row).isWord "abstract" with
  | false => rfl
  | true =>
      obtain ⟨hquoted, htext⟩ := eq_of_isWord_lexeme hisWord
      simp [hquoted, htext] at h

/-- The rule of a named member for what stands behind the name. -/
def behindName (g : Grammar) (pieces : List MemberPiece) : Parser (List MemberPiece × Bool) := do
  let call := (← atMark '(') || (← atMark '<')
  if call && !(← endsHere .typeEnding) then
    callSignature g .typeEnding
    return ([], true)
  else
    let declared ← declaredPieces g
    return (pieces ++ declared, false)

theorem run_namedPieces_of {ms os : List MemberPiece} {n : PropertyName} {gap : Gap} {u : Token}
    {us vs : List Token} {c : Char}
    (hmodifiers : (modifiers propertyModifiers).run ts =
      some (ms, (n.lexeme gap).token row :: u :: us))
    (hu : u.isMark c = true) (hc : c ∉ ['[', '*'])
    (hword : (!ms.isEmpty || !((n.lexeme gap).token row).isWord "abstract") = true)
    (hname : n.quoted = false -> isWordText n.text = true \/ isWholeNumber n.text = true)
    (hoptional : optionalPieces.run (u :: us) = some (os, vs)) :
    (namedPieces g).run ts =
      (behindName g (ms ++ commentPiecesOf row gap ++ .name n :: os)).run vs := by
  have hasync : forall ws, (modifierPieces ws).run ((n.lexeme gap).token row :: u :: us) =
      some ([], (n.lexeme gap).token row :: u :: us) := run_modifierPieces_mark hu hc
  have hstar : ((n.lexeme gap).token row).isMark '*' = false := by
    rw [PropertyName.lexeme]
    split <;> simp
  have hstarRun : (mark? '*').run ((n.lexeme gap).token row :: u :: us) =
      some (false, (n.lexeme gap).token row :: u :: us) := by
    rw [run_mark?, hstar]
    rfl
  have hcomments : ((n.lexeme gap).token row).comments.map (fun c => MemberPiece.modifier c.text) =
      commentPiecesOf row gap := by
    rw [Lexeme.comments_token_eq, PropertyName.lexeme_gap, commentPiecesOf]
  refine (run_bind_some hmodifiers).trans ?_
  refine (run_bind_some (hasync _)).trans ((run_bind_some (hasync _)).trans ?_)
  refine (run_bind_some hstarRun).trans ((run_bind_some run_commentPieces).trans ?_)
  refine (run_bind_some (run_atWord "abstract")).trans ?_
  rw [hword]
  refine (run_bind_some run_require_true).trans ?_
  refine (run_bind_some (run_propertyName hname gap row (u :: us))).trans ?_
  refine (run_bind_some hoptional).trans ?_
  rw [hcomments]
  rfl

theorem run_behindName {v : Token} {vs : List Token} {ds : List MemberPiece}
    (hparenthesis : v.isMark '(' = false) (hangle : v.isMark '<' = false)
    (hdeclared : (declaredPieces g).run (v :: vs) = some (ds, rest)) (pieces : List MemberPiece) :
    (behindName g pieces).run (v :: vs) = some ((pieces ++ ds, false), rest) := by
  simp [behindName, run_atMark, run_endsHere, hparenthesis, hangle, hdeclared]

theorem run_namedPieces {pieces : List MemberPiece} (h : Modified propertyModifiers pieces)
    (habstract : isAbstract pieces = false) (hread : forall t, .declared t ∈ pieces -> ReadsType g t)
    (gap : Gap) (row : Nat) (hrest : Ends [';'] rest) :
    (namedPieces g).run (Lexeme.place row (lexemesFrom gap pieces) ++ rest) =
      some ((commentPiecesOf row gap ++ pieces, false), rest) := by
  obtain ⟨ms, n, optional, declared, gap', row', hrun, hpieces, hname, hdeclared, hplain⟩ :=
    run_modifiers h gap row hrest
  have hmarks : forall c, c ∈ [':', '?', ';'] -> c ∉ ['[', '*', '(', '<'] :=
    forall_mem_of_all (by decide)
  have hend : forall optional row₂, exists u us c,
      Lexeme.place row₂ (lexemesFrom (.ofBlank []) (tail optional declared)) ++ rest = u :: us /\
        u.isMark c = true /\ (forall d, d ∈ ['[', '*', '(', '<'] -> c ≠ d) := by
    intro optional row₂
    obtain ⟨u, us, c, hus, hc, hu⟩ := place_tail_eq_cons optional declared row₂ hrest
    refine ⟨u, us, c, hus, hu, ?_⟩
    rintro d hd rfl
    exact hmarks c hc hd
  obtain ⟨row₂, hoptional⟩ := run_optionalPieces optional declared
    (row' + Lexeme.rows [n.lexeme gap']) hrest
  have hdeclaredPieces := run_declaredPieces (fun t ht => hread t (hdeclared t ht).right.right)
    (fun t ht => ⟨(hdeclared t ht).left, (hdeclared t ht).right.left⟩) row₂ hrest
  obtain ⟨u, us, c, hus, hu, hne⟩ := hend optional (row' + Lexeme.rows [n.lexeme gap'])
  obtain ⟨v, vs, d, hvs, hv, hnext⟩ := hend false row₂
  rw [lexemesFrom, Lexeme.place_cons, List.cons_append, hus] at hrun
  rw [hus] at hoptional
  rw [hvs] at hoptional hdeclaredPieces
  have hc : c ∉ ['[', '*'] := by
    intro hmem
    exact hne c (by revert hmem; simp; rintro (rfl | rfl) <;> simp) rfl
  have hword : (!ms.isEmpty || !((n.lexeme gap').token row').isWord "abstract") = true := by
    cases ms with
    | cons m ms => rfl
    | nil =>
        rw [hplain rfl] at habstract
        rw [isWord_abstract_eq_false habstract]
        rfl
  have hparenthesis : v.isMark '(' = false := Token.isMark_of_isMark hv (hnext '(' (by simp))
  have hangle : v.isMark '<' = false := Token.isMark_of_isMark hv (hnext '<' (by simp))
  rw [run_namedPieces_of hrun hu hc hword (plain_of_isCanonical hname) hoptional,
    run_behindName hparenthesis hangle hdeclaredPieces, ← hpieces]
  simp [tail]

theorem run_namedMember_of {l : Lexeme} {ls : List Lexeme} {before pieces : List MemberPiece}
    (h : (namedPieces g).run (Lexeme.place row (l :: ls) ++ rest) =
      some ((before ++ pieces, false), rest))
    (hbefore : before.length = (l.token row).comments.length) :
    (namedMember g).run (Lexeme.place row (l :: ls) ++ rest) = some (.property pieces, rest) := by
  have hwithText := run_withText h
  have hdrop : (before ++ pieces).drop (l.token row).comments.length = pieces :=
    List.drop_left' hbefore
  rw [Lexeme.place_cons, List.cons_append] at hwithText ⊢
  simp only [namedMember, StateT.run_bind, run_comments, hwithText, Option.bind_eq_bind,
    Option.bind_some, Bool.false_eq_true, if_false, StateT.run_pure, hdrop]
  rfl

theorem run_namedMember {pieces : List MemberPiece} (h : Modified propertyModifiers pieces)
    (habstract : isAbstract pieces = false) (hread : forall t, .declared t ∈ pieces -> ReadsType g t)
    (gap : Gap) (row : Nat) (hrest : Ends [';'] rest) :
    (namedMember g).run (Lexeme.place row (lexemesFrom gap pieces) ++ rest) =
      some (.property pieces, rest) := by
  have hpieces := run_namedPieces h habstract hread gap row hrest
  obtain ⟨l, ls, hl, hgap, -⟩ := lexemesFrom_eq_cons h gap
  rw [hl] at hpieces ⊢
  refine run_namedMember_of hpieces ?_
  rw [Lexeme.comments_token_eq, hgap, commentPiecesOf, List.length_map]

theorem opensProperty {groups : List (List String)} {pieces : List MemberPiece}
    (h : Modified groups pieces) (hgroups : forall ws, ws ∈ groups -> ws ∈ propertyModifiers)
    (habstract : isAbstract pieces = false) (gap : Gap) (row : Nat) (hrest : Ends [';'] rest) :
    exists t u us, Lexeme.place row (lexemesFrom gap pieces) ++ rest = t :: u :: us /\
      t.kind ≠ .mark /\ (forall c, c ∈ "(<[*\x7b".toList -> u.isMark c = false) /\
      t.isWord "abstract" = false /\ (t.isWord "export" = true -> u.kind ≠ .word) := by
  induction h with
  | @name n hname optional declared _ _ =>
      obtain ⟨u, us, c, hus, hc, hu⟩ := place_tail_eq_cons optional declared
        (row + Lexeme.rows [n.lexeme gap]) hrest
      refine ⟨(n.lexeme gap).token row, u, us, ?_, ?_, ?_, ?_, ?_⟩
      · rw [lexemesFrom, Lexeme.place_cons, List.cons_append, hus]
      · rw [Lexeme.token_kind]
        exact kind_lexeme_ne_mark n gap
      · intro d hd
        have hne : forall c, c ∈ [':', '?', ';'] -> c ∉ "(<[*\x7b".toList :=
          forall_mem_of_all (by decide)
        refine Token.isMark_of_isMark hu ?_
        rintro rfl
        exact hne c hc hd
      · exact isWord_abstract_eq_false habstract gap row
      · intro _
        rw [Token.kind_of_isMark hu]
        decide
  | @taken ws more s pieces hs hmore ih =>
      obtain ⟨l, ls, hl, -, hkind⟩ := lexemesFrom_eq_cons hmore (.ofBlank [' '])
      have hnot : forall ws, ws ∈ propertyModifiers -> forall w, w ∈ ws ->
          (w.toList == "abstract".toList) = false /\ (w.toList == "export".toList) = false := by
        decide
      obtain ⟨w, hw, heq⟩ := List.any_eq_true.mp hs
      have hword := hnot ws (hgroups ws List.mem_cons_self) w hw
      rw [← eq_of_beq heq] at hword
      refine ⟨_, _, _, by rw [lexemesFrom, hl]; rfl, by simp, ?_, ?_, ?_⟩
      · intro c _
        refine Token.isMark_of_kind ?_ c
        rw [Lexeme.token_kind]
        rcases hkind with hkind | hkind | hkind <;> rw [hkind] <;> decide
      · rw [Lexeme.isWord_word]
        exact hword.left
      · rw [Lexeme.isWord_word, hword.right]
        rintro ⟨⟩
  | @passed ws more s pieces hs hmore ih =>
      exact ih (fun vs hvs => hgroups vs (List.mem_cons_of_mem ws hvs)) habstract

theorem run_atIndexSignature {t : Token} (h : t.kind ≠ .mark) :
    atIndexSignature.run (t :: ts) = some (false, t :: ts) := by
  have hbracket := Token.isMark_of_kind h '['
  rcases ts with _ | ⟨u, _ | ⟨v, vs⟩⟩ <;> simp [atIndexSignature, hbracket]

/-- A member is named where no other kind of member is opened by its first tokens. -/
theorem run_member_named {t u : Token} {us : List Token} (hkind : t.kind ≠ .mark)
    (hu : forall c, c ∈ "[*\x7b".toList -> u.isMark c = false) (hword : t.isWord "abstract" = false)
    (hnew : t.isWord "new" = true -> u.isMark '(' = false /\ u.isMark '<' = false)
    (hexport : t.isWord "export" = true -> u.kind ≠ .word) :
    (member g).run (t :: u :: us) = (namedMember g).run (t :: u :: us) := by
  have hmark : forall c, t.isMark c = false := Token.isMark_of_kind hkind
  have hexported : ¬(t.isWord "export" = true /\ u.kind = .word) := fun h => hexport h.left h.right
  have hcall : ¬(t.isWord "new" = true /\ (u.isMark '(' = true \/ u.isMark '<' = true)) := by
    rintro ⟨hisNew, hopens⟩
    simp [hnew hisNew] at hopens
  simp [member, run_peek, run_second, run_atIndexSignature hkind, hmark, hword, hcall,
    hu '[' (by decide), hu '*' (by decide), hu '\x7b' (by decide), hexported]

theorem run_member_property {t u : Token} {us : List Token} (hkind : t.kind ≠ .mark)
    (hu : forall c, c ∈ "(<[*\x7b".toList -> u.isMark c = false) (hword : t.isWord "abstract" = false)
    (hexport : t.isWord "export" = true -> u.kind ≠ .word) :
    (member g).run (t :: u :: us) = (namedMember g).run (t :: u :: us) := by
  refine run_member_named hkind (fun c hc => hu c ?_) hword ?_ hexport
  · exact List.mem_cons_of_mem _ (List.mem_cons_of_mem _ hc)
  · exact fun _ => ⟨hu '(' (by decide), hu '<' (by decide)⟩

theorem run_member {pieces : List MemberPiece} (h : Modified propertyModifiers pieces)
    (habstract : isAbstract pieces = false) (hread : forall t, .declared t ∈ pieces -> ReadsType g t)
    (gap : Gap) (row : Nat) (hrest : Ends [';'] rest) :
    (member g).run (Lexeme.place row (lexemesFrom gap pieces) ++ rest) =
      some (.property pieces, rest) := by
  rw [← run_namedMember h habstract hread gap row hrest]
  obtain ⟨t, u, us, hplace, hkind, hu, hword, hexport⟩ :=
    opensProperty h (fun _ hws => hws) habstract gap row hrest
  rw [hplace]
  exact run_member_property hkind hu hword hexport

/-!
## Methods
-/

section

variable {n : PropertyName} {call : List Lexeme}

theorem call_eq_cons (h : Signature.IsCall call) :
    exists c ls, call = .mark [] c :: ls /\ c ∈ ['(', '<'] := by
  cases h with
  | signature hgenerics hparameters _ _ =>
      rcases hgenerics with rfl | hgenerics
      · cases hparameters <;> exact ⟨'(', _, rfl, by decide⟩
      · cases hgenerics
        exact ⟨'<', _, rfl, by decide⟩

theorem run_optionalPieces_call (h : Signature.IsCall call) (optional : Bool) (row : Nat)
    (rest : List Token) :
    exists os row', optionalPieces.run
        (Lexeme.place row (Signature.question optional ++ call) ++ rest) =
      some (os, Lexeme.place row' call ++ rest) := by
  cases optional with
  | true => exact ⟨_, _, run_optionalPieces_mark rfl row _⟩
  | false =>
      refine ⟨[], row, ?_⟩
      obtain ⟨c, ls, rfl, hc⟩ := call_eq_cons h
      have hmarks : forall c, c ∈ ['(', '<'] -> c ≠ '?' := forall_mem_of_all (by decide)
      exact run_optionalPieces_none (by simpa using hmarks c hc)

theorem place_question_eq_cons (h : Signature.IsCall call) (optional : Bool) (row : Nat)
    (rest : List Token) :
    exists u us c, Lexeme.place row (Signature.question optional ++ call) ++ rest = u :: us /\
      u.isMark c = true /\ c ∈ ['?', '(', '<'] := by
  cases optional with
  | true => exact ⟨_, _, '?', rfl, by simp, by decide⟩
  | false =>
      obtain ⟨c, ls, rfl, hc⟩ := call_eq_cons h
      exact ⟨_, _, c, rfl, by simp, List.mem_cons_of_mem _ hc⟩

theorem isWord_of_method (h : n.quoted = true \/ n.text ∉ ["abstract".toList, "new".toList])
    (gap : Gap) (row : Nat) {w : String} (hw : w ∈ ["abstract", "new"]) :
    ((n.lexeme gap).token row).isWord w = false := by
  cases hisWord : ((n.lexeme gap).token row).isWord w with
  | false => rfl
  | true =>
      obtain ⟨hquoted, htext⟩ := eq_of_isWord_lexeme hisWord
      rw [hquoted, htext] at h
      exact absurd (List.mem_map_of_mem hw) (h.resolve_left Bool.false_ne_true)

theorem run_namedPieces_method (hname : n.isCanonical = true)
    (hword : n.quoted = true \/ n.text ∉ ["abstract".toList, "new".toList])
    (hcall : Signature.IsCall call) {size : Nat} (hg : ReadsLegible g size)
    (hsize : call.length ≤ size) (optional : Bool) (gap : Gap) (row : Nat)
    (hrest : Ends [';'] rest) :
    (namedPieces g).run
        (Lexeme.place row (n.lexeme gap :: (Signature.question optional ++ call)) ++ rest) =
      some (([], true), rest) := by
  have hmarks : forall c, c ∈ ['?', '(', '<'] -> c ∉ ['[', '*'] := forall_mem_of_all (by decide)
  obtain ⟨u, us, c, hus, hu, hc⟩ :=
    place_question_eq_cons hcall optional (row + Lexeme.rows [n.lexeme gap]) rest
  obtain ⟨os, row', hoptional⟩ :=
    run_optionalPieces_call hcall optional (row + Lexeme.rows [n.lexeme gap]) rest
  have hsignature := run_callSignature hg hsize hcall row' hrest
  obtain ⟨d, ls, rfl, hd⟩ := call_eq_cons hcall
  have hends : Context.typeEnding.endsBefore
      (Lexeme.place row' (.mark [] d :: ls) ++ rest) = false := by
    have hmarks : forall c, c ∈ ['(', '<'] -> c ≠ '\x7d' := forall_mem_of_all (by decide)
    exact endsBefore_mark .typeEnding rfl (hmarks d hd) row' _
  have hopens : (((Lexeme.mark [] d).token row').isMark '(' ||
      ((Lexeme.mark [] d).token row').isMark '<') = true := by
    simpa [Bool.or_eq_true] using hd
  rw [Lexeme.place_cons, List.cons_append, hus]
  rw [hus] at hoptional
  rw [run_namedPieces_of (run_modifiers_mark hu (hmarks c hc) _) hu (hmarks c hc) (by
    rw [isWord_of_method hword gap row (by decide)]; rfl) (plain_of_isCanonical hname) hoptional]
  rw [Lexeme.place_cons, List.cons_append] at hsignature hends ⊢
  simp only [behindName, StateT.run_bind, run_atMark, run_endsHere, hopens, hends, hsignature,
    Option.bind_eq_bind, Option.bind_some, Bool.not_false, Bool.and_self, if_true, StateT.run_pure]
  rfl

end

theorem run_member_method {g : Grammar} {ls : List Lexeme} (h : IsMethod ls) {size : Nat}
    (hg : ReadsLegible g size) (hsize : ls.length ≤ size) (gap : Gap) (row : Nat)
    (hrest : Ends [';'] rest) :
    (member g).run (Lexeme.place row (Lexeme.withGap gap ls) ++ rest) =
      some (.text (Lexeme.source ls), rest) := by
  cases h with
  | @named n call optional hname hword hcall =>
      simp only [List.length_cons, List.length_append] at hsize
      have hpieces := run_namedPieces_method hname hword hcall hg (by omega) optional gap row hrest
      have hwithText := run_withText hpieces
      rw [Lexeme.written_place, PropertyName.lexeme_text] at hwithText
      have hsource : Lexeme.source (n.lexeme (.ofBlank []) :: (Signature.question optional ++ call)) =
          n.text ++ Lexeme.source (Signature.question optional ++ call) := by
        simp
      obtain ⟨u, us, c, hus, hu, hc⟩ :=
        place_question_eq_cons hcall optional (row + Lexeme.rows [n.lexeme gap]) rest
      have hmarks : forall c, c ∈ ['?', '(', '<'] -> c ∉ "[*\x7b".toList :=
        forall_mem_of_all (by decide)
      rw [withGap_method, hsource, Lexeme.place_cons, List.cons_append, hus]
      rw [Lexeme.place_cons, List.cons_append, hus] at hwithText
      rw [run_member_named ?_ ?_ ?_ ?_ ?_]
      · refine (run_bind_some run_comments).trans ((run_bind_some hwithText).trans ?_)
        rfl
      · rw [Lexeme.token_kind]
        exact kind_lexeme_ne_mark n gap
      · intro d hd
        refine Token.isMark_of_isMark hu ?_
        rintro rfl
        exact hmarks c hc hd
      · exact isWord_of_method hword gap row (by decide)
      · rw [isWord_of_method hword gap row (by decide)]
        rintro ⟨⟩
      · intro _
        rw [Token.kind_of_isMark hu]
        decide

/-!
## Bodies
-/

def ReadsMember (g : Grammar) : Member -> Prop
  | .property pieces => forall t, .declared t ∈ pieces -> ReadsType g t
  | .text s => exists n, ReadsLegible g n /\ (Lexeme.ofText s).length ≤ n

theorem run_commentItems {t : Token} :
    commentItems.run (t :: ts) = some (t.comments.map .comment, t :: ts) :=
  rfl

def height (m : Member) : Nat :=
  Text.lineFeeds m.print

def memberItemsOf : Nat -> Gap -> Member -> List (Item Member) :=
  nodeItems height fun _ m => m

theorem rows_lexemes {m : Member} (h : m.Canonical) (gap : Gap) :
    Lexeme.rows (m.lexemes gap) = Text.lineFeeds gap.text + height m := by
  rw [Lexeme.rows, source_lexemes h, Text.lineFeeds_append, height]

theorem lexemes_eq_cons {m : Member} (h : m.Canonical) (gap : Gap) :
    exists l ls, m.lexemes gap = l :: ls /\ l.gap = gap /\ l.kind ≠ .mark := by
  cases h with
  | property h _ =>
      obtain ⟨l, ls, hl, hgap, hkind⟩ := lexemesFrom_eq_cons h gap
      refine ⟨l, ls, hl, hgap, ?_⟩
      rcases hkind with hkind | hkind | hkind <;> rw [hkind] <;> decide
  | @method s h _ =>
      obtain ⟨hmethod, -, -⟩ := h.ofText
      rw [lexemes]
      generalize Lexeme.ofText s = ls at hmethod ⊢
      cases hmethod with
      | @named n call optional _ _ _ =>
          rw [withGap_method]
          exact ⟨_, _, rfl, PropertyName.lexeme_gap gap n, kind_lexeme_ne_mark n gap⟩

theorem run_memberItems_of {l : Lexeme} {ls : List Lexeme} {m : Member}
    (h : (member g).run (Lexeme.place row (l :: ls) ++ rest) = some (m, rest)) :
    (memberItems g).run (Lexeme.place row (l :: ls) ++ rest) =
      some (Piece.commentItems row l.gap.comments ++
        [.node (row + Text.lineFeeds l.gap.text) (row + Lexeme.rows (l :: ls)) m], rest) := by
  have hitem := run_asItem h
  rw [Lexeme.place_cons, List.cons_append] at hitem ⊢
  simp only [memberItems, StateT.run_bind, run_commentItems, hitem, Option.bind_eq_bind,
    Option.bind_some, Lexeme.comments_token_eq]
  simp [Piece.commentItems]

theorem run_memberItems {m : Member} (h : m.Canonical) (hread : ReadsMember g m) (gap : Gap)
    (row : Nat) (hrest : Ends [';'] rest) :
    (memberItems g).run (Lexeme.place row (m.lexemes gap) ++ rest) =
      some (memberItemsOf row gap m, rest) := by
  have hrows := rows_lexemes h gap
  obtain ⟨l, ls, hl, hgap, -⟩ := lexemes_eq_cons h gap
  have hmember : (member g).run (Lexeme.place row (m.lexemes gap) ++ rest) = some (m, rest) := by
    cases h with
    | property h habstract => exact run_member h habstract hread gap row hrest
    | @method s h _ =>
        obtain ⟨size, hg, hsize⟩ := hread
        obtain ⟨hmethod, -, hsource⟩ := h.ofText
        have hmember := run_member_method hmethod hg hsize gap row hrest
        rwa [hsource] at hmember
  rw [hl] at hmember hrows ⊢
  rw [run_memberItems_of hmember, hgap, hrows, ← Nat.add_assoc]
  rfl

theorem run_memberEnd (b : List Char) {c : Char} (hc : c ∈ [',', ';']) :
    memberEnd.run ((Lexeme.mark b c).token row :: ts) = some ([], ts) := by
  simp only [List.mem_cons, List.not_mem_nil, or_false] at hc
  rcases hc with rfl | rfl <;> simp [memberEnd, run_commentItems, comments_mark, run_either?]

theorem run_furtherMember {mid : List Token} {items : List (Item Member)}
    (hend : memberEnd.run ts = some ([], mid))
    (hmember : (memberItems g).run mid = some (items, rest)) :
    (furtherMember g).run ts = some (items, rest) := by
  simp [furtherMember, hend, hmember]

theorem readsNode_member {m : Member} (h : m.Canonical) (hread : ReadsMember g m) :
    ReadsNode (furtherMember g) (fun gap m => m.lexemes gap) height (fun _ m => m)
      [.mark [] ';'] m := by
  intro gap row next rest
  refine ⟨rows_lexemes h gap, ?_⟩
  have hrest : Ends [';'] (Lexeme.place next [.mark [] ';'] ++ rest) :=
    ends_mark [] List.mem_cons_self next rest
  have hitems := run_memberItems h hread gap (row + Lexeme.rows [.mark [] ';']) hrest
  have hrow : Lexeme.rows [.mark [] ';'] = 0 := rfl
  rw [List.singleton_append, Lexeme.place_cons, List.cons_append,
    run_furtherMember (run_memberEnd [] (by decide)) hitems, hrow, Nat.add_zero]
  rfl

theorem run_member_none {t : Token} (h : t.isMark '\x7d' = true) :
    (member g).run (t :: ts) = none := by
  have hmark : forall c, '\x7d' ≠ c -> t.isMark c = false := fun c hc => Token.isMark_of_isMark h hc
  have hword : forall w, t.isWord w = false := by
    intro w
    refine Token.isWord_of_kind ?_ w
    rw [Token.kind_of_isMark h]
    decide
  have hmodifier : forall ws, (modifierPieces ws).run (t :: ts) = some ([], t :: ts) := by
    intro ws
    refine run_modifierPieces_none ?_
    have hat : forall w, w ∈ ws -> (atModifier w).run (t :: ts) = some (false, t :: ts) := by
      intro w _
      cases ts <;> simp [atModifier, hword]
    rw [run_anyM hat]
    simp
  have hmodifiers : forall groups, (modifiers groups).run (t :: ts) = some ([], t :: ts) := by
    intro groups
    induction groups with
    | nil => rfl
    | cons ws more ih => simp [modifiers, hmodifier, ih]
  have hname : (propertyName g).run (t :: ts) = none :=
    run_propertyName_none (Token.kind_of_isMark h) (hmark '[' (by decide))
  have hstar : (mark? '*').run (t :: ts) = some (false, t :: ts) := by
    rw [run_mark?, hmark '*' (by decide)]
    rfl
  have hpieces : (namedPieces g).run (t :: ts) = none := by
    refine (run_bind_some (hmodifiers _)).trans ?_
    refine (run_bind_some (hmodifier _)).trans ((run_bind_some (hmodifier _)).trans ?_)
    refine (run_bind_some hstar).trans ((run_bind_some run_commentPieces).trans ?_)
    refine (run_bind_some (run_atWord "abstract")).trans ?_
    rw [hword]
    exact (run_bind_some run_require_true).trans (run_bind_none hname)
  have hnamed : (namedMember g).run (t :: ts) = none := by
    refine (run_bind_some run_comments).trans ?_
    refine run_bind_none ?_
    simp only [withText, StateT.run_bind, StateT.run_get, Option.pure_def, Option.bind_eq_bind,
      Option.bind_some, hpieces, Option.bind_none]
  have hindex : atIndexSignature.run (t :: ts) = some (false, t :: ts) := by
    have hbracket := hmark '[' (by decide)
    rcases ts with _ | ⟨u, _ | ⟨v, vs⟩⟩ <;> simp [atIndexSignature, hbracket]
  rw [← hnamed]
  simp only [member, StateT.run_bind, run_peek, run_second, StateT.run_get, hindex,
    hmark '(' (by decide), hmark '<' (by decide), hmark '-' (by decide), hmark '+' (by decide),
    hword, Bool.or_false, Bool.false_and, Bool.false_eq_true, if_false, Option.bind_eq_bind,
    Option.bind_some, Option.pure_def]

theorem run_closeMembers (gap : Gap) (row : Nat) (rest : List Token) :
    (closeMembers false).run ((Lexeme.brace gap).token row :: rest) =
      some ((false, Piece.commentItems row gap.comments), rest) := by
  have hbrace : ((Lexeme.brace gap).token row).isMark '\x7d' = true := rfl
  have hbar : ((Lexeme.brace gap).token row).isMark '|' = false := rfl
  have hgap : (Lexeme.brace gap).gap = gap := rfl
  simp [closeMembers, run_commentItems, run_atMark, hbar, run_mark hbrace,
    Lexeme.comments_token_eq, Piece.commentItems, hgap]

theorem run_closeMembers_none {t : Token} (h : t.kind ≠ .mark) :
    (closeMembers false).run (t :: ts) = none := by
  simp [closeMembers, run_commentItems, run_atMark, Token.isMark_of_kind h,
    run_mark_none (Token.isMark_of_kind h _)]

def memberLexemes (gap : Gap) (m : Member) : List Lexeme :=
  m.lexemes gap ++ [.mark [] ';']

theorem length_nodes_le (margin first : List Char)
    (pending : List (List Char × List Char)) (ps : List (Piece Member)) :
    (Piece.nodes ps).length ≤ (Piece.lexemesOf margin memberLexemes first pending ps).length := by
  induction ps generalizing first pending with
  | nil => exact Nat.zero_le _
  | cons p ps ih =>
      cases p with
      | beside s => exact ih _ _
      | comment apart s => exact ih _ _
      | node apart m =>
          have hmore := ih margin []
          simp only [Piece.nodes, List.filterMap_cons, Piece.node?, List.length_cons,
            Piece.lexemesOf, memberLexemes, List.length_append] at hmore ⊢
          omega

def bodyLexemes (margin : List Char) (ps : List (Piece Member)) : List Lexeme :=
  .mark [' '] '\x7b' :: Piece.lexemesOf margin memberLexemes margin [] ps ++
    [.brace ⟨Piece.leftOver margin margin [] ps, ['\n']⟩]

def bodyItems (margin : List Char) (row : Nat) (ps : List (Piece Member)) : List (Item Member) :=
  Piece.placed margin height (fun _ m => m) margin row ps

def closingBrace (margin : List Char) (ps : List (Piece Member)) : Lexeme :=
  .brace ⟨Piece.leftOver margin margin [] ps, ['\n']⟩

variable {margin : List Char} {ps : List (Piece Member)}

/-- A body without members holds the comments in front of its closing brace. -/
theorem run_objectMembers_none (hnodes : Piece.nodes ps = []) (row : Nat) (rest : List Token) :
    (objectMembers g).run (Lexeme.place row (bodyLexemes margin ps) ++ rest) =
      some ((false, bodyItems margin row ps), rest) := by
  have hopen : forall ts, (mark '\x7b').run ((Lexeme.mark [' '] '\x7b').token row :: ts) =
      some ((Lexeme.mark [' '] '\x7b').token row, ts) := fun ts => run_mark (by simp)
  have hrow : row + Lexeme.rows [.mark [' '] '\x7b'] = row := rfl
  obtain ⟨hlexemes, hitems⟩ := Piece.leftOver_of_no_nodes margin memberLexemes height
    (fun _ m => m) hnodes margin [] row
  have hclose := run_closeMembers ⟨Piece.leftOver margin margin [] ps, ['\n']⟩ row rest
  rw [hitems] at hclose
  have hbar : ((closingBrace margin ps).token row).isMark '|' = false := rfl
  rw [closingBrace] at hbar
  rw [bodyLexemes, List.cons_append, Lexeme.place_cons, List.cons_append, hrow, hlexemes,
    List.nil_append, Lexeme.place_cons, Lexeme.place_nil, List.cons_append, List.nil_append]
  simp only [objectMembers, StateT.run_bind, hopen, run_atMark, run_peek, hbar,
    Option.bind_eq_bind, Option.bind_some, Bool.false_and, Bool.false_eq_true, if_false]
  exact (run_orElse_some hclose).trans rfl

/-- The members behind the first one, each behind a semicolon, up to the semicolon in front
of the closing brace. -/
theorem run_furtherMembers (h : forall m, m ∈ Piece.nodes ps -> m.Canonical)
    (hread : forall m, m ∈ Piece.nodes ps -> ReadsMember g m) (row : Nat) {last : Nat}
    (hlast : last = row + Lexeme.rows (Piece.lexemesOf margin memberLexemes margin [] ps))
    (rest : List Token) :
    exists chunks,
      (many (furtherMember g)).run
          (Lexeme.place row ([.mark [] ';'] ++ Piece.lexemesOf margin memberLexemes margin [] ps) ++
            (closingBrace margin ps).token last :: rest) =
        some (chunks,
          Lexeme.place last [.mark [] ';'] ++ (closingBrace margin ps).token last :: rest) /\
      chunks.flatten ++ Piece.commentItems last (Piece.leftOver margin margin [] ps) =
        Piece.placed margin height (fun _ m => m) margin row ps := by
  have hnode : forall m, m ∈ Piece.nodes ps ->
      ReadsNode (furtherMember g) (fun gap m => m.lexemes gap) height (fun _ m => m)
        [.mark [] ';'] m := fun m hm => readsNode_member (h m hm) (hread m hm)
  have hnone : forall row, (furtherMember g).run
      (Lexeme.place row [.mark [] ';'] ++ (closingBrace margin ps).token last :: rest) = none := by
    intro row
    have hbrace : (member g).run ((closingBrace margin ps).token last :: rest) = none :=
      run_member_none rfl
    have hend : memberEnd.run ((Lexeme.mark [] ';').token row ::
        (closingBrace margin ps).token last :: rest) = some ([], _) := run_memberEnd [] (by decide)
    simp [furtherMember, hend, memberItems, run_commentItems, asItem, hbrace]
  have hfuel : (Piece.nodes ps).length ≤
      (Lexeme.place row ([.mark [] ';'] ++ Piece.lexemesOf margin memberLexemes margin [] ps) ++
        (closingBrace margin ps).token last :: rest).length := by
    have hle := length_nodes_le margin margin [] ps
    simp only [List.length_append, Lexeme.length_place, List.length_cons]
    omega
  obtain ⟨chunks, after, hafter, hmany, hflat⟩ :=
    run_nodes margin rfl hnode hnone margin [] row hfuel
  have hafter' : after = last := by
    rw [hafter, hlast]
    rfl
  rw [hafter'] at hmany hflat
  exact ⟨chunks, run_many hmany, hflat⟩

/-- A body with members goes from the first of them to its closing brace. -/
theorem run_objectMembers_filled {t u : Token} {us ts₁ ts₂ ts₃ : List Token}
    {first behind : List (Item Member)} {chunks : List (List (Item Member))}
    {trailing : Option (List (Item Member))} (ht : t.isMark '\x7b' = true) (hkind : u.kind ≠ .mark)
    (hfirst : (memberItems g).run (u :: us) = some (first, ts₁))
    (hmore : (many (furtherMember g)).run ts₁ = some (chunks, ts₂))
    (htrailing : (optional? memberEnd).run ts₂ = some (trailing, ts₃))
    (hclose : (closeMembers false).run ts₃ = some ((false, behind), rest)) :
    (objectMembers g).run (t :: u :: us) =
      some ((false, first ++ chunks.flatten ++ trailing.getD [] ++ behind), rest) := by
  have hmark : forall c, u.isMark c = false := Token.isMark_of_kind hkind
  simp only [objectMembers, StateT.run_bind, run_mark ht, run_atMark, run_peek, hmark,
    Option.bind_eq_bind, Option.bind_some, Bool.false_and, Bool.false_eq_true, if_false]
  refine (run_orElse_none (run_closeMembers_none hkind)).trans ?_
  simp only [StateT.run_bind, StateT.run_pure, Option.pure_def, Option.bind_eq_bind,
    Option.bind_some, run_commentItems, run_either?, hmark, Bool.or_self, Bool.false_eq_true,
    if_false, hfirst, hmore, htrailing, hclose, List.nil_append]

theorem run_objectMembers_cons {m : Member} {more : List Member}
    (hnodes : Piece.nodes ps = m :: more) (h : forall m, m ∈ Piece.nodes ps -> m.Canonical)
    (hread : forall m, m ∈ Piece.nodes ps -> ReadsMember g m) (row : Nat) (rest : List Token) :
    (objectMembers g).run (Lexeme.place row (bodyLexemes margin ps) ++ rest) =
      some ((false, bodyItems margin row ps), rest) := by
  have hrow : row + Lexeme.rows [.mark [' '] '\x7b'] = row := rfl
  obtain ⟨gap, behind, hmore, hlexemes, hleft, hitems⟩ := Piece.exists_first_node margin
    memberLexemes height (fun _ m => m) hnodes margin [] row
  rw [hnodes] at h hread
  have hm := h m List.mem_cons_self
  obtain ⟨mid, hmid⟩ : exists mid, mid = row + Lexeme.rows (m.lexemes gap) := ⟨_, rfl⟩
  obtain ⟨last, hlast⟩ : exists last,
      last = mid + Lexeme.rows (Piece.lexemesOf margin memberLexemes margin [] behind) := ⟨_, rfl⟩
  obtain ⟨chunks, hmany, hflat⟩ := run_furtherMembers
    (fun m' hm' => h m' (by rw [hmore] at hm'; exact List.mem_cons_of_mem m hm'))
    (fun m' hm' => hread m' (by rw [hmore] at hm'; exact List.mem_cons_of_mem m hm')) mid hlast rest
  obtain ⟨behindTokens, hbehind⟩ : exists ts, ts = Lexeme.place mid ([.mark [] ';'] ++
      Piece.lexemesOf margin memberLexemes margin [] behind) ++
        (closingBrace margin behind).token last :: rest := ⟨_, rfl⟩
  rw [← hbehind] at hmany
  have hplace : Lexeme.place row (Piece.lexemesOf margin memberLexemes margin [] ps ++
      [closingBrace margin ps]) ++ rest = Lexeme.place row (m.lexemes gap) ++ behindTokens := by
    have hsemicolon : Lexeme.rows [.mark [] ';'] = 0 := rfl
    rw [closingBrace, hlexemes, hleft, memberLexemes, hbehind, hlast, hmid]
    simp [closingBrace, hsemicolon]
  have hends : Ends [';'] behindTokens := by
    rw [hbehind]
    exact ends_mark [] List.mem_cons_self mid _
  have hfirst := run_memberItems hm (hread m List.mem_cons_self) gap row hends
  have htrailing : (optional? memberEnd).run (Lexeme.place last [.mark [] ';'] ++
      (closingBrace margin behind).token last :: rest) =
        some (some [], (closingBrace margin behind).token last :: rest) :=
    run_optional?_some (run_memberEnd [] (by decide))
  have hclose : (closeMembers false).run ((closingBrace margin behind).token last :: rest) =
      some ((false, Piece.commentItems last (Piece.leftOver margin margin [] behind)), rest) :=
    run_closeMembers _ last rest
  have hplaced : memberItemsOf row gap m ++ chunks.flatten ++
      Piece.commentItems last (Piece.leftOver margin margin [] behind) = bodyItems margin row ps := by
    have hmid' : mid = row + Text.lineFeeds gap.text + height m := by
      rw [hmid, rows_lexemes hm gap, Nat.add_assoc]
    rw [List.append_assoc, hflat, hmid']
    refine Eq.trans ?_ hitems.symm
    rw [memberItemsOf, nodeItems, List.append_assoc]
    rfl
  obtain ⟨l, ls, hl, -, hkind⟩ := lexemes_eq_cons hm gap
  rw [bodyLexemes, List.cons_append, Lexeme.place_cons, List.cons_append, hrow]
  refine (congrArg (fun ts => (objectMembers g).run (_ :: ts)) hplace).trans ?_
  rw [hl, Lexeme.place_cons, List.cons_append] at hfirst ⊢
  refine (run_objectMembers_filled (by simp) hkind hfirst hmany htrailing hclose).trans ?_
  rw [Option.getD_some, List.append_nil, hplaced]

theorem run_objectMembers (h : forall m, m ∈ Piece.nodes ps -> m.Canonical)
    (hread : forall m, m ∈ Piece.nodes ps -> ReadsMember g m) (row : Nat) (rest : List Token) :
    (objectMembers g).run (Lexeme.place row (bodyLexemes margin ps) ++ rest) =
      some ((false, bodyItems margin row ps), rest) := by
  cases hnodes : Piece.nodes ps with
  | nil => exact run_objectMembers_none hnodes row rest
  | cons m more => exact run_objectMembers_cons hnodes h hread row rest

end Parser

end TypeScript
end SchemaTypes
