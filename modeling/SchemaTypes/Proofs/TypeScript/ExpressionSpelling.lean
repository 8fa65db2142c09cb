import SchemaTypes.Proofs.TypeScript.TypeSpelling

/-!
# Spelling of expressions

The lexemes of an expression, with its outermost object on one line or on several, and
the canonical expressions, which their lexemes spell without loss.
-/

namespace SchemaTypes
namespace TypeScript

/-!
## Names
-/

namespace PropertyName

def lexeme (g : Gap) (n : PropertyName) : Lexeme :=
  if n.quoted then .string g n.text else .leaf g n.text

/-- A word, a whole number or a literal between double quotes. -/
def isCanonical (n : PropertyName) : Bool :=
  if n.quoted then isLiteral n.text && n.text.head? == some '"'
  else isWordText n.text || isWholeNumber n.text

@[simp] theorem lexeme_gap (g : Gap) (n : PropertyName) : (n.lexeme g).gap = g := by
  rw [lexeme]
  split <;> simp

@[simp] theorem lexeme_text (g : Gap) (n : PropertyName) : (n.lexeme g).text = n.text := by
  rw [lexeme]
  split <;> simp

theorem print_eq_text {n : PropertyName} (h : n.isCanonical = true) : n.print = n.text := by
  rw [isCanonical] at h
  rw [print]
  split at h <;> rename_i hquoted
  · rw [Bool.and_eq_true] at h
    rw [if_pos hquoted, TypeTree.requote_of_head h.right]
  · rw [if_neg hquoted]

theorem isSpelled_lexeme {n : PropertyName} (h : n.isCanonical = true) (g : Gap) :
    (n.lexeme g).isSpelled = true := by
  rw [isCanonical] at h
  rw [lexeme]
  split at h <;> rename_i hquoted
  · rw [Bool.and_eq_true] at h
    rw [if_pos hquoted]
    exact h.left
  · rw [Bool.or_eq_true] at h
    rw [if_neg hquoted]
    exact Lexeme.isSpelled_leaf h g

open Lexeme in
theorem apart_lexeme {n : PropertyName} (h : n.isCanonical = true) {g : Gap} (hg : g.reads = true)
    {ls : List Lexeme} (hls : Detached ls) : Apart (n.lexeme g :: ls) := by
  rw [isCanonical] at h
  rw [lexeme]
  split at h <;> rename_i hquoted
  · rw [Bool.and_eq_true] at h
    rw [if_pos hquoted]
    exact (detached_string hg h.left hls.left).left
  · rw [Bool.or_eq_true] at h
    rw [if_neg hquoted]
    exact apart_leaf hg h hls

end PropertyName

/-!
## Lexemes
-/

/-- How the entries of an object are set: the blanks in front of each and in front of the
closing brace, and whether a comma stands behind the last one. -/
structure Setting where
  entry : List Char
  close : List Char
  comma : Bool
  isPad_entry : Lexeme.isPad entry = true
  isPad_close : Lexeme.isPad close = true

namespace Setting

def flat : Setting :=
  ⟨[' '], [' '], false, rfl, rfl⟩

def behind (o : Setting) : List Entry -> List Lexeme
  | [] => [.mark [] '\x7d']
  | _ => if o.comma then [.mark [] ',', .mark o.close '\x7d'] else [.mark o.close '\x7d']

end Setting

mutual

def Expression.lexemes (o : Setting) (blank : List Char) : Expression -> List Lexeme
  | .object entries =>
      .mark blank '\x7b' :: Entry.lexemesOf o.entry entries ++ o.behind entries
  | .array elements => .mark blank '[' :: Expression.lexemesOf elements ++ [.mark [] ']']
  | .string literal => [.string (.ofBlank blank) literal]
  | .parenthesized inner _ => .mark blank '(' :: Expression.lexemes o [] inner ++ [.mark [] ')']
  | .ascription value target =>
      Expression.lexemes o blank value ++
        .keyword (.ofBlank [' ']) "as" :: target.lexemes [' ']
  | .hole => []
  | .text s => [.leaf (.ofBlank blank) s]

def Expression.lexemesOf : List Expression -> List Lexeme
  | [] => []
  | e :: rest => Expression.lexemes .flat [] e ++ Expression.lexemesBehind rest

def Expression.lexemesBehind : List Expression -> List Lexeme
  | [] => []
  | e :: rest => .mark [] ',' :: Expression.lexemes .flat [' '] e ++ Expression.lexemesBehind rest

def Entry.lexemes (blank : List Char) : Entry -> List Lexeme
  | .pair key value =>
      key.lexeme (.ofBlank blank) :: .mark [] ':' :: Expression.lexemes .flat [' '] value
  | .hole => []
  | .text s => [.word (.ofBlank blank) s]

def Entry.lexemesOf (blank : List Char) : List Entry -> List Lexeme
  | [] => []
  | e :: rest => Entry.lexemes blank e ++ Entry.lexemesBehind blank rest

def Entry.lexemesBehind (blank : List Char) : List Entry -> List Lexeme
  | [] => []
  | e :: rest => .mark [] ',' :: Entry.lexemes blank e ++ Entry.lexemesBehind blank rest

end

/-!
## Canonical expressions
-/

def constantWords : List String := ["this", "true", "false", "null"]

def nonOperandWords : List String := ["await", "yield", "using", "async"] ++ Parser.reservedWords

def isValueWord (s : List Char) : Bool :=
  isWordText s &&
    (constantWords.any (s == ·.toList) || !nonOperandWords.any (s == ·.toList))

namespace Entry

def isNamed : Entry -> Bool
  | pair key _ => key.isCanonical
  | hole => false
  | text s => isWordText s && !Parser.reservedInOperands.any (s == ·.toList)

end Entry

namespace Expression

/-- The expression is spelled by its lexemes without loss. -/
inductive Canonical : Expression -> Prop where
  | object {entries : List Entry} (hnamed : forall e, e ∈ entries -> e.isNamed = true)
      (h : forall key value, .pair key value ∈ entries -> Canonical value) :
      Canonical (object entries)
  | array {elements : List Expression} (h : forall e, e ∈ elements -> Canonical e) :
      Canonical (array elements)
  | string {literal : List Char} (h : isLiteral literal = true)
      (hquote : (literal.head? == some '"') = true) : Canonical (string literal)
  | parenthesized {inner : Expression} (h : Canonical inner) : Canonical (parenthesized inner none)
  | ascription {value : Expression} {target : TypeTree} (h : Canonical value)
      (htarget : target.Canonical) : Canonical (ascription value target)
  | text {s : List Char} (h : isValueWord s = true \/ isWholeNumber s = true) : Canonical (text s)

end Expression

mutual

def Expression.isCanonical : Expression -> Bool
  | .object entries => entries.all Entry.isNamed && Entry.haveCanonicalValues entries
  | .array elements => Expression.allCanonical elements
  | .string literal => isLiteral literal && literal.head? == some '"'
  | .parenthesized inner declared => declared.isNone && Expression.isCanonical inner
  | .ascription value target => Expression.isCanonical value && target.isCanonical
  | .hole => false
  | .text s => isValueWord s || isWholeNumber s

def Expression.allCanonical : List Expression -> Bool
  | [] => true
  | e :: rest => Expression.isCanonical e && Expression.allCanonical rest

def Entry.hasCanonicalValue : Entry -> Bool
  | .pair _ value => Expression.isCanonical value
  | .hole => true
  | .text _ => true

def Entry.haveCanonicalValues : List Entry -> Bool
  | [] => true
  | e :: rest => Entry.hasCanonicalValue e && Entry.haveCanonicalValues rest

end

mutual

theorem Expression.canonical_of_isCanonical :
    forall (e : Expression), e.isCanonical = true -> e.Canonical
  | .object entries, h => by
      simp only [Expression.isCanonical, Bool.and_eq_true, List.all_eq_true] at h
      exact .object h.left (Entry.canonical_of_haveCanonicalValues entries h.right)
  | .array elements, h => .array (Expression.canonical_of_allCanonical elements h)
  | .string literal, h => by
      simp only [Expression.isCanonical, Bool.and_eq_true] at h
      exact .string h.left h.right
  | .parenthesized inner declared, h => by
      simp only [Expression.isCanonical, Bool.and_eq_true, Option.isNone_iff_eq_none] at h
      rw [h.left]
      exact .parenthesized (Expression.canonical_of_isCanonical inner h.right)
  | .ascription value target, h => by
      simp only [Expression.isCanonical, Bool.and_eq_true] at h
      exact .ascription (Expression.canonical_of_isCanonical value h.left)
        (TypeTree.canonical_of_isCanonical target h.right)
  | .hole, h => by cases h
  | .text s, h => .text (by simpa [Expression.isCanonical] using h)

theorem Expression.canonical_of_allCanonical :
    forall (es : List Expression), Expression.allCanonical es = true -> forall e, e ∈ es -> e.Canonical
  | [], _ => by simp
  | first :: rest, h => by
      simp only [Expression.allCanonical, Bool.and_eq_true] at h
      have hfirst := Expression.canonical_of_isCanonical first h.left
      have hrest := Expression.canonical_of_allCanonical rest h.right
      simpa using ⟨hfirst, hrest⟩

theorem Entry.canonical_of_hasCanonicalValue :
    forall (e : Entry), e.hasCanonicalValue = true ->
      forall key value, e = .pair key value -> value.Canonical
  | .pair _ value, h => by
      rintro _ _ ⟨⟩
      exact Expression.canonical_of_isCanonical value h
  | .hole, _ => by rintro _ _ ⟨⟩
  | .text _, _ => by rintro _ _ ⟨⟩

theorem Entry.canonical_of_haveCanonicalValues :
    forall (es : List Entry), Entry.haveCanonicalValues es = true ->
      forall key value, .pair key value ∈ es -> value.Canonical
  | [], _ => by simp
  | first :: rest, h => by
      simp only [Entry.haveCanonicalValues, Bool.and_eq_true] at h
      intro key value hmem
      cases List.mem_cons.mp hmem with
      | inl heq => exact Entry.canonical_of_hasCanonicalValue first h.left key value heq.symm
      | inr hrest => exact Entry.canonical_of_haveCanonicalValues rest h.right key value hrest

end

/-!
## Printed expressions

The text of the lexemes with all entries on one line is the printed expression.
-/

theorem isWordText_of_isValueWord {s : List Char} (h : isValueWord s = true) :
    isWordText s = true := by
  rw [isValueWord, Bool.and_eq_true] at h
  exact h.left

namespace Expression

theorem ne_hole_of_canonical {e : Expression} (h : e.Canonical) : e ≠ hole := by
  rintro rfl
  cases h

theorem source_lexemesBehind {es : List Expression}
    (h : forall e, e ∈ es -> e ≠ hole /\ forall b, Lexeme.source (e.lexemes .flat b) = b ++ e.print) :
    Lexeme.source (lexemesBehind es) = (printAll es).flatMap (", ".toList ++ ·) := by
  induction es with
  | nil => rfl
  | cons e rest ih =>
      have hrest := ih fun f hf => h f (List.mem_cons_of_mem e hf)
      have hfirst := h e List.mem_cons_self
      rw [lexemesBehind, List.cons_append, Lexeme.source_cons, Lexeme.source_append,
        hfirst.right, hrest, printAll_cons e rest hfirst.left]
      simp

theorem source_lexemesOf {es : List Expression}
    (h : forall e, e ∈ es -> e ≠ hole /\ forall b, Lexeme.source (e.lexemes .flat b) = b ++ e.print) :
    Lexeme.source (lexemesOf es) = Text.joinWith ", ".toList (printAll es) := by
  cases es with
  | nil => rfl
  | cons e rest =>
      have hrest := source_lexemesBehind fun f hf => h f (List.mem_cons_of_mem e hf)
      have hfirst := h e List.mem_cons_self
      rw [lexemesOf, Lexeme.source_append, hfirst.right, hrest, printAll_cons e rest hfirst.left,
        Text.joinWith_cons, List.nil_append]

end Expression

namespace Entry

theorem ne_hole_of_isNamed {e : Entry} (h : e.isNamed = true) : e ≠ hole := by
  rintro rfl
  cases h

/-- The text of the lexemes of named entries, whose values are printed right. -/
theorem source_lexemes {e : Entry} (hnamed : e.isNamed = true)
    (h : forall key value, e = .pair key value ->
      Lexeme.source (value.lexemes .flat [' ']) = ' ' :: value.print) (blank : List Char) :
    Lexeme.source (e.lexemes blank) = blank ++ e.print := by
  cases e with
  | pair key value =>
      rw [lexemes, Lexeme.source_cons, Lexeme.source_cons, h key value rfl, print_pair,
        PropertyName.print_eq_text hnamed]
      simp
  | hole => cases hnamed
  | text s =>
      simp only [isNamed, Bool.and_eq_true] at hnamed
      have hvisible := TypeTree.visible_of_isWordText hnamed.left
      rw [lexemes, print_text, Text.collapse_visible hvisible]
      simp

theorem source_lexemesBehind {es : List Entry} (hnamed : forall e, e ∈ es -> e.isNamed = true)
    (h : forall key value, .pair key value ∈ es ->
      Lexeme.source (value.lexemes .flat [' ']) = ' ' :: value.print) (blank : List Char) :
    Lexeme.source (lexemesBehind blank es) = (printAll es).flatMap (',' :: blank ++ ·) := by
  induction es with
  | nil => rfl
  | cons e rest ih =>
      have hfirst := source_lexemes (hnamed e List.mem_cons_self)
        (fun key value heq => h key value (heq ▸ List.mem_cons_self)) blank
      have hrest := ih (fun f hf => hnamed f (List.mem_cons_of_mem e hf))
        (fun key value hmem => h key value (List.mem_cons_of_mem e hmem))
      rw [lexemesBehind, List.cons_append, Lexeme.source_cons, Lexeme.source_append, hfirst, hrest,
        printAll_cons e rest (ne_hole_of_isNamed (hnamed e List.mem_cons_self))]
      simp

theorem source_lexemesOf {first : Entry} {rest : List Entry}
    (hnamed : forall e, e ∈ first :: rest -> e.isNamed = true)
    (h : forall key value, .pair key value ∈ first :: rest ->
      Lexeme.source (value.lexemes .flat [' ']) = ' ' :: value.print) (blank : List Char) :
    Lexeme.source (lexemesOf blank (first :: rest)) =
      blank ++ Text.joinWith (',' :: blank) (printAll (first :: rest)) := by
  have hfirst := source_lexemes (hnamed first List.mem_cons_self)
    (fun key value heq => h key value (heq ▸ List.mem_cons_self)) blank
  have hrest := source_lexemesBehind (fun e he => hnamed e (List.mem_cons_of_mem first he))
    (fun key value hmem => h key value (List.mem_cons_of_mem first hmem)) blank
  rw [lexemesOf, Lexeme.source_append, hfirst, hrest,
    printAll_cons first rest (ne_hole_of_isNamed (hnamed first List.mem_cons_self)),
    Text.joinWith_cons, List.append_assoc]

end Entry

namespace Expression

theorem source_lexemes {e : Expression} (h : e.Canonical) (blank : List Char) :
    Lexeme.source (e.lexemes .flat blank) = blank ++ e.print := by
  induction h generalizing blank with
  | @object entries hnamed _ ih =>
      cases entries with
      | nil => simp [lexemes, Entry.lexemesOf, Setting.behind]
      | cons first rest =>
          have hentries := Entry.source_lexemesOf hnamed (fun key value hmem => ih key value hmem [' '])
            [' ']
          rw [lexemes, List.cons_append, Lexeme.source_cons, Lexeme.source_append, print_object,
            Entry.printAll_cons first rest
              (Entry.ne_hole_of_isNamed (hnamed first List.mem_cons_self))]
          rw [Entry.printAll_cons first rest
              (Entry.ne_hole_of_isNamed (hnamed first List.mem_cons_self))] at hentries
          simp [Setting.flat, Setting.behind, hentries]
  | array h ih =>
      rw [lexemes, List.cons_append, Lexeme.source_cons, Lexeme.source_append, print_array,
        source_lexemesOf fun e he => ⟨ne_hole_of_canonical (h e he), ih e he⟩]
      simp
  | string _ hquote =>
      rw [lexemes, print_string, TypeTree.requote_of_head hquote]
      simp
  | parenthesized _ ih =>
      rw [lexemes, List.cons_append, Lexeme.source_cons, Lexeme.source_append, ih,
        print_parenthesized]
      simp
  | ascription _ htarget ih =>
      rw [lexemes, Lexeme.source_append, Lexeme.source_cons, ih,
        TypeTree.source_lexemes htarget, print_ascription]
      simp
  | @text s hs =>
      have hvisible : s.all (!Text.isBlank ·) = true := by
        cases hs with
        | inl hword => exact TypeTree.visible_of_isWordText (isWordText_of_isValueWord hword)
        | inr hnumber => exact TypeTree.visible_of_isWholeNumber hnumber
      rw [lexemes, Lexeme.source_leaf, print_text, Text.trim_of_visible hvisible]
      simp

end Expression

/-!
## First lexemes
-/

namespace Expression

theorem lexemes_eq_cons {e : Expression} (h : e.Canonical) (o : Setting) (blank : List Char) :
    exists l ls, e.lexemes o blank = l :: ls /\ l.gap = .ofBlank blank /\ l.isSpelled = true := by
  induction h with
  | object => exact ⟨_, _, rfl, by simp, rfl⟩
  | array => exact ⟨_, _, rfl, by simp, rfl⟩
  | string hliteral _ => exact ⟨_, _, rfl, by simp, hliteral⟩
  | parenthesized => exact ⟨_, _, rfl, by simp, rfl⟩
  | ascription _ _ ih =>
      obtain ⟨l, ls, hl, hgap⟩ := ih
      exact ⟨l, ls ++ _, by rw [lexemes, hl, List.cons_append], hgap⟩
  | text hs =>
      refine ⟨_, _, rfl, by simp, Lexeme.isSpelled_leaf ?_ _⟩
      cases hs with
      | inl hword => exact .inl (isWordText_of_isValueWord hword)
      | inr hnumber => exact .inr hnumber

end Expression

/-!
## Numbers of lexemes
-/

namespace Expression

theorem length_lexemes {e : Expression} (h : e.Canonical) (o : Setting) (blank : List Char) :
    (e.lexemes o blank).length = (e.lexemes o []).length := by
  induction h with
  | object => rfl
  | array => rfl
  | string => rfl
  | parenthesized => rfl
  | ascription _ _ ih => simp only [lexemes, List.length_append, ih]
  | text => rfl

theorem length_le_lexemesBehind {e : Expression} {es : List Expression} (h : e ∈ es) :
    (e.lexemes .flat [' ']).length ≤ (lexemesBehind es).length := by
  induction es with
  | nil => cases h
  | cons f fs ih =>
      rw [lexemesBehind, List.cons_append, List.length_cons, List.length_append]
      rcases List.mem_cons.mp h with rfl | hmem
      · omega
      · have hrest := ih hmem
        omega

theorem length_le_lexemesOf {e : Expression} {es : List Expression} (h : e ∈ es)
    (hcanonical : e.Canonical) (blank : List Char) :
    (e.lexemes .flat blank).length ≤ (lexemesOf es).length := by
  rw [length_lexemes hcanonical]
  cases es with
  | nil => cases h
  | cons f fs =>
      rw [lexemesOf, List.length_append]
      rcases List.mem_cons.mp h with rfl | hmem
      · omega
      · have hrest := length_le_lexemesBehind hmem
        rw [length_lexemes hcanonical] at hrest
        omega

end Expression

namespace Entry

theorem length_le_lexemesBehind {key : PropertyName} {value : Expression} {es : List Entry}
    (h : .pair key value ∈ es) (blank : List Char) :
    (value.lexemes .flat [' ']).length ≤ (lexemesBehind blank es).length := by
  induction es with
  | nil => cases h
  | cons e es ih =>
      rw [lexemesBehind, List.cons_append, List.length_cons, List.length_append]
      rcases List.mem_cons.mp h with rfl | hmem
      · simp only [lexemes, List.length_cons]
        omega
      · have hrest := ih hmem
        omega

theorem length_le_lexemesOf {key : PropertyName} {value : Expression} {es : List Entry}
    (h : .pair key value ∈ es) (blank : List Char) :
    (value.lexemes .flat [' ']).length ≤ (lexemesOf blank es).length := by
  cases es with
  | nil => cases h
  | cons e es =>
      rw [lexemesOf, List.length_append]
      rcases List.mem_cons.mp h with rfl | hmem
      · simp only [lexemes, List.length_cons]
        omega
      · have hrest := length_le_lexemesBehind hmem blank
        omega

end Entry

/-!
## Lexemes of expressions stand apart
-/

open Lexeme

theorem Setting.detached_behind (o : Setting) (entries : List Entry) {rest : List Lexeme}
    (h : Apart rest) : Detached (o.behind entries ++ rest) := by
  have hclose := detached_mark o.isPad_close (show isLoneMark '\x7d' = true from rfl) h
  unfold Setting.behind
  split
  · exact detached_mark rfl rfl h
  · split
    · exact detached_mark rfl rfl hclose.left
    · exact hclose

namespace Entry

theorem apart_lexemes {e : Entry} (hnamed : e.isNamed = true)
    (hvalue : forall key value, e = .pair key value ->
      forall rest, Detached rest -> Apart (value.lexemes .flat [' '] ++ rest))
    {blank : List Char} (hblank : isPad blank = true) {rest : List Lexeme} (hrest : Detached rest) :
    Apart (e.lexemes blank ++ rest) := by
  cases e with
  | pair key value =>
      rw [lexemes, List.cons_append, List.cons_append]
      refine PropertyName.apart_lexeme hnamed (reads_ofBlank hblank) ?_
      exact detached_mark rfl rfl (hvalue key value rfl rest hrest)
  | hole => cases hnamed
  | text s =>
      simp only [isNamed, Bool.and_eq_true] at hnamed
      exact apart_word (reads_ofBlank hblank) hnamed.left hrest

theorem detached_lexemesBehind {es : List Entry} (hnamed : forall e, e ∈ es -> e.isNamed = true)
    (hvalue : forall key value, .pair key value ∈ es ->
      forall rest, Detached rest -> Apart (value.lexemes .flat [' '] ++ rest))
    {blank : List Char} (hblank : isPad blank = true) {rest : List Lexeme} (hrest : Detached rest) :
    Detached (lexemesBehind blank es ++ rest) := by
  induction es with
  | nil => exact hrest
  | cons e es ih =>
      have hmore := ih (fun f hf => hnamed f (List.mem_cons_of_mem e hf))
        (fun key value hmem => hvalue key value (List.mem_cons_of_mem e hmem))
      have hfirst := apart_lexemes (hnamed e List.mem_cons_self)
        (fun key value heq => hvalue key value (heq ▸ List.mem_cons_self)) hblank hmore
      rw [lexemesBehind, List.cons_append, List.cons_append, List.append_assoc]
      exact detached_mark rfl rfl hfirst

end Entry

namespace Expression

theorem detached_lexemesBehind {es : List Expression}
    (h : forall e, e ∈ es -> forall rest, Detached rest -> Apart (e.lexemes .flat [' '] ++ rest))
    {rest : List Lexeme} (hrest : Detached rest) : Detached (lexemesBehind es ++ rest) := by
  induction es with
  | nil => exact hrest
  | cons e es ih =>
      have hmore := ih fun f hf => h f (List.mem_cons_of_mem e hf)
      have hfirst := h e List.mem_cons_self _ hmore
      rw [lexemesBehind, List.cons_append, List.cons_append, List.append_assoc]
      exact detached_mark rfl rfl hfirst

theorem apart_lexemes {e : Expression} (h : e.Canonical) (o : Setting) {blank : List Char}
    (hblank : isPad blank = true) {rest : List Lexeme} (hrest : Detached rest) :
    Apart (e.lexemes o blank ++ rest) := by
  have hspace : isPad [' '] = true := rfl
  induction h generalizing o blank rest with
  | @object entries hnamed _ ih =>
      have hbehind := o.detached_behind entries hrest.left
      rw [lexemes, List.append_assoc, List.cons_append]
      refine (detached_mark hblank rfl ?_).left
      cases entries with
      | nil => exact hbehind.left
      | cons first more =>
          have hvalue : forall key value, .pair key value ∈ first :: more ->
              forall rest, Detached rest -> Apart (value.lexemes .flat [' '] ++ rest) :=
            fun key value hmem rest hrest => ih key value hmem .flat hspace hrest
          rw [Entry.lexemesOf, List.append_assoc]
          refine Entry.apart_lexemes (hnamed first List.mem_cons_self)
            (fun key value heq => hvalue key value (heq ▸ List.mem_cons_self)) o.isPad_entry ?_
          exact Entry.detached_lexemesBehind (fun e he => hnamed e (List.mem_cons_of_mem first he))
            (fun key value hmem => hvalue key value (List.mem_cons_of_mem first hmem)) o.isPad_entry
            hbehind
  | @array elements _ ih =>
      have hclose : Detached (.mark [] ']' :: rest) := detached_mark rfl rfl hrest.left
      rw [lexemes, List.append_assoc, List.cons_append]
      refine (detached_mark hblank rfl ?_).left
      cases elements with
      | nil => exact hclose.left
      | cons first more =>
          rw [lexemesOf, List.append_assoc]
          refine ih first List.mem_cons_self .flat rfl ?_
          refine detached_lexemesBehind ?_ hclose
          intro e he rest hrest
          exact ih e (List.mem_cons_of_mem first he) .flat hspace hrest
  | string hliteral _ =>
      rw [lexemes]
      exact (detached_string (reads_ofBlank hblank) hliteral hrest.left).left
  | parenthesized _ ih =>
      rw [lexemes, List.append_assoc]
      exact (detached_mark hblank rfl (ih o rfl (detached_mark rfl rfl hrest.left))).left
  | ascription _ htarget ih =>
      have htype := TypeTree.apart_lexemes htarget hspace hrest
      rw [lexemes, List.append_assoc]
      refine ih o hblank (detached_of_gap ?_ (by simp))
      refine apart_keyword (reads_ofBlank hspace) (by decide) ?_
      exact TypeTree.detached_lexemes htarget (by simp) htype
  | text hs =>
      refine apart_leaf (reads_ofBlank hblank) ?_ hrest
      cases hs with
      | inl hword => exact .inl (isWordText_of_isValueWord hword)
      | inr hnumber => exact .inr hnumber

end Expression

end TypeScript
end SchemaTypes
