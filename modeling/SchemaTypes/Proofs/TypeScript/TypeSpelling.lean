import SchemaTypes.Proofs.TypeScript.Run
import SchemaTypes.Proofs.Text.Joining
import SchemaTypes.Proofs.TypeScript.Printing

/-!
# Spelling of types

The lexemes of a type, and the canonical types, which their lexemes spell without loss:
no part binds looser than its place allows, literals stand between double quotes, and
what is kept as text is a single word or number.
-/

namespace SchemaTypes
namespace TypeScript
namespace TypeTree

/-!
## Lexemes
-/

mutual

def lexemes (blank : List Char) : TypeTree -> List Lexeme
  | union members => lexemesOf (.mark [' '] '|') blank members
  | intersection parts => lexemesOf (.mark [' '] '&') blank parts
  | array element => lexemes blank element ++ [.mark [] '[', .mark [] ']']
  | parenthesized inner => .mark blank '(' :: lexemes [] inner ++ [.mark [] ')']
  | lookup object index =>
      lexemes blank object ++ .mark [] '[' :: lexemes [] index ++ [.mark [] ']']
  | keyOf operand => .keyword (.ofBlank blank) "keyof" :: lexemes [' '] operand
  | typeOf query => [.keyword (.ofBlank blank) "typeof", .word (.ofBlank [' ']) query]
  | string literal => [.string (.ofBlank blank) literal]
  | generic name arguments =>
      .word (.ofBlank blank) name :: .mark [] '<' :: lexemesOf (.mark [] ',') [] arguments ++
        [.mark [] '>']
  | constant => [.keyword (.ofBlank blank) "const"]
  | text s => [.leaf (.ofBlank blank) s]

def lexemesOf (separator : Lexeme) (blank : List Char) : List TypeTree -> List Lexeme
  | [] => []
  | t :: rest => lexemes blank t ++ lexemesBehind separator rest

def lexemesBehind (separator : Lexeme) : List TypeTree -> List Lexeme
  | [] => []
  | t :: rest => separator :: lexemes [' '] t ++ lexemesBehind separator rest

end

/-- Types behind separators, as values that stand behind them. -/
def further (blank : List Char) (ts : List TypeTree) : List (Further TypeTree) :=
  ts.map fun t => ⟨blank, t, t.lexemes [' ']⟩

theorem values_further (b : List Char) (ts : List TypeTree) :
    (further b ts).map Further.value = ts := by
  rw [further, List.map_map]
  exact List.map_id ts

theorem lexemesBehind_eq (c : Char) (b : List Char) (ts : List TypeTree) :
    lexemesBehind (.mark b c) ts = Further.lexemesOf c (further b ts) := by
  induction ts with
  | nil => rfl
  | cons t ts ih =>
      rw [lexemesBehind, ih]
      rfl

/-!
## Canonical types
-/

def isPrimary : TypeTree -> Bool
  | array _ | parenthesized _ | lookup _ _ | typeOf _ | string _ | generic _ _ | text _ => true
  | _ => false

def isQuery : TypeTree -> Bool
  | typeOf _ => true
  | _ => false

def isOperand : TypeTree -> Bool
  | keyOf _ => true
  | t => t.isPrimary

def isIntersection : TypeTree -> Bool
  | intersection _ => true
  | _ => false

def isMember (t : TypeTree) : Bool :=
  t.isOperand || t.isIntersection

def isTypeWord (s : List Char) : Bool :=
  isWordText s &&
    (Parser.literalWords.any (s == ·.toList) || !Parser.nonTypeWords.any (s == ·.toList))

def isGenericName (s : List Char) : Bool :=
  isWordText s && !Parser.nonTypeWords.any (s == ·.toList) &&
    !Parser.predefinedWords.any (s == ·.toList)

def isQueryWord (s : List Char) : Bool :=
  isWordText s && !Parser.nonQueryWords.any (s == ·.toList)

def areParts : List TypeTree -> Bool
  | [left, right] => left.isMember && right.isOperand
  | _ => false

/-- The type is spelled by its lexemes without loss. -/
inductive Canonical : TypeTree -> Prop where
  | union {first second : TypeTree} {rest : List TypeTree}
      (hmember : forall t, t ∈ first :: second :: rest -> t.isMember = true)
      (h : forall t, t ∈ first :: second :: rest -> Canonical t) :
      Canonical (union (first :: second :: rest))
  | intersection {left right : TypeTree} (hleft : left.isMember = true)
      (hright : right.isOperand = true) (hl : Canonical left) (hr : Canonical right) :
      Canonical (intersection [left, right])
  | array {element : TypeTree} (hprimary : element.isPrimary = true) (h : Canonical element) :
      Canonical (array element)
  | parenthesized {inner : TypeTree} (hconstant : inner.isConstant = false) (h : Canonical inner) :
      Canonical (parenthesized inner)
  | lookup {object index : TypeTree} (hprimary : object.isPrimary = true)
      (hquery : object.isQuery = false) (hconstant : index.isConstant = false)
      (ho : Canonical object) (hi : Canonical index) : Canonical (lookup object index)
  | keyOf {operand : TypeTree} (hoperand : operand.isOperand = true) (h : Canonical operand) :
      Canonical (keyOf operand)
  | typeOf {query : List Char} (h : isQueryWord query = true) : Canonical (typeOf query)
  | string {literal : List Char} (h : isLiteral literal = true)
      (hquote : (literal.head? == some '"') = true) : Canonical (string literal)
  | generic {name : List Char} {first : TypeTree} {rest : List TypeTree}
      (hname : isGenericName name = true)
      (hconstant : forall t, t ∈ first :: rest -> t.isConstant = false)
      (h : forall t, t ∈ first :: rest -> Canonical t) : Canonical (generic name (first :: rest))
  | constant : Canonical constant
  | text {s : List Char} (h : isTypeWord s = true \/ isWholeNumber s = true) : Canonical (text s)

mutual

def isCanonical : TypeTree -> Bool
  | union members => 2 ≤ members.length && members.all isMember && allCanonical members
  | intersection parts => areParts parts && allCanonical parts
  | array element => element.isPrimary && isCanonical element
  | parenthesized inner => !inner.isConstant && isCanonical inner
  | lookup object index =>
      object.isPrimary && !object.isQuery && !index.isConstant && isCanonical object &&
        isCanonical index
  | keyOf operand => operand.isOperand && isCanonical operand
  | typeOf query => isQueryWord query
  | string literal => isLiteral literal && literal.head? == some '"'
  | generic name arguments =>
      isGenericName name && !arguments.isEmpty && arguments.all (!·.isConstant) &&
        allCanonical arguments
  | constant => true
  | text s => isTypeWord s || isWholeNumber s

def allCanonical : List TypeTree -> Bool
  | [] => true
  | t :: rest => isCanonical t && allCanonical rest

end

theorem cons_of_areParts {parts : List TypeTree} (h : areParts parts = true) :
    exists left right, parts = [left, right] /\ left.isMember = true /\ right.isOperand = true := by
  unfold areParts at h
  split at h
  · rw [Bool.and_eq_true] at h
    exact ⟨_, _, rfl, h.left, h.right⟩
  · cases h

mutual

theorem canonical_of_isCanonical : forall (t : TypeTree), t.isCanonical = true -> Canonical t
  | .union members, h => by
      simp only [isCanonical, Bool.and_eq_true, decide_eq_true_eq, List.all_eq_true] at h
      have hall := canonical_of_allCanonical members h.right
      match members, h, hall with
      | first :: second :: rest, h, hall => exact .union h.left.right hall
      | [_], h, _ => simp at h
      | [], h, _ => simp at h
  | .intersection parts, h => by
      simp only [isCanonical, Bool.and_eq_true] at h
      have hall := canonical_of_allCanonical parts h.right
      obtain ⟨left, right, rfl, hleft, hright⟩ := cons_of_areParts h.left
      exact .intersection hleft hright (hall left (by simp)) (hall right (by simp))
  | .array element, h => by
      simp only [isCanonical, Bool.and_eq_true] at h
      exact .array h.left (canonical_of_isCanonical element h.right)
  | .parenthesized inner, h => by
      simp only [isCanonical, Bool.and_eq_true, Bool.not_eq_true'] at h
      exact .parenthesized h.left (canonical_of_isCanonical inner h.right)
  | .lookup object index, h => by
      simp only [isCanonical, Bool.and_eq_true, Bool.not_eq_true'] at h
      obtain ⟨⟨⟨⟨hprimary, hquery⟩, hconstant⟩, hobject⟩, hindex⟩ := h
      exact .lookup hprimary hquery hconstant (canonical_of_isCanonical object hobject)
        (canonical_of_isCanonical index hindex)
  | .keyOf operand, h => by
      simp only [isCanonical, Bool.and_eq_true] at h
      exact .keyOf h.left (canonical_of_isCanonical operand h.right)
  | .typeOf query, h => .typeOf h
  | .string literal, h => by
      simp only [isCanonical, Bool.and_eq_true] at h
      exact .string h.left h.right
  | .generic name arguments, h => by
      simp only [isCanonical, Bool.and_eq_true, List.all_eq_true, Bool.not_eq_true'] at h
      have hall := canonical_of_allCanonical arguments h.right
      match arguments, h, hall with
      | first :: rest, h, hall => exact .generic h.left.left.left h.left.right hall
      | [], h, _ => exact absurd h.left.left.right (by decide)
  | .constant, _ => .constant
  | .text s, h => .text (by simpa [isCanonical] using h)

theorem canonical_of_allCanonical :
    forall (ts : List TypeTree), allCanonical ts = true -> forall t, t ∈ ts -> Canonical t
  | [], _ => by simp
  | first :: rest, h => by
      simp only [allCanonical, Bool.and_eq_true] at h
      have hfirst := canonical_of_isCanonical first h.left
      have hrest := canonical_of_allCanonical rest h.right
      simpa using ⟨hfirst, hrest⟩

end

theorem not_isConstant_of_isPrimary {t : TypeTree} (h : t.isPrimary = true) :
    t.isConstant = false := by
  cases t <;> first | rfl | cases h

theorem isOperand_of_isPrimary {t : TypeTree} (h : t.isPrimary = true) : t.isOperand = true := by
  cases t <;> first | rfl | cases h

theorem isMember_of_isOperand {t : TypeTree} (h : t.isOperand = true) : t.isMember = true := by
  rw [isMember, h, Bool.true_or]

theorem not_isConstant_of_isMember {t : TypeTree} (h : t.isMember = true) :
    t.isConstant = false := by
  cases t <;> first | rfl | cases h

theorem unionMembers_of_isMember {t : TypeTree} (h : t.isMember = true) : t.unionMembers = [t] := by
  cases t <;> first | rfl | cases h

/-!
## Printed types

The text of the lexemes is the printed type.
-/

theorem visible_of_isWordText {s : List Char} (h : isWordText s = true) :
    s.all (!Text.isBlank ·) = true := by
  rw [isWordText, Bool.and_eq_true] at h
  exact h.right

theorem not_isBlank_of_isDigit {c : Char} (h : isDigit c = true) : Text.isBlank c = false := by
  rw [isDigit_iff] at h
  simp [Text.isBlank]
  omega

theorem visible_of_isWholeNumber {s : List Char} (h : isWholeNumber s = true) :
    s.all (!Text.isBlank ·) = true := by
  cases s with
  | nil => rfl
  | cons c rest =>
      simp only [isWholeNumber, Bool.and_eq_true] at h
      simp only [List.all_cons, Bool.and_eq_true, Bool.not_eq_true', List.all_eq_true]
      refine ⟨not_isBlank_of_isDigit h.left.left, ?_⟩
      intro d hd
      exact not_isBlank_of_isDigit (List.all_eq_true.mp h.left.right d hd)

theorem isWordText_of_isTypeWord {s : List Char} (h : isTypeWord s = true) :
    isWordText s = true := by
  rw [isTypeWord, Bool.and_eq_true] at h
  exact h.left

theorem isWordText_of_isQueryWord {s : List Char} (h : isQueryWord s = true) :
    isWordText s = true := by
  rw [isQueryWord, Bool.and_eq_true] at h
  exact h.left

theorem isWordText_of_isGenericName {s : List Char} (h : isGenericName s = true) :
    isWordText s = true := by
  rw [isGenericName, Bool.and_eq_true, Bool.and_eq_true] at h
  exact h.left.left

theorem requote_of_head {s : List Char} (h : (s.head? == some '"') = true) :
    Quoted.requote s = s := by
  cases s with
  | nil => rfl
  | cons c rest =>
      have hc : c = '"' := by simpa using h
      rw [hc, Quoted.requote_double]

theorem source_lexemesBehind (separator : Lexeme) {ts : List TypeTree}
    (h : forall t, t ∈ ts -> Lexeme.source (t.lexemes [' ']) = ' ' :: t.print)
    (hconstant : forall t, t ∈ ts -> t.isConstant = false) :
    Lexeme.source (lexemesBehind separator ts) =
      (printAll ts).flatMap (Lexeme.source [separator] ++ [' '] ++ ·) := by
  induction ts with
  | nil => rfl
  | cons t rest ih =>
      have hrest := ih (fun u hu => h u (List.mem_cons_of_mem t hu))
        (fun u hu => hconstant u (List.mem_cons_of_mem t hu))
      rw [lexemesBehind, List.cons_append, Lexeme.source_cons, Lexeme.source_append,
        h t List.mem_cons_self, hrest,
        printAll_cons_of_not_constant (hconstant t List.mem_cons_self)]
      simp

theorem source_lexemesOf (separator : Lexeme) (blank : List Char) {first : TypeTree}
    {rest : List TypeTree}
    (h : forall t, t ∈ first :: rest -> forall b, Lexeme.source (t.lexemes b) = b ++ t.print)
    (hconstant : forall t, t ∈ first :: rest -> t.isConstant = false) :
    Lexeme.source (lexemesOf separator blank (first :: rest)) =
      blank ++ Text.joinWith (Lexeme.source [separator] ++ [' ']) (printAll (first :: rest)) := by
  have hrest := source_lexemesBehind separator
    (fun t ht => h t (List.mem_cons_of_mem first ht) [' '])
    (fun t ht => hconstant t (List.mem_cons_of_mem first ht))
  rw [lexemesOf, Lexeme.source_append, h first List.mem_cons_self, hrest,
    printAll_cons_of_not_constant (hconstant first List.mem_cons_self), Text.joinWith_cons,
    List.append_assoc]

theorem source_lexemes {t : TypeTree} (h : Canonical t) (blank : List Char) :
    Lexeme.source (t.lexemes blank) = blank ++ t.print := by
  induction h generalizing blank with
  | union hmember _ ih =>
      exact source_lexemesOf _ blank ih fun t ht => not_isConstant_of_isMember (hmember t ht)
  | @intersection left right hleft hright _ _ ihleft ihright =>
      refine source_lexemesOf _ blank ?_ ?_
      · simpa using ⟨ihleft, ihright⟩
      · simpa using ⟨not_isConstant_of_isMember hleft,
          not_isConstant_of_isMember (isMember_of_isOperand hright)⟩
  | array _ _ ih =>
      rw [lexemes, Lexeme.source_append, ih, print_array]
      simp [Lexeme.mark]
  | parenthesized _ _ ih =>
      rw [lexemes, List.cons_append, Lexeme.source_cons, Lexeme.source_append, ih,
        print_parenthesized]
      simp [Lexeme.mark]
  | lookup _ _ _ _ _ iho ihi =>
      rw [lexemes, List.append_assoc, Lexeme.source_append, List.cons_append, Lexeme.source_cons,
        Lexeme.source_append, iho, ihi, print_lookup]
      simp [Lexeme.mark]
  | keyOf _ _ ih =>
      rw [lexemes, Lexeme.source_cons, ih, print_keyOf]
      simp [Lexeme.keyword, Lexeme.word]
  | typeOf hquery =>
      have hvisible := visible_of_isWordText (isWordText_of_isQueryWord hquery)
      rw [lexemes, print_typeOf, Text.collapse_visible hvisible]
      simp [Lexeme.keyword, Lexeme.word]
  | string _ hquote =>
      rw [lexemes, print_string, requote_of_head hquote]
      simp [Lexeme.string]
  | generic _ hconstant _ ih =>
      rw [lexemes, List.cons_append, List.cons_append, Lexeme.source_cons, Lexeme.source_cons,
        Lexeme.source_append, source_lexemesOf _ [] ih hconstant, print_generic]
      simp [Lexeme.mark, Lexeme.word]
  | constant =>
      rw [lexemes, print_constant]
      simp [Lexeme.keyword, Lexeme.word]
  | @text s hs =>
      have hvisible : s.all (!Text.isBlank ·) = true := by
        cases hs with
        | inl hword => exact visible_of_isWordText (isWordText_of_isTypeWord hword)
        | inr hnumber => exact visible_of_isWholeNumber hnumber
      rw [lexemes, Lexeme.source_leaf, print_text, Text.collapse_visible hvisible]
      rfl

/-!
## Numbers of lexemes
-/

theorem length_lexemes {t : TypeTree} (h : Canonical t) (blank : List Char) :
    (t.lexemes blank).length = (t.lexemes []).length := by
  induction h with
  | @union first _ _ _ _ ih =>
      simp only [lexemes, lexemesOf, List.length_append, ih first List.mem_cons_self]
  | intersection _ _ _ _ ihleft _ =>
      simp only [lexemes, lexemesOf, List.length_append, ihleft]
  | array _ _ ih =>
      simp only [lexemes, List.length_append, ih]
  | parenthesized => rfl
  | lookup _ _ _ _ _ iho _ =>
      simp only [lexemes, List.length_append, iho]
  | keyOf => rfl
  | typeOf => rfl
  | string => rfl
  | generic => rfl
  | constant => rfl
  | text => rfl

theorem length_le_lexemesBehind_of_mem (separator : Lexeme) {t : TypeTree} {ts : List TypeTree}
    (h : t ∈ ts) (hcanonical : Canonical t) :
    (t.lexemes []).length + 1 ≤ (lexemesBehind separator ts).length := by
  induction ts with
  | nil => cases h
  | cons u us ih =>
      rw [lexemesBehind, List.cons_append, List.length_cons, List.length_append]
      rcases List.mem_cons.mp h with rfl | hmem
      · have hlength := length_lexemes hcanonical [' ']
        omega
      · have hrest := ih hmem
        omega

theorem length_le_lexemesOf_of_mem (separator : Lexeme) {t : TypeTree} {ts : List TypeTree}
    (h : t ∈ ts) (hcanonical : Canonical t) :
    (t.lexemes []).length ≤ (lexemesOf separator [] ts).length := by
  cases ts with
  | nil => cases h
  | cons u us =>
      rw [lexemesOf, List.length_append]
      rcases List.mem_cons.mp h with rfl | hmem
      · omega
      · have hrest := length_le_lexemesBehind_of_mem separator hmem hcanonical
        omega

/-!
## First lexemes
-/

theorem lexemes_eq_cons {t : TypeTree} (h : Canonical t) (blank : List Char) :
    exists l ls, t.lexemes blank = l :: ls /\ l.gap = .ofBlank blank /\
      forall row c, c ≠ '(' -> (l.token row).isMark c = false := by
  induction h with
  | union _ _ ih =>
      obtain ⟨l, ls, hl, hgap⟩ := ih _ List.mem_cons_self
      exact ⟨l, ls ++ lexemesBehind _ _, by rw [lexemes, lexemesOf, hl, List.cons_append], hgap⟩
  | intersection _ _ _ _ ihleft _ =>
      obtain ⟨l, ls, hl, hgap⟩ := ihleft
      exact ⟨l, ls ++ lexemesBehind _ _, by rw [lexemes, lexemesOf, hl, List.cons_append], hgap⟩
  | array _ _ ih =>
      obtain ⟨l, ls, hl, hgap⟩ := ih
      exact ⟨l, ls ++ _, by rw [lexemes, hl, List.cons_append], hgap⟩
  | parenthesized =>
      refine ⟨_, _, rfl, rfl, ?_⟩
      intro row c hc
      simpa using hc.symm
  | lookup _ _ _ _ _ iho _ =>
      obtain ⟨l, ls, hl, hgap⟩ := iho
      exact ⟨l, ls ++ .mark [] '[' :: _, by rw [lexemes, hl, List.append_assoc]; rfl, hgap⟩
  | keyOf => exact ⟨_, _, rfl, rfl, by simp⟩
  | typeOf => exact ⟨_, _, rfl, rfl, by simp⟩
  | string => exact ⟨_, _, rfl, rfl, by simp⟩
  | generic => exact ⟨_, _, rfl, rfl, by simp⟩
  | constant => exact ⟨_, _, rfl, rfl, by simp⟩
  | text => exact ⟨_, _, rfl, Lexeme.leaf_gap, fun row c _ => Lexeme.isMark_leaf⟩

theorem length_pos {t : TypeTree} (h : Canonical t) : 0 < (t.lexemes []).length := by
  obtain ⟨l, ls, hl, -⟩ := lexemes_eq_cons h []
  rw [hl]
  exact Nat.succ_pos _

/-!
## Lexemes of types stand apart
-/

open Lexeme in
theorem detached_lexemes {t : TypeTree} (h : Canonical t) {blank : List Char} (hne : blank ≠ [])
    {rest : List Lexeme} (hlexemes : Apart (t.lexemes blank ++ rest)) :
    Detached (t.lexemes blank ++ rest) := by
  obtain ⟨l, ls, hl, hgap, -⟩ := lexemes_eq_cons h blank
  rw [hl, List.cons_append] at hlexemes ⊢
  refine detached_of_gap hlexemes ?_
  rw [hgap]
  exact hne

open Lexeme in
theorem detached_lexemesBehind {c : Char} (hc : isLoneMark c = true) {b : List Char}
    (hb : isPad b = true) {ts : List TypeTree} {rest : List Lexeme}
    (ih : forall t, t ∈ ts -> forall rest, Detached rest -> Apart (t.lexemes [' '] ++ rest))
    (h : Detached rest) : Detached (lexemesBehind (.mark b c) ts ++ rest) := by
  induction ts with
  | nil => exact h
  | cons t ts ihts =>
      have hmore := ihts fun u hu => ih u (List.mem_cons_of_mem t hu)
      have hfirst := ih t List.mem_cons_self _ hmore
      rw [lexemesBehind, List.cons_append, List.cons_append, List.append_assoc]
      exact detached_mark hb hc hfirst

open Lexeme in
theorem apart_lexemes {t : TypeTree} (h : Canonical t) {blank : List Char}
    (hblank : isPad blank = true) {rest : List Lexeme} (hrest : Detached rest) :
    Apart (t.lexemes blank ++ rest) := by
  have hnil : isPad [] = true := rfl
  have hspace : isPad [' '] = true := rfl
  induction h generalizing blank rest with
  | @union first second more _ _ ih =>
      rw [lexemes, lexemesOf, List.append_assoc]
      refine ih first List.mem_cons_self hblank ?_
      refine detached_lexemesBehind rfl hspace ?_ hrest
      intro t ht rest hrest
      exact ih t (List.mem_cons_of_mem first ht) hspace hrest
  | @intersection left right _ _ _ _ ihleft ihright =>
      rw [lexemes, lexemesOf, List.append_assoc]
      refine ihleft hblank ?_
      refine detached_lexemesBehind rfl hspace ?_ hrest
      intro t ht rest hrest
      rw [List.mem_singleton.mp ht]
      exact ihright hspace hrest
  | array _ _ ih =>
      rw [lexemes, List.append_assoc]
      exact ih hblank (detached_mark hnil rfl (detached_mark hnil rfl hrest.left).left)
  | parenthesized _ _ ih =>
      rw [lexemes, List.append_assoc]
      exact (detached_mark hblank rfl (ih hnil (detached_mark hnil rfl hrest.left))).left
  | lookup _ _ _ _ _ iho ihi =>
      rw [lexemes, List.append_assoc, List.append_assoc]
      refine iho hblank (detached_mark hnil rfl ?_)
      exact ihi hnil (detached_mark hnil rfl hrest.left)
  | @keyOf operand _ hoperand ih =>
      rw [lexemes]
      refine apart_keyword (reads_ofBlank hblank) (by decide) ?_
      exact detached_lexemes hoperand (by simp) (ih hspace hrest)
  | typeOf hquery =>
      rw [lexemes]
      refine apart_keyword (reads_ofBlank hblank) (by decide) ?_
      refine detached_of_gap ?_ (by simp)
      exact apart_word (reads_ofBlank hspace) (isWordText_of_isQueryWord hquery) hrest
  | string hliteral _ =>
      rw [lexemes]
      exact (detached_string (reads_ofBlank hblank) hliteral hrest.left).left
  | @generic name first more hname _ _ ih =>
      rw [lexemes, lexemesOf, List.append_assoc, List.cons_append, List.cons_append,
        List.append_assoc]
      refine apart_word (reads_ofBlank hblank) (isWordText_of_isGenericName hname) ?_
      refine detached_mark hnil rfl ?_
      refine ih first List.mem_cons_self hnil ?_
      refine detached_lexemesBehind rfl hnil ?_ (detached_mark hnil rfl hrest.left)
      intro t ht rest hrest
      exact ih t (List.mem_cons_of_mem first ht) hspace hrest
  | constant =>
      exact apart_keyword (reads_ofBlank hblank) (by decide) hrest
  | text hs =>
      refine apart_leaf (reads_ofBlank hblank) ?_ hrest
      cases hs with
      | inl hword => exact .inl (isWordText_of_isTypeWord hword)
      | inr hnumber => exact .inr hnumber

end TypeTree
end TypeScript
end SchemaTypes
