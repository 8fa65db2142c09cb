import SchemaTypes.Proofs.TypeScript.Literal

/-!
# Lexemes

A lexeme is a token whose place in the source is not known yet.  A list of lexemes
has a text, and placed behind some rows it is a list of tokens.  The text of lexemes
that are spelled well and stand apart is read as those tokens.
-/

namespace SchemaTypes
namespace TypeScript

/-!
## Spelling
-/

/-- A word without the one blank character that words may hold. -/
def isWordText (s : List Char) : Bool :=
  Lexer.name? (s.length + 1) s == some (s, []) && s.all (!Text.isBlank ·)

def isPlainWord : List Char -> Bool
  | [] => false
  | c :: rest => isNameStart c && rest.all isNamePart && (c :: rest).all (!Text.isBlank ·)

def isRowBlank (s : List Char) : Bool :=
  s.all fun c => isPlainBlank c && c != '\n'

/-- A number written without fraction, exponent and superfluous zeros. -/
def isWholeNumber : List Char -> Bool
  | [] => false
  | c :: rest => isDigit c && rest.all isDigit && (c != '0' || rest.isEmpty)

/-- A literal between quotes of one kind, in a text without U+0000 whose line endings have
been normalized. -/
def isLiteral (s : List Char) : Bool :=
  (Quoted.pieces? s).isSome && !s.contains '\x00' && Text.normalizeLines s == s

/-- The marks that are read by themselves, whatever follows them. -/
def isLoneMark (c : Char) : Bool :=
  "\x7b\x7d()[];,<>|&?:=!".toList.contains c

/-!
## Lexemes
-/

structure Lexeme where
  gap : Gap
  kind : TokenKind
  text : List Char

namespace Lexeme

def word (g : Gap) (s : List Char) : Lexeme :=
  ⟨g, .word, s⟩

def keyword (g : Gap) (w : String) : Lexeme :=
  word g w.toList

def mark (blank : List Char) (c : Char) : Lexeme :=
  ⟨.ofBlank blank, .mark, [c]⟩

def brace (g : Gap) : Lexeme :=
  ⟨g, .mark, ['\x7d']⟩

def number (g : Gap) (s : List Char) : Lexeme :=
  ⟨g, .number, s⟩

def string (g : Gap) (s : List Char) : Lexeme :=
  ⟨g, .string, s⟩

/-- A word or a number, told apart by the first character. -/
def leaf (g : Gap) (s : List Char) : Lexeme :=
  if s.head?.any isDigit then number g s else word g s

section

variable {g : Gap} {b s : List Char} {c : Char} {w : String}

@[simp] theorem mark_kind : (mark b c).kind = .mark := by
  rw [mark]

@[simp] theorem mark_text : (mark b c).text = [c] := by
  rw [mark]

@[simp] theorem mark_gap : (mark b c).gap = .ofBlank b := by
  rw [mark]

@[simp] theorem word_kind : (word g s).kind = .word := by
  rw [word]

@[simp] theorem word_text : (word g s).text = s := by
  rw [word]

@[simp] theorem word_gap : (word g s).gap = g := by
  rw [word]

@[simp] theorem keyword_kind : (keyword g w).kind = .word := by
  rw [keyword, word]

@[simp] theorem keyword_text : (keyword g w).text = w.toList := by
  rw [keyword, word]

@[simp] theorem keyword_gap : (keyword g w).gap = g := by
  rw [keyword, word]

@[simp] theorem number_kind : (number g s).kind = .number := by
  rw [number]

@[simp] theorem number_text : (number g s).text = s := by
  rw [number]

@[simp] theorem number_gap : (number g s).gap = g := by
  rw [number]

@[simp] theorem string_kind : (string g s).kind = .string := by
  rw [string]

@[simp] theorem string_text : (string g s).text = s := by
  rw [string]

@[simp] theorem string_gap : (string g s).gap = g := by
  rw [string]

@[simp] theorem leaf_text : (leaf g s).text = s := by
  rw [leaf]
  split <;> simp

@[simp] theorem leaf_gap : (leaf g s).gap = g := by
  rw [leaf]
  split <;> simp

end

def token (row : Nat) (l : Lexeme) : Token :=
  { gap := l.gap.place row, kind := l.kind, text := l.text, row := row + Text.lineFeeds l.gap.text }

def source (ls : List Lexeme) : List Char :=
  ls.flatMap fun l => l.gap.text ++ l.text

def rows (ls : List Lexeme) : Nat :=
  Text.lineFeeds (source ls)

def place (row : Nat) : List Lexeme -> List Token
  | [] => []
  | l :: ls => l.token row :: place (row + rows [l]) ls

@[simp] theorem source_nil : source [] = [] :=
  rfl

@[simp] theorem source_cons (l : Lexeme) (ls : List Lexeme) :
    source (l :: ls) = l.gap.text ++ l.text ++ source ls :=
  rfl

@[simp] theorem source_append (ls ms : List Lexeme) : source (ls ++ ms) = source ls ++ source ms :=
  List.flatMap_append

@[simp] theorem rows_nil : rows [] = 0 :=
  rfl

theorem source_leaf (g : Gap) (s : List Char) : source [leaf g s] = g.text ++ s := by
  simp

theorem rows_append (ls ms : List Lexeme) : rows (ls ++ ms) = rows ls + rows ms := by
  simp [rows]

theorem rows_cons (l : Lexeme) (ls : List Lexeme) : rows (l :: ls) = rows [l] + rows ls :=
  rows_append [l] ls

@[simp] theorem place_nil (row : Nat) : place row [] = [] :=
  rfl

@[simp] theorem place_cons (row : Nat) (l : Lexeme) (ls : List Lexeme) :
    place row (l :: ls) = l.token row :: place (row + rows [l]) ls :=
  rfl

@[simp] theorem place_append (row : Nat) (ls ms : List Lexeme) :
    place row (ls ++ ms) = place row ls ++ place (row + rows ls) ms := by
  induction ls generalizing row with
  | nil => simp
  | cons l ls ih => simp [ih, rows_cons l ls, Nat.add_assoc]

@[simp] theorem length_place (row : Nat) (ls : List Lexeme) : (place row ls).length = ls.length := by
  induction ls generalizing row with
  | nil => rfl
  | cons l ls ih => simp [ih]

/-!
## Lexemes that stand apart
-/

def isSpelled (l : Lexeme) : Bool :=
  match l.kind with
  | .word => isWordText l.text
  | .number => isWholeNumber l.text
  | .string => isLiteral l.text
  | .mark => l.text.length == 1 && l.text.all isLoneMark
  | _ => false

def isOpen (l : Lexeme) : Bool :=
  l.kind == .word || l.kind == .number

def startsApart (l : Lexeme) : Bool :=
  !l.gap.text.isEmpty || !l.isOpen

def Apart : List Lexeme -> Prop
  | [] => True
  | l :: ls =>
      l.isSpelled = true /\ l.gap.reads = true /\
        (l.isOpen = true -> forall m, ls.head? = some m -> m.startsApart = true) /\ Apart ls

/-- Every lexeme is spelled well and read by itself, as long as line ends stay as they are. -/
def Legible : List Lexeme -> Prop
  | [] => True
  | l :: ls =>
      l.isSpelled = true /\ l.gap.lexes = true /\
        (l.isOpen = true -> forall m, ls.head? = some m -> m.startsApart = true) /\ Legible ls

instance decidableLegible : forall ls, Decidable (Legible ls)
  | [] => .isTrue trivial
  | l :: ls =>
      have : Decidable (Legible ls) := decidableLegible ls
      have : Decidable (forall m, ls.head? = some m -> m.startsApart = true) :=
        decidable_of_iff (ls.head?.all startsApart = true) (by rw [Option.all_eq_true])
      inferInstanceAs (Decidable (_ /\ _ /\ (_ -> _) /\ _))

theorem Apart.legible {ls : List Lexeme} (h : Apart ls) : Legible ls := by
  induction ls with
  | nil => trivial
  | cons l ls ih =>
      obtain ⟨hspelled, hreads, hopen, hrest⟩ := h
      exact ⟨hspelled, Gap.lexes_of_reads hreads, hopen, ih hrest⟩

/-- The characters that words and numbers go on with. -/
def goesOn (c : Char) : Bool :=
  isNamePart c || c == '\\' || c == '.'

end Lexeme

/-!
## Characters
-/

theorem ne_of_isNameStart {c : Char} (h : isNameStart c = true) {d : Char}
    (hd : isReservedMark d = true) : c ≠ d := by
  rintro rfl
  simp [isNameStart, hd] at h

theorem not_isDigit_of_isNameStart {c : Char} (h : isNameStart c = true) : isDigit c = false := by
  simp only [isNameStart, Bool.and_eq_true, Bool.not_eq_true'] at h
  exact h.left.right

theorem ne_backslash_of_isNamePart {c : Char} (h : isNamePart c = true) : c ≠ '\\' := by
  rintro rfl
  cases h

theorem isDigit_iff {c : Char} : isDigit c = true <-> 48 ≤ c.toNat /\ c.toNat ≤ 57 := by
  simp only [isDigit, Bool.and_eq_true, decide_eq_true_eq, Char.le_def, UInt32.le_iff_toNat_le]
  rfl

theorem not_isDigit_of_isGap {c : Char} (h : isGap c = true) : isDigit c = false := by
  rw [← Bool.not_eq_true, isDigit_iff]
  simp [isGap, isSpaceSeparator] at h
  omega

theorem not_isGap_of_isDigit {c : Char} (h : isDigit c = true) : isGap c = false := by
  cases hgap : isGap c with
  | false => rfl
  | true =>
      rw [not_isDigit_of_isGap hgap] at h
      cases h

/-!
## Words, numbers and marks
-/

namespace Lexer

theorem nameEscape?_eq_none {s : List Char} (h : s.head?.any (· == '\\') = false) :
    nameEscape? s = none := by
  unfold nameEscape?
  split
  · cases h
  · rfl

/-- An escape in a word.  It is by number, and ends by itself whatever follows it. -/
def IsNameEscape (e : List Char) : Prop :=
  exists s, e = '\\' :: 'u' :: s /\ forall rest, IsEscape ('u' :: s) rest

/-- What stands in a word behind its first character or escape. -/
inductive IsNameRest : List Char -> Prop where
  | nil : IsNameRest []
  | part {c : Char} {s : List Char} (hc : isNamePart c = true) (h : IsNameRest s) :
      IsNameRest (c :: s)
  | escape {e s : List Char} (he : IsNameEscape e) (h : IsNameRest s) : IsNameRest (e ++ s)

inductive IsWord : List Char -> Prop where
  | start {c : Char} {s : List Char} (hc : isNameStart c = true) (h : IsNameRest s) : IsWord (c :: s)
  | escape {e s : List Char} (he : IsNameEscape e) (h : IsNameRest s) : IsWord (e ++ s)

theorem isNameEscape_of_nameEscape? {s e rest : List Char} (h : nameEscape? s = some (e, rest)) :
    IsNameEscape e := by
  unfold nameEscape? at h
  split at h
  · rename_i more
    obtain ⟨⟨e', r⟩, hescape, heq⟩ := Option.map_eq_some_iff.mp h
    cases heq
    have hsplit := escape?_split hescape
    cases isEscape_of_escape? hescape with
    | byte => cases hsplit
    | braced hhex => exact ⟨_, rfl, .braced hhex⟩
    | four hhex => exact ⟨_, rfl, .four hhex⟩
    | octal hc =>
        cases hsplit
        cases hc
    | pair hc =>
        cases hsplit
        simp at hc
    | single _ hu =>
        cases hsplit
        exact absurd rfl hu
  · cases h

theorem IsNameEscape.nameEscape?_append {e : List Char} (h : IsNameEscape e) (rest : List Char) :
    nameEscape? (e ++ rest) = some (e, rest) := by
  obtain ⟨s, rfl, hescape⟩ := h
  have hread := escape?_of_isEscape (hescape rest)
  rw [List.cons_append] at hread
  rw [List.cons_append, List.cons_append, nameEscape?, hread]
  rfl

theorem IsNameEscape.length_pos {e : List Char} (h : IsNameEscape e) : 0 < e.length := by
  obtain ⟨s, rfl, -⟩ := h
  exact Nat.succ_pos _

theorem isNameRest_of_namePartsFrom {fuel : Nat} {s : List Char}
    (h : namePartsFrom fuel s = (s, [])) : IsNameRest s := by
  fun_induction namePartsFrom fuel s with
  | case1 s =>
      cases h
      exact .nil
  | case2 fuel s e rest hescape more left hmore ih =>
      have hsplit := nameEscape?_split hescape
      rw [hsplit, Prod.mk.injEq, List.append_cancel_left_eq] at h
      obtain ⟨rfl, rfl⟩ := h
      rw [hsplit]
      exact .escape (isNameEscape_of_nameEscape? hescape) (ih hmore)
  | case3 fuel c rest hc more left hmore _ ih =>
      rw [Prod.mk.injEq, List.cons.injEq] at h
      obtain ⟨⟨-, rfl⟩, rfl⟩ := h
      exact .part hc (ih hmore)
  | case4 => cases h
  | case5 => exact .nil

theorem namePartsFrom_append {s rest : List Char} (hs : IsNameRest s)
    (hrest : rest.head?.any Lexeme.goesOn = false) {fuel : Nat} (hfuel : s.length < fuel) :
    namePartsFrom fuel (s ++ rest) = (s, rest) := by
  obtain ⟨fuel, rfl⟩ : exists n, fuel = n + 1 := ⟨fuel - 1, by omega⟩
  induction hs generalizing fuel with
  | nil =>
      cases rest with
      | nil => rfl
      | cons c more =>
          simp [Lexeme.goesOn] at hrest
          have hescape : nameEscape? (c :: more) = none :=
            nameEscape?_eq_none (by simpa using hrest.left.right)
          simp [namePartsFrom, hescape, hrest]
  | @part c s hc h ih =>
      have hescape : nameEscape? (c :: (s ++ rest)) = none :=
        nameEscape?_eq_none (by simp [ne_backslash_of_isNamePart hc])
      rw [List.length_cons] at hfuel
      obtain ⟨fuel, rfl⟩ : exists n, fuel = n + 1 := ⟨fuel - 1, by omega⟩
      have hmore := ih fuel (by omega)
      rw [List.cons_append]
      unfold namePartsFrom
      simp [hescape, hc, hmore]
  | @escape e s he h ih =>
      have hlength := he.length_pos
      rw [List.length_append] at hfuel
      obtain ⟨fuel, rfl⟩ : exists n, fuel = n + 1 := ⟨fuel - 1, by omega⟩
      have hmore := ih fuel (by omega)
      rw [List.append_assoc]
      unfold namePartsFrom
      simp [he.nameEscape?_append, hmore]

theorem isWord_of_name? {fuel : Nat} {s : List Char} (h : name? fuel s = some (s, [])) :
    IsWord s := by
  unfold name? at h
  split at h
  · rename_i e rest hescape
    have hsplit := nameEscape?_split hescape
    rw [hsplit, Option.some.injEq, Prod.mk.injEq, List.append_cancel_left_eq] at h
    rw [hsplit]
    exact .escape (isNameEscape_of_nameEscape? hescape) (isNameRest_of_namePartsFrom (Prod.ext h.left h.right))
  · split at h
    · split at h
      · rename_i hc
        rw [Option.some.injEq, Prod.mk.injEq, List.cons_append, List.nil_append, List.cons.injEq] at h
        exact .start hc (isNameRest_of_namePartsFrom (Prod.ext h.left.right h.right))
      · cases h
    · cases h

theorem name?_append {s rest : List Char} (hs : IsWord s)
    (hrest : rest.head?.any Lexeme.goesOn = false) {fuel : Nat} (hfuel : s.length ≤ fuel) :
    name? fuel (s ++ rest) = some (s, rest) := by
  cases hs with
  | @start c s hc h =>
      have hslash : c ≠ '\\' := ne_of_isNameStart hc (by decide)
      have hescape : nameEscape? (c :: (s ++ rest)) = none := nameEscape?_eq_none (by simp [hslash])
      have hmore : namePartsFrom fuel (s ++ rest) = (s, rest) := namePartsFrom_append h hrest hfuel
      simp [name?, hescape, hc, hmore]
  | @escape e s he h =>
      have hlength := he.length_pos
      rw [List.length_append] at hfuel
      have hmore : namePartsFrom fuel (s ++ rest) = (s, rest) :=
        namePartsFrom_append h hrest (by omega)
      rw [List.append_assoc]
      unfold name?
      simp [he.nameEscape?_append, hmore]

theorem IsWord.eq_cons {s : List Char} (h : IsWord s) :
    exists c rest, s = c :: rest /\ (isNameStart c = true \/ c = '\\') := by
  cases h with
  | start hc h => exact ⟨_, _, rfl, .inl hc⟩
  | escape he h =>
      obtain ⟨s, rfl, -⟩ := he
      exact ⟨_, _, rfl, .inr rfl⟩

theorem isWord_of_isWordText {s : List Char} (h : isWordText s = true) : IsWord s := by
  rw [isWordText, Bool.and_eq_true, beq_iff_eq] at h
  exact isWord_of_name? h.left

theorem isNameRest_of_all {s : List Char} (h : s.all isNamePart = true) : IsNameRest s := by
  induction s with
  | nil => exact .nil
  | cons c rest ih =>
      rw [List.all_cons, Bool.and_eq_true] at h
      exact .part h.left (ih h.right)

theorem isWordText_of_isPlainWord {s : List Char} (h : isPlainWord s = true) :
    isWordText s = true := by
  cases s with
  | nil => cases h
  | cons c rest =>
      rw [isPlainWord, Bool.and_eq_true, Bool.and_eq_true] at h
      have hword : IsWord (c :: rest) := .start h.left.left (isNameRest_of_all h.left.right)
      have hname : name? ((c :: rest).length + 1) ((c :: rest) ++ []) = some (c :: rest, []) :=
        name?_append hword rfl (Nat.le_succ _)
      rw [List.append_nil] at hname
      rw [isWordText, hname, h.right]
      simp

theorem head_of_isWordText {c : Char} {s : List Char} (h : isWordText (c :: s) = true) :
    isGap c = false /\ isDigit c = false /\
      forall d, isReservedMark d = true -> d ≠ '\\' -> c ≠ d := by
  obtain ⟨c', s', heq, hc⟩ := (isWord_of_isWordText h).eq_cons
  obtain ⟨rfl, rfl⟩ := List.cons.inj heq
  rcases hc with hc | rfl
  · have hdigit := not_isDigit_of_isNameStart hc
    refine ⟨?_, hdigit, fun d hd _ => ne_of_isNameStart hc hd⟩
    simp only [isNameStart, Bool.and_eq_true, Bool.not_eq_true'] at hc
    exact hc.left.left.right
  · exact ⟨rfl, rfl, fun d _ hd => hd.symm⟩

theorem next?_word {s rest : List Char} (hs : isWordText s = true)
    (hrest : rest.head?.any Lexeme.goesOn = false) {fuel : Nat} (hfuel : s.length < fuel)
    (operand inTemplate : Bool) :
    next? fuel operand inTemplate (s ++ rest) = some (.word, s, rest) := by
  have hname := name?_append (isWord_of_isWordText hs) hrest (Nat.le_of_lt hfuel)
  cases s with
  | nil => simp [isWordText, name?, nameEscape?] at hs
  | cons c s =>
      obtain ⟨-, hdigit, hne⟩ := head_of_isWordText hs
      have hmarks : forall d, d ∈ "\x7b\x7d()[];,<>+-*%&|^!~?:=.@".toList ->
          isReservedMark d = true /\ d ≠ '\\' := forall_mem_of_all (by decide)
      have hmark : ("\x7b\x7d()[];,<>+-*%&|^!~?:=.@".toList.contains c) = false := by
        rw [List.contains_eq_any_beq, List.any_eq_false]
        intro d hd
        have hreserved : isReservedMark d = true /\ d ≠ '\\' := hmarks d hd
        simpa using hne d hreserved.left hreserved.right
      have hplain : next? fuel operand inTemplate (c :: (s ++ rest)) =
          (name? fuel (c :: (s ++ rest))).map fun p => (.word, p.1, p.2) := by
        unfold next?
        dsimp only
        rw [if_neg (by simp [hne '"' (by decide) (by decide), hne '\'' (by decide) (by decide)])]
        rw [if_neg (by simp [hne '`' (by decide) (by decide)])]
        rw [if_neg (by simp [hne '\x7d' (by decide) (by decide)])]
        rw [if_neg (by simp [hne '#' (by decide) (by decide)]), if_neg (by simp [hdigit])]
        split
        · rename_i hcs
          exact absurd (List.cons.inj hcs).left (hne '.' (by decide) (by decide))
        · rename_i hcs
          exact absurd (List.cons.inj hcs).left (hne '+' (by decide) (by decide))
        · rename_i hcs
          exact absurd (List.cons.inj hcs).left (hne '-' (by decide) (by decide))
        · rename_i hcs
          exact absurd (List.cons.inj hcs).left (hne '.' (by decide) (by decide))
        · rename_i hcs
          exact absurd (List.cons.inj hcs).left (hne '/' (by decide) (by decide))
        · rw [if_neg (by rw [hmark]; decide)]
          cases name? fuel (c :: (s ++ rest)) <;> rfl
      rw [List.cons_append] at hname ⊢
      rw [hplain, hname]
      rfl

theorem next?_mark {c : Char} (hc : isLoneMark c = true) (rest : List Char) (fuel : Nat)
    (operand : Bool) : next? fuel operand false (c :: rest) = some (.mark, [c], rest) := by
  have hmem : c ∈ "\x7b\x7d()[];,<>|&?:=!".toList := by simpa [isLoneMark] using hc
  simp at hmem
  rcases hmem with rfl | rfl | rfl | rfl | rfl | rfl | rfl | rfl | rfl | rfl | rfl | rfl | rfl |
    rfl | rfl | rfl <;> simp [next?, isDigit]

theorem digitsFrom_append {s rest : List Char} (hs : s.all isDigit = true)
    (hrest : rest.head?.any Lexeme.goesOn = false) :
    digitsFrom isDigit (s ++ rest) = (s, rest) := by
  induction s with
  | nil =>
      cases rest with
      | nil => rfl
      | cons c more =>
          simp only [List.head?_cons, Option.any_some] at hrest
          have hdigit : isDigit c = false := by
            simp [Lexeme.goesOn, isNamePart] at hrest
            exact hrest.left.left.right
          have hunder : c ≠ '_' := by
            rintro rfl
            simp [Lexeme.goesOn, isNamePart, isNameStart] at hrest
            revert hrest
            decide
          rw [List.nil_append, digitsFrom.eq_3]
          · simp [hdigit]
          · exact fun _ _ hc _ => hunder hc
  | cons c s ih =>
      rw [List.all_cons, Bool.and_eq_true] at hs
      have hunder : c ≠ '_' := by
        rintro rfl
        cases hs.left
      rw [List.cons_append, digitsFrom.eq_3]
      · simp [hs.left, ih hs.right]
      · exact fun _ _ hc _ => hunder hc


theorem exponent_of_goesOn {rest : List Char} (h : rest.head?.any Lexeme.goesOn = false) :
    exponent rest = ([], rest) := by
  cases rest with
  | nil => rfl
  | cons c more =>
      have hc : c ≠ 'e' /\ c ≠ 'E' := by
        constructor <;> rintro rfl <;> cases h
      simp [exponent, hc]

theorem decimalNumber?_append {c : Char} {s rest : List Char} (hc : isDigit c = true)
    (hs : s.all isDigit = true) (hrest : rest.head?.any Lexeme.goesOn = false) :
    decimalNumber? (c :: (s ++ rest)) = some (c :: s, rest) := by
  have hpoint : c ≠ '.' := by
    rintro rfl
    cases hc
  have hdigits : digits? isDigit (c :: (s ++ rest)) = some (c :: s, rest) := by
    simp [digits?, hc, digitsFrom_append hs hrest]
  unfold decimalNumber?
  split
  · rename_i hcs
    exact absurd (List.cons.inj hcs).left hpoint
  · rw [hdigits]
    simp only [Option.bind_eq_bind, Option.bind_some]
    split
    · cases hrest
    · cases hrest
    · split
      · rfl
      · simp [exponent_of_goesOn hrest]

theorem number?_append {c : Char} {s rest : List Char} (hc : isDigit c = true)
    (hs : s.all isDigit = true) (hzero : c ≠ '0' \/ s = [])
    (hrest : rest.head?.any Lexeme.goesOn = false) :
    number? (c :: (s ++ rest)) = some (c :: s, rest) := by
  have hdecimal := decimalNumber?_append hc hs hrest
  unfold number?
  split
  · rename_i m more hcs
    obtain ⟨rfl, hmore⟩ := List.cons.inj hcs
    have hnil : s = [] := by simpa using hzero
    subst hnil
    rw [List.nil_append] at hmore
    subst hmore
    have hradix : m ≠ 'x' /\ m ≠ 'X' /\ m ≠ 'o' /\ m ≠ 'O' /\ m ≠ 'b' /\ m ≠ 'B' := by
      refine ⟨?_, ?_, ?_, ?_, ?_, ?_⟩ <;> rintro rfl <;> cases hrest
    simp only [List.nil_append] at hdecimal
    simp [hradix, hdecimal]
  · exact hdecimal

theorem next?_number {s rest : List Char} (hs : isWholeNumber s = true)
    (hrest : rest.head?.any Lexeme.goesOn = false) (fuel : Nat) (operand inTemplate : Bool) :
    next? fuel operand inTemplate (s ++ rest) = some (.number, s, rest) := by
  cases s with
  | nil => cases hs
  | cons c s =>
      simp only [isWholeNumber, Bool.and_eq_true] at hs
      obtain ⟨⟨hc, hdigits⟩, hzero⟩ := hs
      have hne : forall d, isDigit d = false -> c ≠ d := by
        rintro d hd rfl
        rw [hc] at hd
        cases hd
      have hnumber := number?_append hc hdigits (by simpa using hzero) hrest
      unfold next?
      dsimp only [List.cons_append]
      rw [if_neg (by simp [hne '"' (by decide), hne '\'' (by decide)])]
      rw [if_neg (by simp [hne '`' (by decide)])]
      rw [if_neg (by simp [hne '\x7d' (by decide)])]
      rw [if_neg (by simp [hne '#' (by decide)]), if_pos hc, hnumber]
      rfl

theorem next?_literal {s : List Char} (hs : isLiteral s = true) (rest : List Char) {fuel : Nat}
    (hfuel : s.length < fuel) (operand inTemplate : Bool) :
    next? fuel operand inTemplate (s ++ rest) = some (.string, s, rest) := by
  simp only [isLiteral, Bool.and_eq_true, Option.isSome_iff_exists] at hs
  obtain ⟨⟨⟨ps, hps⟩, -⟩, -⟩ := hs
  obtain ⟨quote, hquote, rfl, hfit⟩ := Quoted.fit_of_pieces? hps
  have hslash : quote ≠ '\\' := by
    rcases hquote with rfl | rfl <;> decide
  have hlength : (Quoted.inside ps).length < fuel := by
    simp [Quoted.literal] at hfuel
    omega
  have hread := Quoted.stringFrom_inside hslash hfit rest hlength
  have hopen : (quote == '"' || quote == '\'') = true := by simpa using hquote
  simp [next?, Quoted.literal, hopen, hread]

end Lexer

namespace Lexeme

/-!
## Reading lexemes
-/

theorem text_ne_nil {l : Lexeme} (h : l.isSpelled = true) : l.text ≠ [] := by
  intro hnil
  unfold isSpelled at h
  rw [hnil] at h
  split at h <;> cases h

theorem not_goesOn_of_isGap {c : Char} (h : isGap c = true) : goesOn c = false := by
  have hslash : c ≠ '\\' := by
    rintro rfl
    cases h
  have hpoint : c ≠ '.' := by
    rintro rfl
    cases h
  simp [goesOn, isNamePart, isNameStart, h, not_isDigit_of_isGap h, hslash, hpoint]

theorem loneMark_apart {c : Char} (h : isLoneMark c = true) :
    (isGap c = false /\ c ≠ '/') /\ goesOn c = false := by
  have hall : forall c, c ∈ "\x7b\x7d()[];,<>|&?:=!".toList ->
      (isGap c = false /\ c ≠ '/') /\ goesOn c = false := forall_mem_of_all (by decide)
  exact hall c (by simpa [isLoneMark] using h)

theorem head_of_isLiteral {c : Char} {s : List Char} (h : isLiteral (c :: s) = true) :
    c = '"' \/ c = '\'' := by
  simp only [isLiteral, Bool.and_eq_true, Option.isSome_iff_exists] at h
  obtain ⟨⟨⟨ps, hps⟩, -⟩, -⟩ := h
  obtain ⟨quote, hquote, hliteral, -⟩ := Quoted.fit_of_pieces? hps
  obtain ⟨rfl, -⟩ := List.cons.inj hliteral
  exact hquote

theorem stops_text {l : Lexeme} (h : l.isSpelled = true) (rest : List Char) :
    Gap.stops (l.text ++ rest) = true := by
  unfold isSpelled at h
  cases htext : l.text with
  | nil =>
      rw [htext] at h
      split at h <;> cases h
  | cons c s =>
      rw [htext] at h
      simp only [Gap.stops, List.cons_append, List.head?_cons, Option.all_some, Bool.and_eq_true,
        Bool.not_eq_true', bne_iff_ne]
      split at h
      · obtain ⟨hgap, -, hne⟩ := Lexer.head_of_isWordText h
        exact ⟨hgap, hne '/' (by decide) (by decide)⟩
      · simp only [isWholeNumber, Bool.and_eq_true] at h
        refine ⟨not_isGap_of_isDigit h.left.left, ?_⟩
        rintro rfl
        cases h.left.left
      · rcases head_of_isLiteral h with rfl | rfl <;> decide
      · simp only [Bool.and_eq_true, List.all_cons] at h
        exact (loneMark_apart h.right.left).left
      · cases h

theorem head_text_of_startsApart {m : Lexeme} (h : m.isSpelled = true) (hopen : m.isOpen = false) :
    m.text.head?.any goesOn = false := by
  unfold isSpelled at h
  unfold isOpen at hopen
  cases htext : m.text with
  | nil => rfl
  | cons c s =>
      rw [htext] at h
      simp only [List.head?_cons, Option.any_some]
      split at h <;> rename_i hkind
      · simp [hkind] at hopen
      · simp [hkind] at hopen
      · rcases head_of_isLiteral h with rfl | rfl <;> decide
      · simp only [Bool.and_eq_true, List.all_cons] at h
        exact (loneMark_apart h.right.left).right
      · cases h

theorem goesOn_of_startsApart {m : Lexeme} (hspelled : m.isSpelled = true)
    (hgap : m.gap.lexes = true) (h : m.startsApart = true) (rest : List Char) :
    (m.gap.text ++ m.text ++ rest).head?.any goesOn = false := by
  cases hhead : m.gap.text with
  | nil =>
      have hopen : m.isOpen = false := by simpa [startsApart, hhead] using h
      have htext := head_text_of_startsApart hspelled hopen
      cases hm : m.text with
      | nil => exact absurd hm (text_ne_nil hspelled)
      | cons c s =>
          rw [hm] at htext
          exact htext
  | cons c s =>
      have hc := Gap.head_text hgap (c := c) (by rw [hhead]; rfl)
      simp only [List.cons_append, List.head?_cons, Option.any_some]
      rcases hc with hc | rfl
      · exact not_goesOn_of_isGap hc
      · rfl

theorem next?_text {l : Lexeme} (h : l.isSpelled = true) {rest : List Char}
    (hrest : l.isOpen = true -> rest.head?.any goesOn = false) {fuel : Nat}
    (hfuel : l.text.length < fuel) (operand : Bool) :
    Lexer.next? fuel operand false (l.text ++ rest) = some (l.kind, l.text, rest) := by
  unfold isSpelled at h
  unfold isOpen at hrest
  split at h <;> rename_i hkind
  · rw [hkind]
    exact Lexer.next?_word h (hrest (by simp [hkind])) hfuel operand false
  · rw [hkind]
    exact Lexer.next?_number h (hrest (by simp [hkind])) fuel operand false
  · rw [hkind]
    exact Lexer.next?_literal h rest hfuel operand false
  · rw [hkind]
    rw [Bool.and_eq_true, beq_iff_eq, List.length_eq_one_iff] at h
    obtain ⟨⟨c, hc⟩, hlone⟩ := h
    rw [hc] at hlone ⊢
    exact Lexer.next?_mark (by simpa using hlone) rest fuel operand
  · cases h

def endToken (row : Nat) (g : Gap) : Token :=
  { gap := g.place row, kind := .endOfSource, text := [], row := row + Text.lineFeeds g.text }

theorem tokensFrom_source {ls : List Lexeme} (h : Legible ls) {final : Gap}
    (hfinal : final.lexes = true) {fuel : Nat} (hfuel : (source ls ++ final.text).length < fuel)
    (operand : Bool) (row : Nat) :
    Lexer.tokensFrom fuel [] operand row (source ls ++ final.text) =
      some (place row ls ++ [endToken (row + rows ls) final]) := by
  induction ls generalizing fuel operand row with
  | nil =>
      obtain ⟨fuel, rfl⟩ : exists n, fuel = n + 1 := ⟨fuel - 1, by omega⟩
      have hnil : Gap.stops [] = true := rfl
      have hlength : final.text.length < fuel + 1 := by simpa using hfuel
      have hgap := Gap.gap_place hfinal hnil hlength row
      rw [List.append_nil] at hgap
      simp [Lexer.tokensFrom, hgap, Gap.triviaText_place, endToken]
  | cons l ls ih =>
      obtain ⟨hspelled, hgap, hopen, hrest⟩ := h
      obtain ⟨fuel, rfl⟩ : exists n, fuel = n + 1 := ⟨fuel - 1, by omega⟩
      have hpositive : 0 < l.text.length := List.length_pos_iff.mpr (text_ne_nil hspelled)
      simp only [source_cons, List.append_assoc, List.length_append] at hfuel
      have hgapLength : l.gap.text.length < fuel + 1 := by omega
      have htextLength : l.text.length < fuel + 1 := by omega
      have hrestLength : (source ls ++ final.text).length < fuel := by
        rw [List.length_append]
        omega
      have hread := Gap.gap_place hgap (stops_text hspelled (source ls ++ final.text)) hgapLength row
      have hgoes : l.isOpen = true -> (source ls ++ final.text).head?.any goesOn = false := by
        intro hl
        cases ls with
        | nil =>
            cases hhead : final.text.head? with
            | none => simp [hhead]
            | some c =>
                simp only [source_nil, List.nil_append, hhead, Option.any_some]
                rcases Gap.head_text hfinal hhead with hc | rfl
                · exact not_goesOn_of_isGap hc
                · rfl
        | cons m ms =>
            obtain ⟨hm, hmgap, -, -⟩ := hrest
            have happart := goesOn_of_startsApart hm hmgap (hopen hl m rfl) (source ms ++ final.text)
            simpa using happart
      have hnext := next?_text hspelled hgoes htextLength operand
      have hmore := ih hrest hrestLength
        (Lexer.endsOperand operand l.kind l.text) (row + rows [l])
      have hbraces : Lexer.bracesAfter [] l.kind l.text = [] := by
        unfold isSpelled at hspelled
        split at hspelled <;> rename_i hkind
        all_goals first | rw [hkind]; rfl | cases hspelled
      have hrow : Text.lineFeeds l.gap.text + Text.lineFeeds l.text = rows [l] := by
        simp [rows]
      simp only [source_cons, List.append_assoc, Lexer.tokensFrom, hread, Gap.triviaText_place]
      split
      · rename_i hnil
        exact absurd (List.append_eq_nil_iff.mp hnil).left (text_ne_nil hspelled)
      · simp [hnext, hbraces, Nat.add_assoc, hrow, hmore, token, rows_cons l ls]

/-!
## Clean texts

A text without U+0000 is read just as it is, if no line ending in it is a pair.  Carriage
returns stand in literals only, where a backslash stands in front of them and something else
than a line feed behind them.
-/

theorem isClean_of_isNamePart {c : Char} (h : isNamePart c = true) : Text.isClean c = true := by
  have hzero : c ≠ '\x00' := by
    rintro rfl
    cases h
  have hreturn : c ≠ '\r' := by
    rintro rfl
    cases h
  simp [Text.isClean, hzero, hreturn]

theorem isClean_of_isHexDigit {c : Char} (h : isHexDigit c = true) : Text.isClean c = true := by
  have hzero : c ≠ '\x00' := by
    rintro rfl
    cases h
  have hreturn : c ≠ '\r' := by
    rintro rfl
    cases h
  simp [Text.isClean, hzero, hreturn]

theorem isClean_of_isNameEscape {e : List Char} (h : Lexer.IsNameEscape e) :
    e.all Text.isClean = true := by
  obtain ⟨s, rfl, hescape⟩ := h
  have hclean : forall {s : List Char}, s.all isHexDigit = true -> s.all Text.isClean = true := by
    intro s hs
    rw [List.all_eq_true] at hs ⊢
    exact fun c hc => isClean_of_isHexDigit (hs c hc)
  rw [List.all_cons, List.all_cons]
  cases hescape [] with
  | @braced a more hhex =>
      simp only [List.append_eq, List.cons_append, List.all_cons, List.all_append]
      have hdigits := hclean hhex
      rw [List.all_cons] at hdigits
      rw [← Bool.and_assoc _ (more.all _), hdigits]
      rfl
  | four hhex =>
      rw [hclean hhex]
      rfl
  | octal hc => cases hc
  | pair hc => simp at hc
  | single _ hu => exact absurd rfl hu

theorem isClean_of_isNameRest {s : List Char} (h : Lexer.IsNameRest s) :
    s.all Text.isClean = true := by
  induction h with
  | nil => rfl
  | part hc h ih => rw [List.all_cons, isClean_of_isNamePart hc, ih, Bool.and_self]
  | escape he h ih => rw [List.all_append, isClean_of_isNameEscape he, ih, Bool.and_self]

theorem isClean_of_isWord {s : List Char} (h : Lexer.IsWord s) : s.all Text.isClean = true := by
  cases h with
  | start hc h =>
      have hpart : isNamePart _ = true := Bool.or_eq_true_iff.mpr (.inl hc)
      rw [List.all_cons, isClean_of_isNamePart hpart, isClean_of_isNameRest h, Bool.and_self]
  | escape he h =>
      rw [List.all_append, isClean_of_isNameEscape he, isClean_of_isNameRest h, Bool.and_self]

theorem isClean_or_isLiteral {l : Lexeme} (h : l.isSpelled = true) :
    l.text.all Text.isClean = true \/ isLiteral l.text = true := by
  unfold isSpelled at h
  cases htext : l.text with
  | nil => exact .inl rfl
  | cons d s =>
      rw [htext] at h
      split at h
      · exact .inl (isClean_of_isWord (Lexer.isWord_of_isWordText h))
      · left
        simp only [isWholeNumber, Bool.and_eq_true, List.all_eq_true] at h
        rw [List.all_eq_true]
        intro c hc
        rcases List.mem_cons.mp hc with rfl | hc
        · exact isClean_of_isNamePart (by simp [isNamePart, h.left.left])
        · exact isClean_of_isNamePart (by simp [isNamePart, h.left.right c hc])
      · exact .inr h
      · left
        simp only [Bool.and_eq_true, List.all_eq_true] at h
        rw [List.all_eq_true]
        intro c hc
        have hall : forall c, c ∈ "\x7b\x7d()[];,<>|&?:=!".toList -> Text.isClean c = true :=
          forall_mem_of_all (by decide)
        exact hall c (by simpa [isLoneMark] using h.right c hc)
      · cases h

theorem nul_not_mem_text {l : Lexeme} (h : l.isSpelled = true) : '\x00' ∉ l.text := by
  rcases isClean_or_isLiteral h with hclean | hliteral
  · exact Text.nul_not_mem_of_isClean hclean
  · simp only [isLiteral, Bool.and_eq_true, Bool.not_eq_true', List.contains_eq_mem,
      decide_eq_false_iff_not] at hliteral
    exact hliteral.left.right

theorem normalizeLines_text {l : Lexeme} (h : l.isSpelled = true) (rest : List Char) :
    Text.normalizeLines (l.text ++ rest) = l.text ++ Text.normalizeLines rest := by
  rcases isClean_or_isLiteral h with hclean | hliteral
  · exact Text.normalizeLines_of_isClean hclean rest
  · simp only [isLiteral, Bool.and_eq_true, Option.isSome_iff_exists, beq_iff_eq] at hliteral
    obtain ⟨⟨⟨ps, hps⟩, -⟩, hnormalized⟩ := hliteral
    obtain ⟨quote, hquote, htext, -⟩ := Quoted.fit_of_pieces? hps
    have hlast : l.text.getLast? = some quote := by
      rw [htext, Quoted.literal, List.getLast?_append]
      rfl
    have hborder : l.text.getLast? ≠ some '\r' := by
      rw [hlast]
      rcases hquote with rfl | rfl <;> decide
    rw [Text.normalizeLines_append (fun h => absurd h hborder), hnormalized]

theorem normalizeLines_source {ls : List Lexeme} (h : Apart ls) (rest : List Char) :
    Text.normalizeLines (source ls ++ rest) = source ls ++ Text.normalizeLines rest := by
  induction ls with
  | nil => rfl
  | cons l ls ih =>
      obtain ⟨hspelled, hgap, -, hrest⟩ := h
      rw [source_cons, List.append_assoc, List.append_assoc,
        Text.normalizeLines_of_isClean (Gap.isClean_of_reads hgap), normalizeLines_text hspelled,
        ih hrest]
      simp only [List.append_assoc]

theorem nul_not_mem_of_legible {ls : List Lexeme} (h : Legible ls)
    (hplain : forall l, l ∈ ls -> l.gap.comments = []) : '\x00' ∉ source ls := by
  induction ls with
  | nil => exact List.not_mem_nil
  | cons l ls ih =>
      obtain ⟨hspelled, hlexes, -, hrest⟩ := h
      have hcomments := hplain l List.mem_cons_self
      have hmore := ih hrest fun m hm => hplain m (List.mem_cons_of_mem l hm)
      have hgap : '\x00' ∉ l.gap.text := by
        rw [Gap.lexes, hcomments] at hlexes
        rw [Gap.text, hcomments]
        intro hmem
        cases List.all_eq_true.mp hlexes _ hmem
      simp [hgap, nul_not_mem_text hspelled, hmore]

theorem tokens?_of_legible {ls : List Lexeme} (h : Legible ls) {final : Gap}
    (hfinal : final.lexes = true) (hzero : '\x00' ∉ source ls ++ final.text) :
    tokens? (source ls ++ final.text) = some (place 0 ls ++ [endToken (rows ls) final]) := by
  have hread := tokensFrom_source h hfinal (Nat.lt_succ_self _) false 0
  have hcontains : (source ls ++ final.text).contains '\x00' = false := by
    rw [List.contains_eq_mem, decide_eq_false_iff_not]
    exact hzero
  rw [tokens?, hcontains]
  simpa using hread

theorem nul_not_mem_source {ls : List Lexeme} (h : Apart ls) {final : Gap}
    (hfinal : final.reads = true) : '\x00' ∉ source ls ++ final.text := by
  induction ls with
  | nil => exact Text.nul_not_mem_of_isClean (Gap.isClean_of_reads hfinal)
  | cons l ls ih =>
      obtain ⟨hspelled, hgap, -, hrest⟩ := h
      have hgap := Text.nul_not_mem_of_isClean (Gap.isClean_of_reads hgap)
      simpa [hgap, nul_not_mem_text hspelled] using ih hrest

/-!
## Building lists that stand apart

Blanks in front of what a list starts with are spaces and line feeds.
-/

def isPad (s : List Char) : Bool :=
  s.all fun c => c == ' ' || c == '\n'

def Detached (ls : List Lexeme) : Prop :=
  Apart ls /\ forall m, ls.head? = some m -> m.startsApart = true

theorem reads_ofBlank {s : List Char} (h : isPad s = true) : (Gap.ofBlank s).reads = true := by
  simp only [isPad, List.all_eq_true] at h
  have hgap : s.all isGap = true := by
    rw [List.all_eq_true]
    intro c hc
    have hcase : c = ' ' \/ c = '\n' := by simpa using h c hc
    rcases hcase with rfl | rfl <;> decide
  have hclean : s.all Text.isClean = true := by
    rw [List.all_eq_true]
    intro c hc
    have hcase : c = ' ' \/ c = '\n' := by simpa using h c hc
    rcases hcase with rfl | rfl <;> decide
  simp [Gap.reads, Gap.lexes, Gap.ofBlank, Gap.commentsLex, Gap.text, Gap.commentsText, hgap, hclean]

theorem detached_mark {blank : List Char} (hblank : isPad blank = true) {c : Char}
    (hc : isLoneMark c = true) {ls : List Lexeme} (h : Apart ls) :
    Detached (mark blank c :: ls) := by
  refine ⟨⟨?_, reads_ofBlank hblank, ?_, h⟩, ?_⟩
  · simp [isSpelled, hc]
  · simp [isOpen]
  · simp [startsApart, isOpen]

theorem detached_brace {g : Gap} (hg : g.reads = true) {ls : List Lexeme} (h : Apart ls) :
    Detached (brace g :: ls) := by
  refine ⟨⟨rfl, hg, ?_, h⟩, ?_⟩
  · simp [isOpen, brace]
  · simp [startsApart, isOpen, brace]

theorem apart_word {g : Gap} (hg : g.reads = true) {s : List Char} (hs : isWordText s = true)
    {ls : List Lexeme} (h : Detached ls) : Apart (word g s :: ls) :=
  ⟨hs, hg, fun _ => h.right, h.left⟩

theorem apart_keyword {g : Gap} (hg : g.reads = true) {w : String}
    (hw : isWordText w.toList = true) {ls : List Lexeme} (h : Detached ls) :
    Apart (keyword g w :: ls) :=
  apart_word hg hw h

theorem apart_number {g : Gap} (hg : g.reads = true) {s : List Char} (hs : isWholeNumber s = true)
    {ls : List Lexeme} (h : Detached ls) : Apart (number g s :: ls) :=
  ⟨hs, hg, fun _ => h.right, h.left⟩

theorem leaf_of_isWordText {s : List Char} (h : isWordText s = true) (g : Gap) :
    leaf g s = word g s := by
  cases s with
  | nil => simp [isWordText, Lexer.name?, Lexer.nameEscape?] at h
  | cons c s =>
      obtain ⟨-, hdigit, -⟩ := Lexer.head_of_isWordText h
      simp [leaf, hdigit]

theorem leaf_of_isWholeNumber {s : List Char} (h : isWholeNumber s = true) (g : Gap) :
    leaf g s = number g s := by
  cases s with
  | nil => cases h
  | cons c s =>
      simp only [isWholeNumber, Bool.and_eq_true] at h
      simp [leaf, h.left.left]

theorem isSpelled_leaf {s : List Char} (hs : isWordText s = true \/ isWholeNumber s = true)
    (g : Gap) : (leaf g s).isSpelled = true := by
  cases hs with
  | inl hword =>
      rw [leaf_of_isWordText hword]
      exact hword
  | inr hnumber =>
      rw [leaf_of_isWholeNumber hnumber]
      exact hnumber

theorem text_ne_of_isSpelled {l : Lexeme} (h : l.isSpelled = true) {s : String}
    (hs : s ∈ ["...", "++", "--"]) : l.text ≠ s.toList := by
  intro htext
  rw [isSpelled, htext] at h
  simp only [List.mem_cons, List.not_mem_nil, or_false] at hs
  rcases hs with rfl | rfl | rfl <;> split at h <;> revert h <;> decide

theorem apart_leaf {g : Gap} (hg : g.reads = true) {s : List Char}
    (hs : isWordText s = true \/ isWholeNumber s = true) {ls : List Lexeme} (h : Detached ls) :
    Apart (leaf g s :: ls) := by
  cases hs with
  | inl hword =>
      rw [leaf_of_isWordText hword]
      exact apart_word hg hword h
  | inr hnumber =>
      rw [leaf_of_isWholeNumber hnumber]
      exact apart_number hg hnumber h

theorem detached_string {g : Gap} (hg : g.reads = true) {s : List Char} (hs : isLiteral s = true)
    {ls : List Lexeme} (h : Apart ls) : Detached (string g s :: ls) := by
  refine ⟨⟨hs, hg, ?_, h⟩, ?_⟩
  · simp [isOpen]
  · simp [startsApart, isOpen]

theorem detached_of_gap {l : Lexeme} {ls : List Lexeme} (h : Apart (l :: ls))
    (hgap : l.gap.text ≠ []) : Detached (l :: ls) := by
  refine ⟨h, ?_⟩
  intro m hm
  rw [List.head?_cons, Option.some.injEq] at hm
  subst hm
  simp [startsApart, hgap]

def IsOptional (c : Char) (ls : List Lexeme) : Prop :=
  ls = [] \/ exists b, ls = [mark b c]

theorem apart_append {ls rest : List Lexeme} (h : Apart ls) (hrest : Detached rest) :
    Apart (ls ++ rest) := by
  induction ls with
  | nil => exact hrest.left
  | cons l ls ih =>
      obtain ⟨hspelled, hreads, hopen, hmore⟩ := h
      refine ⟨hspelled, hreads, ?_, ih hmore⟩
      cases ls with
      | nil => exact fun _ => hrest.right
      | cons m ms => exact hopen

theorem Detached.append {ls rest : List Lexeme} (h : Detached ls) (hrest : Detached rest) :
    Detached (ls ++ rest) := by
  refine ⟨apart_append h.left hrest, ?_⟩
  cases ls with
  | nil => exact hrest.right
  | cons l ls => exact h.right

/-- The lexemes end with a semicolon. -/
def IsClosed (ls : List Lexeme) : Prop :=
  exists front b, ls = front ++ [mark b ';']

theorem isClosed_mark (b : List Char) : IsClosed [mark b ';'] :=
  ⟨[], b, rfl⟩

theorem IsClosed.append {ls : List Lexeme} (h : IsClosed ls) (front : List Lexeme) :
    IsClosed (front ++ ls) := by
  obtain ⟨more, b, rfl⟩ := h
  exact ⟨front ++ more, b, (List.append_assoc _ _ _).symm⟩

theorem IsClosed.cons {ls : List Lexeme} (h : IsClosed ls) (l : Lexeme) : IsClosed (l :: ls) :=
  h.append [l]

theorem IsClosed.apart_append {ls rest : List Lexeme} (hclosed : IsClosed ls) (h : Apart ls)
    (hrest : Apart rest) : Apart (ls ++ rest) := by
  obtain ⟨front, b, rfl⟩ := hclosed
  induction front with
  | nil =>
      obtain ⟨hspelled, hreads, -, -⟩ := h
      refine ⟨hspelled, hreads, ?_, hrest⟩
      simp [isOpen]
  | cons l front ih =>
      obtain ⟨hspelled, hreads, hopen, hmore⟩ := h
      refine ⟨hspelled, hreads, ?_, ih hmore⟩
      cases front with
      | nil => exact hopen
      | cons m ms => exact hopen

/-!
## Lexemes of a text

The lexemes that a text was spelled with are found again by reading it.
-/

def ofToken (t : Token) : Lexeme :=
  ⟨.ofTrivia [] t.gap, t.kind, t.text⟩

theorem map_ofToken_place (row : Nat) (ls : List Lexeme) : (place row ls).map ofToken = ls := by
  induction ls generalizing row with
  | nil => rfl
  | cons l ls ih =>
      have hl : ofToken (l.token row) = l := by
        rw [ofToken, token, Gap.ofTrivia_place]
      rw [place_cons, List.map_cons, ih, hl]

/-- The lexemes that a text is read as, none if it is not read. -/
def ofText (s : List Char) : List Lexeme :=
  ((tokens? s).getD []).dropLast.map ofToken

theorem ofText_source {ls : List Lexeme} (h : Apart ls) : ofText (source ls) = ls := by
  have hzero : '\x00' ∉ source ls ++ (Gap.ofBlank []).text := nul_not_mem_source h rfl
  have hread := @tokens?_of_legible ls h.legible (.ofBlank []) rfl hzero
  rw [Gap.text_ofBlank, List.append_nil] at hread
  rw [ofText, hread, Option.getD_some, List.dropLast_concat, map_ofToken_place]

@[simp] theorem ofText_nil : ofText [] = [] :=
  @ofText_source [] trivial

/-- The first lexeme stands behind another gap. -/
def withGap (g : Gap) : List Lexeme -> List Lexeme
  | [] => []
  | l :: ls => ⟨g, l.kind, l.text⟩ :: ls

theorem length_withGap (g : Gap) (ls : List Lexeme) : (withGap g ls).length = ls.length := by
  cases ls <;> rfl

theorem withGap_keyword (g g' : Gap) (w : String) (ls : List Lexeme) :
    withGap g (keyword g' w :: ls) = keyword g w :: ls := by
  rw [withGap, keyword_kind, keyword_text, keyword, word]

theorem apart_withGap {ls : List Lexeme} (h : Apart ls) {g : Gap} (hg : g.reads = true) :
    Apart (withGap g ls) := by
  cases ls with
  | nil => exact h
  | cons l ls => exact ⟨h.left, hg, h.right.right⟩

/-- A text is spelled by lexemes of a kind. -/
def SpelledAs (p : List Lexeme -> Prop) (s : List Char) : Prop :=
  exists ls, p ls /\ Apart ls /\ source ls = s

theorem SpelledAs.ofText {p : List Lexeme -> Prop} {s : List Char} (h : SpelledAs p s) :
    p (Lexeme.ofText s) /\ Apart (Lexeme.ofText s) /\ source (Lexeme.ofText s) = s := by
  obtain ⟨ls, hp, hapart, rfl⟩ := h
  rw [ofText_source hapart]
  exact ⟨hp, hapart, rfl⟩

end Lexeme

/-!
## Lists with separators
-/

/-- A value that stands behind a separator, with the blanks in front of the separator and
the lexemes of the value. -/
structure Further (α : Type) where
  blank : List Char
  value : α
  lexemes : List Lexeme

namespace Further

variable {α : Type}

def lexemesOf (separator : Char) (ps : List (Further α)) : List Lexeme :=
  ps.flatMap fun p => .mark p.blank separator :: p.lexemes

@[simp] theorem lexemesOf_nil (c : Char) : lexemesOf c ([] : List (Further α)) = [] :=
  rfl

@[simp] theorem lexemesOf_cons (c : Char) (p : Further α) (ps : List (Further α)) :
    lexemesOf c (p :: ps) = .mark p.blank c :: p.lexemes ++ lexemesOf c ps :=
  rfl

def map {β : Type} (f : α -> β) (p : Further α) : Further β :=
  ⟨p.blank, f p.value, p.lexemes⟩

@[simp] theorem lexemesOf_map {β : Type} (f : α -> β) (c : Char) (ps : List (Further α)) :
    lexemesOf c (ps.map (map f)) = lexemesOf c ps := by
  rw [lexemesOf, List.flatMap_map]
  rfl

theorem length_le_lexemesOf (c : Char) (ps : List (Further α)) :
    ps.length ≤ (lexemesOf c ps).length := by
  induction ps with
  | nil => exact Nat.zero_le _
  | cons p ps ih =>
      simp only [lexemesOf_cons, List.length_cons, List.length_append]
      omega

theorem length_le_of_mem (c : Char) {p : Further α} {ps : List (Further α)} (h : p ∈ ps) :
    p.lexemes.length + 1 ≤ (lexemesOf c ps).length := by
  induction ps with
  | nil => cases h
  | cons q ps ih =>
      simp only [lexemesOf_cons, List.length_cons, List.length_append]
      rcases List.mem_cons.mp h with rfl | hmem
      · omega
      · have hle := ih hmem
        omega

end Further

end TypeScript
end SchemaTypes
