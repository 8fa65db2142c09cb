import SchemaTypes.Declaration
import SchemaTypes.Proofs.TypeScript.StatementSpelling

/-!
# Names in declarations

The names of declarations and types are identifiers without a meaning of their own in
the language.  Any text can be the name of a field or a value: as a key it is an
identifier or a literal, and no two names have the same key.
-/

namespace SchemaTypes

open TypeScript

/-!
## Literals
-/

namespace Declaration

def literalPiece (c : Char) : Quoted.Piece :=
  match c with
  | '"' => .escape ['"']
  | '\\' => .escape ['\\']
  | '\n' => .escape ['n']
  | '\r' => .escape ['r']
  | '\t' => .escape ['t']
  | c => .plain c

theorem text_literalPiece (c : Char) : (literalPiece c).text = literalChar c := by
  unfold literalPiece
  split
  · rfl
  · rfl
  · rfl
  · rfl
  · rfl
  · rename_i hquote hslash hfeed hreturn htab
    exact (literalChar.eq_6 c hquote hslash hfeed hreturn htab).symm

theorem literalPiece_injective : Function.Injective literalPiece := by
  intro c d h
  unfold literalPiece at h
  split at h <;> split at h <;> simp_all

theorem literal_eq (s : List Char) :
    literal s = Quoted.literal '"' (s.map literalPiece) := by
  have hinside : s.flatMap literalChar = Quoted.inside (s.map literalPiece) := by
    rw [Quoted.inside, List.flatMap_map]
    exact congrArg (s.flatMap ·) (funext fun c => (text_literalPiece c).symm)
  rw [literal, Quoted.literal, hinside]

theorem fit_literalPiece (s : List Char) : Quoted.Fit '"' (s.map literalPiece) := by
  have hescape : forall {c : Char} (rest : List Char), c ∈ ['"', '\\', 'n', 'r', 't'] ->
      Lexer.IsEscape [c] rest := by
    intro c rest hc
    have hplain : c ≠ 'x' /\ c ≠ 'u' /\ isOctalDigit c = false /\ ¬(c = '\r' \/ c = '?') := by
      simp only [List.mem_cons, List.not_mem_nil, or_false] at hc
      rcases hc with rfl | rfl | rfl | rfl | rfl <;> decide
    obtain ⟨hx, hu, hoctal, hpair⟩ := hplain
    exact .single hx hu hoctal fun h => absurd h hpair
  induction s with
  | nil => trivial
  | cons c rest ih =>
      rw [List.map_cons]
      unfold literalPiece
      split
      · exact ⟨hescape _ (by simp), ih⟩
      · exact ⟨hescape _ (by simp), ih⟩
      · exact ⟨hescape _ (by simp), ih⟩
      · exact ⟨hescape _ (by simp), ih⟩
      · exact ⟨hescape _ (by simp), ih⟩
      · rename_i hquote hslash hfeed hreturn _
        exact ⟨hquote, hslash, hfeed, hreturn, ih⟩

theorem pieces?_literal (s : List Char) :
    Quoted.pieces? (literal s) = some (s.map literalPiece) := by
  rw [literal_eq, Quoted.pieces?_literal (fit_literalPiece s)]

/-- A literal has no line ending, and a NUL only if its text has one. -/
theorem clean_literalChar {c d : Char} (h : d ∈ literalChar c) :
    d ≠ '\n' /\ d ≠ '\r' /\ (d = '\x00' -> c = d) := by
  unfold literalChar at h
  split at h
  all_goals simp only [List.mem_cons, List.not_mem_nil, or_false] at h
  case h_6 hfeed hreturn _ =>
    subst h
    exact ⟨hfeed, hreturn, fun _ => rfl⟩
  all_goals
    rcases h with rfl | rfl <;> exact ⟨by decide, by decide, fun hzero => absurd hzero (by decide)⟩

theorem clean_literal {s : List Char} {d : Char} (h : d ∈ literal s) :
    d ≠ '\n' /\ d ≠ '\r' /\ (d = '\x00' -> d ∈ s) := by
  simp only [literal, List.cons_append, List.mem_cons, List.mem_append, List.mem_flatMap,
    List.not_mem_nil, or_false] at h
  rcases h with rfl | ⟨c, hc, hmem⟩ | rfl
  · exact ⟨by decide, by decide, fun hzero => absurd hzero (by decide)⟩
  · obtain ⟨hfeed, hreturn, hzero⟩ := clean_literalChar hmem
    exact ⟨hfeed, hreturn, fun heq => hzero heq ▸ hc⟩
  · exact ⟨by decide, by decide, fun hzero => absurd hzero (by decide)⟩

/-- The literal of a text without NUL is one that can be read. -/
theorem isLiteral_literal {s : List Char} (h : '\x00' ∉ s) : isLiteral (literal s) = true := by
  have hzero : (literal s).contains '\x00' = false := by
    rw [List.contains_eq_mem, decide_eq_false_iff_not]
    exact fun hmem => h ((clean_literal hmem).right.right rfl)
  have hreturn : '\r' ∉ literal s := fun hmem => (clean_literal hmem).right.left rfl
  rw [isLiteral, pieces?_literal, hzero, Text.normalizeLines_of_plain hreturn]
  simp

theorem literal_injective : Function.Injective literal := by
  intro s t h
  have hpieces := pieces?_literal s
  rw [h, pieces?_literal t, Option.some.injEq] at hpieces
  exact (List.map_inj_right fun _ _ hc => literalPiece_injective hc).mp hpieces.symm

/-!
## Identifiers
-/

/-- The words that mean something of their own in the language. -/
def keywords : List String :=
  "enum" :: Parser.nonTypeWords ++ Parser.nonQueryWords

def isName (s : List Char) : Bool :=
  isIdentifier s && !keywords.any (s == ·.toList)

theorem reserved_mem_keywords {w : String} (h : w ∈ Parser.reservedWords) : w ∈ keywords :=
  List.mem_append_left _ (List.mem_cons_of_mem _ (List.mem_append_right _ h))

theorem toNat_lt_of_continuesIdentifier {c : Char} (h : continuesIdentifier c = true) :
    c.toNat < 128 := by
  simp only [continuesIdentifier, startsIdentifier, isLetter, Text.isDigit, Bool.or_eq_true,
    Bool.and_eq_true, decide_eq_true_eq, beq_iff_eq] at h
  rcases h with ((((⟨-, h⟩ | ⟨-, h⟩) | rfl) | rfl) | ⟨-, h⟩)
  · exact Nat.lt_of_le_of_lt h (by decide)
  · exact Nat.lt_of_le_of_lt h (by decide)
  · decide
  · decide
  · exact Nat.lt_of_le_of_lt h (by decide)

theorem isNamePart_of_continuesIdentifier {c : Char} (h : continuesIdentifier c = true) :
    isNamePart c = true /\ Text.isBlank c = false := by
  have hall : forall n, n < 128 -> continuesIdentifier (Char.ofNat n) = true ->
      isNamePart (Char.ofNat n) = true /\ Text.isBlank (Char.ofNat n) = false := by
    decide +kernel
  have hc := hall c.toNat (toNat_lt_of_continuesIdentifier h)
  rw [Char.ofNat_toNat] at hc
  exact hc h

theorem isNameStart_of_startsIdentifier {c : Char} (h : startsIdentifier c = true) :
    isNameStart c = true := by
  have hall : forall n, n < 128 -> startsIdentifier (Char.ofNat n) = true ->
      isNameStart (Char.ofNat n) = true := by
    decide +kernel
  have hcontinues : continuesIdentifier c = true := by
    rw [continuesIdentifier, h, Bool.true_or]
  have hc := hall c.toNat (toNat_lt_of_continuesIdentifier hcontinues)
  rw [Char.ofNat_toNat] at hc
  exact hc h

theorem isPlainWord_of_isIdentifier {s : List Char} (h : isIdentifier s = true) :
    isPlainWord s = true := by
  cases s with
  | nil => cases h
  | cons c rest =>
      rw [isIdentifier, Bool.and_eq_true, List.all_eq_true] at h
      simp only [isPlainWord, Bool.and_eq_true, List.all_eq_true, Bool.not_eq_true', List.mem_cons]
      have hfirst : continuesIdentifier c = true := by
        rw [continuesIdentifier, h.left, Bool.true_or]
      refine ⟨⟨isNameStart_of_startsIdentifier h.left, ?_⟩, ?_⟩
      · exact fun d hd => (isNamePart_of_continuesIdentifier (h.right d hd)).left
      · rintro d (rfl | hd)
        · exact (isNamePart_of_continuesIdentifier hfirst).right
        · exact (isNamePart_of_continuesIdentifier (h.right d hd)).right

theorem isWordText_of_isIdentifier {s : List Char} (h : isIdentifier s = true) :
    isWordText s = true :=
  Lexer.isWordText_of_isPlainWord (isPlainWord_of_isIdentifier h)

section

variable {s : List Char} (h : isName s = true)

include h

theorem isWordText_of_isName : isWordText s = true := by
  rw [isName, Bool.and_eq_true] at h
  exact isWordText_of_isIdentifier h.left

theorem not_any_of_isName {ws : List String} (hws : forall w, w ∈ ws -> w ∈ keywords) :
    ws.any (s == ·.toList) = false := by
  rw [isName, Bool.and_eq_true, Bool.not_eq_true', List.any_eq_false] at h
  rw [List.any_eq_false]
  exact fun w hw => h.right w (hws w hw)

theorem isIdentifier_of_isName : TypeScript.isIdentifier s = true := by
  rw [TypeScript.isIdentifier, isWordText_of_isName h,
    not_any_of_isName h fun w hw => reserved_mem_keywords hw]
  rfl

theorem isBindingName_of_isName : isBindingName s = true := by
  have hwords : forall w, w ∈ "enum" :: Parser.reservedWords -> w ∈ keywords := by
    rintro w (_ | ⟨_, hw⟩)
    · exact List.mem_append_left _ List.mem_cons_self
    · exact reserved_mem_keywords hw
  rw [isBindingName, isWordText_of_isName h, not_any_of_isName h hwords]
  rfl

theorem isQueryWord_of_isName : TypeTree.isQueryWord s = true := by
  rw [TypeTree.isQueryWord, isWordText_of_isName h,
    not_any_of_isName h fun w hw => List.mem_append_right _ hw]
  rfl

theorem isTypeWord_of_isName : TypeTree.isTypeWord s = true := by
  have hwords : Parser.nonTypeWords.any (s == ·.toList) = false :=
    not_any_of_isName h fun w hw => List.mem_append_left _ (List.mem_cons_of_mem _ hw)
  rw [TypeTree.isTypeWord, isWordText_of_isName h, hwords, Bool.not_false, Bool.or_true]
  rfl

theorem isTypeWord_declaredType : TypeTree.isTypeWord (declaredType s) = true := by
  unfold declaredType
  split
  all_goals first | decide | exact isTypeWord_of_isName h

end

theorem feed_not_mem_of_isWordText {s : List Char} (h : isWordText s = true) : '\n' ∉ s := by
  intro hmem
  have hvisible := List.all_eq_true.mp (TypeTree.visible_of_isWordText h) _ hmem
  cases hvisible

/-!
## Keys
-/

theorem feed_not_mem_entryKey (name : List Char) : '\n' ∉ entryKey name := by
  rw [entryKey]
  split
  · rename_i hname
    exact feed_not_mem_of_isWordText (isWordText_of_isIdentifier hname)
  · exact fun hmem => (clean_literal hmem).left rfl

theorem feed_not_mem_memberKey (name : List Char) : '\n' ∉ memberKey name := by
  rw [memberKey]
  split
  · exact fun hmem => (clean_literal hmem).left rfl
  · exact feed_not_mem_entryKey name

theorem nul_mem_literal {s : List Char} (h : '\x00' ∈ s) : '\x00' ∈ literal s := by
  have hinside : '\x00' ∈ s.flatMap literalChar :=
    List.mem_flatMap.mpr ⟨'\x00', h, List.mem_singleton_self _⟩
  rw [literal]
  exact List.mem_append_left _ (List.mem_cons_of_mem _ hinside)

theorem nul_mem_entryKey {name : List Char} (h : '\x00' ∈ name) : '\x00' ∈ entryKey name := by
  rw [entryKey]
  split
  · exact h
  · exact nul_mem_literal h

theorem nul_mem_memberKey {name : List Char} (h : '\x00' ∈ name) : '\x00' ∈ memberKey name := by
  rw [memberKey]
  split
  · exact nul_mem_literal h
  · exact nul_mem_entryKey h

def entryName (name : List Char) : PropertyName :=
  ⟨entryKey name, !isIdentifier name⟩

def memberName (name : List Char) : PropertyName :=
  ⟨memberKey name, name == "abstract".toList || !isIdentifier name⟩

theorem isCanonical_literal {name : List Char} (h : '\x00' ∉ name) :
    PropertyName.isCanonical ⟨literal name, true⟩ = true := by
  rw [PropertyName.isCanonical, if_pos rfl, isLiteral_literal h]
  rfl

theorem isCanonical_entryName {name : List Char} (h : '\x00' ∉ name) :
    (entryName name).isCanonical = true := by
  rw [entryName, entryKey]
  cases hname : isIdentifier name with
  | true => simp [PropertyName.isCanonical, isWordText_of_isIdentifier hname]
  | false => exact isCanonical_literal h

theorem isCanonical_memberName {name : List Char} (h : '\x00' ∉ name) :
    (memberName name).isCanonical = true := by
  by_cases habstract : name = "abstract".toList
  · subst habstract
    decide
  · rw [memberName, memberKey, if_neg habstract, beq_false_of_ne habstract, Bool.false_or]
    exact isCanonical_entryName h

theorem literal_ne_of_isIdentifier {s t : List Char} (h : isIdentifier s = true) :
    literal t ≠ s := by
  rintro rfl
  cases h

theorem entryKey_injective : Function.Injective entryKey := by
  intro s t h
  rw [entryKey, entryKey] at h
  split at h <;> split at h
  · exact h
  · rename_i hs _
    exact absurd h.symm (literal_ne_of_isIdentifier hs)
  · rename_i ht
    exact absurd h (literal_ne_of_isIdentifier ht)
  · exact literal_injective h

theorem memberKey_injective : Function.Injective memberKey := by
  intro s t h
  have habstract : forall {u : List Char}, literal "abstract".toList = entryKey u ->
      u = "abstract".toList := by
    intro u hu
    rw [entryKey] at hu
    split at hu
    · rename_i hname
      exact absurd hu (literal_ne_of_isIdentifier hname)
    · exact (literal_injective hu).symm
  rw [memberKey, memberKey] at h
  split at h <;> rename_i hs <;> split at h <;> rename_i ht
  · rw [hs, ht]
  · rw [hs] at h
    rw [hs, habstract h]
  · rw [ht] at h
    rw [ht, habstract h.symm]
  · exact entryKey_injective h

end Declaration
end SchemaTypes
