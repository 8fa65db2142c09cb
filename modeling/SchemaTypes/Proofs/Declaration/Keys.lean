import SchemaTypes.Proofs.Declaration.Binding
import SchemaTypes.Proofs.TypeScript.LiteralValue

/-!
# Keys

A name that is no identifier is a key as a literal, in which its quotes, backslashes and
line breaks are escaped.  The literal stands for the name, so no two names have one key,
whether keys are taken as they are written or as what they stand for.
-/

namespace SchemaTypes

open TypeScript

namespace Declaration

/-!
## Identifiers
-/

/-- A word of ASCII letters, digits, underscores and dollar signs that no digit starts. -/
def IsAsciiIdentifier (s : List Char) : Prop :=
  s.head?.any (!Char.isDigit ·) = true /\
    forall c, c ∈ s -> c.isAlphanum = true \/ c = '_' \/ c = '$'

theorem isLetter_eq_isAlpha (c : Char) : isLetter c = c.isAlpha := by
  have hupper : c.isUpper = ('A' ≤ c && c ≤ 'Z') := Bool.decide_and ('A' ≤ c) (c ≤ 'Z')
  have hlower : c.isLower = ('a' ≤ c && c ≤ 'z') := rfl
  rw [isLetter, Bool.or_comm, ← hupper, ← hlower]
  rfl

theorem startsIdentifier_of_isDigit {c : Char} (h : c.isDigit = true) :
    startsIdentifier c = false := by
  simp only [Char.isDigit, Bool.and_eq_true, decide_eq_true_eq, ge_iff_le] at h
  simp only [startsIdentifier, isLetter, Char.le_def, Bool.or_eq_false_iff, Bool.and_eq_false_iff,
    decide_eq_false_iff_not, beq_eq_false_iff_ne, ne_eq, Char.ext_iff]
  grind

theorem continuesIdentifier_iff {c : Char} :
    continuesIdentifier c = true <-> c.isAlphanum = true \/ c = '_' \/ c = '$' := by
  have hdigit : Text.isDigit c = c.isDigit := rfl
  simp only [continuesIdentifier, startsIdentifier, isLetter_eq_isAlpha, hdigit, Char.isAlphanum,
    Bool.or_eq_true, beq_iff_eq]
  tauto

theorem startsIdentifier_iff {c : Char} :
    startsIdentifier c = true <-> continuesIdentifier c = true /\ c.isDigit = false := by
  have hdigit : Text.isDigit c = c.isDigit := rfl
  rw [continuesIdentifier, hdigit]
  cases hc : c.isDigit with
  | false => simp
  | true => simp [startsIdentifier_of_isDigit hc]

theorem isIdentifier_iff {s : List Char} : isIdentifier s = true <-> IsAsciiIdentifier s := by
  cases s with
  | nil => simp [isIdentifier, IsAsciiIdentifier]
  | cons c rest =>
      simp only [isIdentifier, IsAsciiIdentifier, Bool.and_eq_true, List.all_eq_true,
        startsIdentifier_iff, continuesIdentifier_iff, List.head?_cons, Option.any_some,
        Bool.not_eq_true', List.forall_mem_cons]
      tauto

/-!
## Literals
-/

/-- A literal between double quotes on one line, which no quote ends early. -/
def IsQuoted (s : List Char) : Prop :=
  exists inside, s = '"' :: inside ++ ['"'] /\ Quoted.escapesQuotes inside = true /\
    '\n' ∉ inside /\ '\r' ∉ inside

theorem escapesQuotes_literalChar (c : Char) (rest : List Char) :
    Quoted.escapesQuotes (literalChar c ++ rest) = Quoted.escapesQuotes rest := by
  unfold literalChar
  split
  · rfl
  · rfl
  · rfl
  · rfl
  · rfl
  · rename_i hquote hslash _ _ _
    exact Quoted.escapesQuotes_plain hquote hslash rest

theorem escapesQuotes_flatMap (s : List Char) :
    Quoted.escapesQuotes (s.flatMap literalChar) = true := by
  induction s with
  | nil => rfl
  | cons c s ih => rw [List.flatMap_cons, escapesQuotes_literalChar, ih]

theorem isQuoted_literal (s : List Char) : IsQuoted (literal s) := by
  have hclean : forall d, d ∈ s.flatMap literalChar -> d ≠ '\n' /\ d ≠ '\r' := by
    intro d hd
    obtain ⟨c, -, hc⟩ := List.mem_flatMap.mp hd
    obtain ⟨hfeed, hreturn, -⟩ := clean_literalChar hc
    exact ⟨hfeed, hreturn⟩
  exact ⟨s.flatMap literalChar, rfl, escapesQuotes_flatMap s,
    fun hmem => (hclean _ hmem).left rfl, fun hmem => (hclean _ hmem).right rfl⟩

theorem value?_literal (s : List Char) : Quoted.value? (literal s) = some (Text.utf16 s) :=
  Quoted.value?_of_decode? (decode?_literal s)

/-!
## Keys
-/

def keyValue? (key : List Char) : Option (List Nat) :=
  if key.head? = some '"' then Quoted.value? key else some (Text.utf16 key)

def IsKeyOf (name key : List Char) : Prop :=
  key = name /\ IsAsciiIdentifier name \/
    IsQuoted key /\ Quoted.value? key = some (Text.utf16 name)

theorem isKeyOf_literal (name : List Char) : IsKeyOf name (literal name) :=
  .inr ⟨isQuoted_literal name, value?_literal name⟩

theorem isKeyOf_entryKey (name : List Char) : IsKeyOf name (entryKey name) := by
  rw [entryKey]
  split
  · rename_i hname
    exact .inl ⟨rfl, isIdentifier_iff.mp hname⟩
  · exact isKeyOf_literal name

theorem isKeyOf_memberKey (name : List Char) : IsKeyOf name (memberKey name) := by
  rw [memberKey]
  split
  · exact isKeyOf_literal name
  · exact isKeyOf_entryKey name

theorem keyValue?_of_isKeyOf {name key : List Char} (h : IsKeyOf name key) :
    keyValue? key = some (Text.utf16 name) := by
  rcases h with ⟨rfl, hname⟩ | ⟨⟨inside, rfl, -⟩, hvalue⟩
  · have hhead : key.head? ≠ some '"' := by
      intro hquote
      have hmem : '"' ∈ key := List.mem_of_head? hquote
      have hquote := hname.right '"' hmem
      simp at hquote
    rw [keyValue?, if_neg hhead]
  · have hhead : ('"' :: inside ++ ['"']).head? = some '"' := rfl
    rw [keyValue?, if_pos hhead, hvalue]

theorem keyValue?_injective {key : List Char -> List Char} (h : forall name, IsKeyOf name (key name)) :
    Function.Injective fun name => keyValue? (key name) := by
  intro s t hst
  simp only [keyValue?_of_isKeyOf (h _), Option.some.injEq] at hst
  exact Text.utf16_injective hst

/-- Escaping is undone by what a literal stands for, and every name has a key of its own. -/
theorem keys_stand_for_names :
    (forall s, IsQuoted (literal s) /\ Quoted.value? (literal s) = some (Text.utf16 s)) /\
      (forall name, IsKeyOf name (entryKey name) /\ IsKeyOf name (memberKey name)) /\
      Function.Injective entryKey /\ Function.Injective memberKey /\
      (Function.Injective fun name => keyValue? (entryKey name)) /\
      Function.Injective fun name => keyValue? (memberKey name) := by
  refine ⟨?_, ?_, entryKey_injective, memberKey_injective, ?_, ?_⟩
  · exact fun s => ⟨isQuoted_literal s, value?_literal s⟩
  · exact fun name => ⟨isKeyOf_entryKey name, isKeyOf_memberKey name⟩
  · exact keyValue?_injective isKeyOf_entryKey
  · exact keyValue?_injective isKeyOf_memberKey

end Declaration
end SchemaTypes
