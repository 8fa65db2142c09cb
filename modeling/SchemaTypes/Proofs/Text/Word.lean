import Mathlib.Data.Nat.Digits.Defs
import SchemaTypes.Proofs.Text.Joining
import SchemaTypes.Text.Word

/-!
# Texts that spell a number

A number is spelled by its decimal digits, which zeros and a plus may precede, between
blanks.  The word of a trimmed text is the number that the text spells, if it is below
`2 ^ 64`.
-/

namespace SchemaTypes
namespace Text

/-!
## Padding
-/

/-- Blanks around a text without blanks are what trimming takes away. -/
theorem trim_padded {before s after : List Char} (hbefore : allBlank before = true)
    (hs : s.all (!isBlank ·) = true) (hne : s ≠ []) (hafter : allBlank after = true) :
    trim (before ++ s ++ after) = s := by
  have hstart : trimStart (before ++ s ++ after) = s ++ after := by
    rw [trimStart, List.append_assoc, List.dropWhile_append_of_pos (List.all_eq_true.mp hbefore)]
    cases s with
    | nil => exact absurd rfl hne
    | cons c rest =>
        rw [List.all_cons, Bool.and_eq_true, Bool.not_eq_true'] at hs
        exact trimStart_cons hs.left _
  have hreverse : after.reverse.all isBlank = true := by
    rw [List.all_reverse]
    exact hafter
  calc
    trim (before ++ s ++ after) = trimEnd (s ++ after) := by rw [trim, hstart]
    _ = trimEnd s := by
        rw [trimEnd, List.reverse_append, List.dropWhile_append_of_pos (List.all_eq_true.mp hreverse), trimEnd]
    _ = s := by
        have htrim := trim_of_visible hs
        cases s with
        | nil => exact absurd rfl hne
        | cons c rest =>
            rw [List.all_cons, Bool.and_eq_true, Bool.not_eq_true'] at hs
            rwa [trim, trimStart_cons hs.left] at htrim

theorem exists_padded_trim (s : List Char) :
    exists before after, s = before ++ trim s ++ after /\ allBlank before = true /\
      allBlank after = true := by
  refine ⟨s.takeWhile isBlank, ((trimStart s).reverse.takeWhile isBlank).reverse, ?_, ?_, ?_⟩
  · have hend : trim s ++ ((trimStart s).reverse.takeWhile isBlank).reverse = trimStart s := by
      rw [trim, trimEnd, ← List.reverse_append, List.takeWhile_append_dropWhile,
        List.reverse_reverse]
    rw [List.append_assoc, hend, trimStart, List.takeWhile_append_dropWhile]
  · exact List.all_takeWhile
  · rw [allBlank, List.all_reverse]
    exact List.all_takeWhile

/-!
## Numbers
-/

/-- The number of decimal digits, of which the last one counts least. -/
theorem numberOfDigits_eq_ofDigits (s : List Char) :
    numberOfDigits s = Nat.ofDigits 10 (s.reverse.map digit) := by
  rw [numberOfDigits, List.foldl_eq_foldr_reverse, Nat.ofDigits_eq_foldr, List.foldr_map]
  simp [Nat.add_comm]

/-- The texts of decimal digits, which a plus may precede, between blanks. -/
inductive SpellsNumber : List Char -> Nat -> Prop
  | padded {before plus digits after : List Char} (hbefore : allBlank before = true)
      (hplus : plus = [] \/ plus = ['+']) (hne : digits ≠ [])
      (hdigits : digits.all isDigit = true) (hafter : allBlank after = true) :
      SpellsNumber (before ++ (plus ++ digits) ++ after)
        (Nat.ofDigits 10 (digits.reverse.map digit))

theorem isBlank_of_isDigit {c : Char} (h : isDigit c = true) : isBlank c = false := by
  simp only [isDigit, Bool.and_eq_true, decide_eq_true_eq, Char.le_def, UInt32.le_iff_toNat_le] at h
  have hlow : 48 ≤ c.toNat := h.left
  have hhigh : c.toNat ≤ 57 := h.right
  simp only [isBlank, Bool.or_eq_false_iff, Bool.and_eq_false_iff, decide_eq_false_iff_not,
    beq_eq_false_iff_ne]
  omega

theorem wordOfDigits?_eq_some {s : List Char} {n : Nat} :
    wordOfDigits? s = some n <->
      s ≠ [] /\ s.all isDigit = true /\ n < 2 ^ 64 /\ n = Nat.ofDigits 10 (s.reverse.map digit) := by
  have hbound : 1 <<< 64 = 2 ^ 64 := rfl
  rw [wordOfDigits?, ← numberOfDigits_eq_ofDigits, hbound]
  by_cases hempty : s = []
  · simp [hempty]
  by_cases hdigits : s.all isDigit = true
  · by_cases hlarge : 2 ^ 64 ≤ numberOfDigits s
    · simp only [hlarge, decide_true, Bool.or_true, if_true]
      constructor
      · intro h
        cases h
      · rintro ⟨_, _, hsmall, rfl⟩
        omega
    · simp only [hempty, hdigits, hlarge, List.isEmpty_iff, decide_false, Bool.not_true,
        Bool.or_false, if_false, Option.some.injEq, ne_eq, not_false_eq_true, true_and]
      constructor
      · rintro rfl
        exact ⟨by omega, rfl⟩
      · rintro ⟨_, rfl⟩
        rfl
  · simp [hdigits]

theorem word?_eq_some {s : List Char} {n : Nat} :
    word? s = some n <->
      exists plus digits, s = plus ++ digits /\ (plus = [] \/ plus = ['+']) /\
        wordOfDigits? digits = some n := by
  constructor
  · intro h
    unfold word? at h
    split at h
    · exact ⟨['+'], _, rfl, .inr rfl, h⟩
    · exact ⟨[], s, rfl, .inl rfl, h⟩
  · rintro ⟨plus, digits, rfl, rfl | rfl, hdigits⟩
    · rw [List.nil_append]
      unfold word?
      split
      · have hall := (wordOfDigits?_eq_some.mp hdigits).right.left
        cases hall
      · exact hdigits
    · exact hdigits

theorem word?_trim_eq_some {s : List Char} {n : Nat} :
    word? (trim s) = some n <-> SpellsNumber s n /\ n < 2 ^ 64 := by
  rw [word?_eq_some]
  constructor
  · rintro ⟨plus, digits, htrim, hplus, hword⟩
    obtain ⟨hne, hdigits, hbound, rfl⟩ := wordOfDigits?_eq_some.mp hword
    obtain ⟨before, after, hs, hbefore, hafter⟩ := exists_padded_trim s
    rw [htrim] at hs
    rw [hs]
    exact ⟨.padded hbefore hplus hne hdigits hafter, hbound⟩
  · rintro ⟨h, hbound⟩
    cases h with
    | @padded before plus digits after hbefore hplus hne hdigits hafter =>
        have hvisible : (plus ++ digits).all (!isBlank ·) = true := by
          rw [List.all_append, Bool.and_eq_true]
          constructor
          · rcases hplus with rfl | rfl <;> rfl
          · rw [List.all_eq_true]
            intro c hc
            rw [isBlank_of_isDigit (List.all_eq_true.mp hdigits c hc)]
            rfl
        exact ⟨plus, digits, trim_padded hbefore hvisible (by simp [hne]) hafter, hplus,
          wordOfDigits?_eq_some.mpr ⟨hne, hdigits, hbound, rfl⟩⟩

theorem SpellsNumber.unique {s : List Char} {m n : Nat} (hm : SpellsNumber s m)
    (hn : SpellsNumber s n) (hbound : m < 2 ^ 64) (hbound' : n < 2 ^ 64) : m = n :=
  Option.some.inj <|
    (word?_trim_eq_some.mpr ⟨hm, hbound⟩).symm.trans (word?_trim_eq_some.mpr ⟨hn, hbound'⟩)

end Text
end SchemaTypes
