import SchemaTypes.Json.Printer

/-!
# Printed values stand on one line

The compact text of a value holds no line feed, whatever texts, keys and numbers
are in the value: texts escape their line feeds, and numbers are written with
digits and a few marks.
-/

namespace SchemaTypes

/-!
## Digits
-/

theorem isDigit_of_mem_toString {n : Nat} {c : Char} (h : c ∈ (toString n).toList) :
    c.isDigit = true := by
  rw [Nat.toString_eq_ofList_toDigits, String.toList_ofList] at h
  exact Nat.isDigit_of_mem_toDigits (by decide) (by decide) h

theorem newline_not_mem_toString_nat (n : Nat) : '\n' ∉ (toString n).toList := by
  intro h
  have hdigit : '\n'.isDigit = true := isDigit_of_mem_toString h
  revert hdigit
  decide

theorem newline_not_mem_toString_int (n : Int) : '\n' ∉ (toString n).toList := by
  cases n with
  | ofNat n =>
      exact newline_not_mem_toString_nat n
  | negSucc n =>
      intro h
      change '\n' ∈ ("-" ++ toString (n + 1)).toList at h
      rw [String.toList_append, List.mem_append] at h
      cases h with
      | inl hsign =>
          revert hsign
          decide
      | inr hdigits =>
          exact newline_not_mem_toString_nat (n + 1) hdigits

/-!
## Floating point numbers
-/

namespace Decimal

theorem newline_not_mem_digitsOf (n : Nat) : '\n' ∉ digitsOf n :=
  newline_not_mem_toString_nat n

theorem newline_not_mem_writeExponent (e : Int) : '\n' ∉ writeExponent e := by
  unfold writeExponent
  split
  · simp [newline_not_mem_digitsOf]
  · simp [newline_not_mem_digitsOf]

theorem newline_not_mem_writeDigits {s : List Char} (hs : '\n' ∉ s) (e : Int) :
    '\n' ∉ writeDigits s e := by
  unfold writeDigits
  have htake : forall n, '\n' ∉ s.take n := fun n h => hs (List.mem_of_mem_take h)
  have hdrop : forall n, '\n' ∉ s.drop n := fun n h => hs (List.mem_of_mem_drop h)
  have hexp : forall n : Int, '\n' ∉ writeExponent n := newline_not_mem_writeExponent
  dsimp only
  split
  · simp [hs]
  · split
    · simp [htake, hdrop]
    · split
      · simp [hs]
      · cases s with
        | nil =>
            exact List.not_mem_nil
        | cons c more =>
            cases more with
            | nil =>
                simpa [hexp] using hs
            | cons d rest =>
                simpa [hexp] using hs

theorem newline_not_mem_dropZeros {s : List Char} (hs : '\n' ∉ s) (e : Int) :
    '\n' ∉ (dropZeros s e).1 := by
  intro h
  have hmem : '\n' ∈ s.reverse.dropWhile (· == '0') := by
    simpa [dropZeros] using h
  exact hs (List.mem_reverse.mp (List.dropWhile_sublist _ |>.mem hmem))

theorem Binary64.newline_not_mem_write (x : Binary64) : '\n' ∉ x.write := by
  unfold Binary64.write
  have hsign : '\n' ∉ (if x.negative then ['-'] else [] : List Char) := by
    split <;> decide
  dsimp only
  split
  · simp [hsign]
  · have hdigits := newline_not_mem_digitsOf (shortest x.mantissa x.exponent).digits
    have hkept := newline_not_mem_dropZeros hdigits (shortest x.mantissa x.exponent).exponent
    rw [List.mem_append, not_or]
    exact ⟨hsign, newline_not_mem_writeDigits hkept _⟩

end Decimal

theorem Number.newline_not_mem_print (n : Number) : '\n' ∉ n.print := by
  cases n with
  | integer n => exact newline_not_mem_toString_int n
  | float x => exact x.newline_not_mem_write

/-!
## Texts and values
-/

namespace Json

theorem newline_not_mem_printChar (c : Char) : '\n' ∉ printChar c := by
  unfold printChar
  split
  all_goals try decide
  rename_i hfeed _ _ _ _
  have hc : '\n' ≠ c := fun h => hfeed h.symm
  split
  · rename_i hsmall
    have hdigit : forall n, n < 16 -> '\n' ≠ Nat.digitChar n := by decide
    have hhigh := hdigit (c.toNat / 16) (by omega)
    have hlow := hdigit (c.toNat % 16) (by omega)
    simp [hhigh, hlow]
  · simpa using hc

theorem newline_not_mem_printText (s : List Char) : '\n' ∉ printText s := by
  have hchars : '\n' ∉ s.flatMap printChar := by
    intro h
    obtain ⟨c, _, hc⟩ := List.mem_flatMap.mp h
    exact newline_not_mem_printChar c hc
  simpa [printText] using hchars

mutual

theorem newline_not_mem_compact : forall j : Json, '\n' ∉ j.compact
  | null => by decide
  | bool true => by decide
  | bool false => by decide
  | number n => by
      simpa [compact] using n.newline_not_mem_print
  | string s => by
      simpa [compact] using newline_not_mem_printText s
  | array items => by
      simpa [compact] using newline_not_mem_compactItems items
  | object members => by
      simpa [compact] using newline_not_mem_compactMembers members

theorem newline_not_mem_compactItems : forall items : List Json, '\n' ∉ compactItems items
  | [] => by decide
  | [j] => by
      simpa [compactItems] using newline_not_mem_compact j
  | j :: k :: rest => by
      have hhead := newline_not_mem_compact j
      have htail := newline_not_mem_compactItems (k :: rest)
      simp [compactItems, hhead, htail]

theorem newline_not_mem_compactMembers :
    forall members : List (List Char × Json), '\n' ∉ compactMembers members
  | [] => by decide
  | [(k, j)] => by
      have hkey := newline_not_mem_printText k
      have hvalue := newline_not_mem_compact j
      simp [compactMembers, hkey, hvalue]
  | (k, j) :: m :: rest => by
      have hkey := newline_not_mem_printText k
      have hvalue := newline_not_mem_compact j
      have htail := newline_not_mem_compactMembers (m :: rest)
      simp [compactMembers, hkey, hvalue, htail]

end

end Json

end SchemaTypes
