import Mathlib.Algebra.Order.Field.Power
import Mathlib.Data.Rat.Cast.Order
import Mathlib.Tactic.Ring
import SchemaTypes.Json.Numeral
import SchemaTypes.Proofs.Decimal.Shortest
import SchemaTypes.Proofs.Json.Lexeme
import SchemaTypes.Proofs.Json.OneLine

/-!
# Written numbers are numerals

A numeral ends in front of a mark, a bracket or the end of its line.  The significand and the
exponent that are read from a written number have its value.
-/

namespace SchemaTypes
namespace Reader

open Text (isDigit digit)

/-!
## Digits
-/

/-- What stands behind a value in a text that is printed on one line. -/
inductive Ends : List Char -> Prop
  | nil : Ends []
  | feed : Ends ['\n']
  | comma (rest : List Char) : Ends (',' :: rest)
  | bracket (rest : List Char) : Ends (']' :: rest)
  | brace (rest : List Char) : Ends ('\x7d' :: rest)

theorem Ends.not_startsWithDigit {tail : List Char} (h : Ends tail) :
    startsWithDigit tail = false := by
  cases h <;> rfl

theorem le_ofDigitChars (s : List Char) (n : Nat) : n ≤ Nat.ofDigitChars 10 s n := by
  rw [Nat.ofDigitChars_eq_ofDigitChars_zero]
  exact Nat.le_add_right_of_le (Nat.le_mul_of_pos_left n (Nat.pow_pos (by decide)))

theorem ofDigitChars_cons (c : Char) (s : List Char) (n : Nat) :
    Nat.ofDigitChars 10 (c :: s) n = Nat.ofDigitChars 10 s (10 * n + digit c) :=
  Nat.ofDigitChars_cons

theorem digit_lt {c : Char} (h : isDigit c = true) : digit c < 10 := by
  rw [isDigit, Bool.and_eq_true, decide_eq_true_eq, decide_eq_true_eq, Char.le_def, Char.le_def,
    UInt32.le_iff_toNat_le, UInt32.le_iff_toNat_le] at h
  have hnine : c.toNat ≤ 57 := h.right
  have hzero : '0'.toNat = 48 := rfl
  rw [digit, hzero]
  omega

theorem ofDigitChars_lt {s : List Char} (hs : s.all isDigit = true) :
    Nat.ofDigitChars 10 s 0 < 10 ^ s.length := by
  induction s with
  | nil => exact Nat.one_pos
  | cons c s ih =>
      rw [List.all_cons, Bool.and_eq_true] at hs
      have hrest := ih hs.right
      have hle : 10 ^ s.length * digit c ≤ 10 ^ s.length * 9 :=
        Nat.mul_le_mul_left _ (Nat.le_of_lt_succ (digit_lt hs.left))
      rw [ofDigitChars_cons, Nat.ofDigitChars_eq_ofDigitChars_zero, List.length_cons, Nat.pow_succ,
        Nat.mul_zero, Nat.zero_add]
      omega

theorem significandFrom_digits {s tail : List Char} (hs : s.all isDigit = true)
    (htail : startsWithDigit tail = false) {n : Nat}
    (hroom : Nat.ofDigitChars 10 s n < significandBound) :
    significandFrom n (s ++ tail) = (Nat.ofDigitChars 10 s n, s.length, tail) := by
  induction s generalizing n with
  | nil =>
      cases tail with
      | nil => rfl
      | cons c tail =>
          have hc : isDigit c = false := htail
          rw [List.nil_append, significandFrom, hc]
          rfl
  | cons c s ih =>
      rw [List.all_cons, Bool.and_eq_true] at hs
      rw [ofDigitChars_cons] at hroom ⊢
      have hlt : 10 * n + digit c < significandBound :=
        Nat.lt_of_le_of_lt (le_ofDigitChars s (10 * n + digit c)) hroom
      rw [List.cons_append, significandFrom, hs.left, decide_eq_true hlt, ih hs.right hroom]
      rfl

theorem exponentFrom_digits {s tail : List Char} (hs : s.all isDigit = true)
    (htail : startsWithDigit tail = false) {n : Nat}
    (hroom : Nat.ofDigitChars 10 s n ≤ exponentBound) :
    exponentFrom n (s ++ tail) = (some (Nat.ofDigitChars 10 s n), tail) := by
  induction s generalizing n with
  | nil =>
      cases tail with
      | nil => rfl
      | cons c tail =>
          have hc : isDigit c = false := htail
          rw [List.nil_append, exponentFrom, hc]
          rfl
  | cons c s ih =>
      rw [List.all_cons, Bool.and_eq_true] at hs
      rw [ofDigitChars_cons] at hroom ⊢
      have hle : 10 * n + digit c ≤ exponentBound :=
        Nat.le_trans (le_ofDigitChars s (10 * n + digit c)) hroom
      rw [List.cons_append, exponentFrom, hs.left, if_neg (Nat.not_lt.mpr hle), ih hs.right hroom]
      rfl

/-!
## Parts of numerals
-/

/-- The digits in front of a point: no zero goes before others. -/
inductive IsWhole : List Char -> Prop
  | zero : IsWhole ['0']
  | digits {c : Char} {s : List Char} (hc : isDigit c = true) (hzero : c ≠ '0')
      (hs : s.all isDigit = true) : IsWhole (c :: s)

section

variable {negative : Bool} {n : Nat} {e : Int} {s u tail : List Char}

theorem numeral_whole (hs : IsWhole s) (htail : startsWithDigit tail = false)
    (hroom : Nat.ofDigitChars 10 s 0 < significandBound) :
    numeral negative (s ++ tail) = afterWhole negative (Nat.ofDigitChars 10 s 0) tail := by
  cases hs with
  | zero =>
      rw [List.cons_append, List.nil_append, numeral, htail]
      rfl
  | @digits c s hc hzero hs =>
      have hdigit : Nat.ofDigitChars 10 (c :: s) 0 = Nat.ofDigitChars 10 s (digit c) := by
        rw [ofDigitChars_cons, Nat.mul_zero, Nat.zero_add]
      rw [hdigit] at hroom
      rw [List.cons_append, numeral.eq_3 _ _ _ hzero, if_pos hc, significandFrom_digits hs htail hroom,
        hdigit]

theorem afterWhole_eq_afterDropped (htail : startsWithDigit tail = false) :
    afterWhole negative n tail = afterDropped negative n [] tail := by
  rw [afterWhole_eq]
  cases tail with
  | nil => rfl
  | cons c tail =>
      have hc : isDigit c = false := htail
      rw [List.takeWhile_cons, List.dropWhile_cons, hc]
      rfl

theorem fraction_digits (hu : u.all isDigit = true) (hne : u ≠ [])
    (htail : startsWithDigit tail = false) (hroom : Nat.ofDigitChars 10 u n < significandBound) :
    fraction negative n e (u ++ tail) =
      afterDigits negative (Nat.ofDigitChars 10 u n) (e - u.length) tail := by
  have hlength : u.length ≠ 0 := mt List.eq_nil_of_length_eq_zero hne
  rw [fraction, significandFrom_digits hu htail hroom]
  dsimp only
  rw [htail]
  exact if_neg hlength

end

/-!
## Written parts
-/

open Decimal

theorem all_isDigit_digitsOf (n : Nat) : (digitsOf n).all isDigit = true := by
  rw [List.all_eq_true]
  intro c hc
  exact isDigit_of_mem_toString hc

theorem digitsOf_eq (n : Nat) : digitsOf n = Nat.toDigits 10 n := by
  rw [digitsOf, Nat.toString_eq_ofList_toDigits, String.toList_ofList]

theorem ofDigitChars_digitsOf (n : Nat) : Nat.ofDigitChars 10 (digitsOf n) 0 = n := by
  rw [digitsOf_eq]
  exact Nat.ofDigitChars_ten_toDigits

theorem digitsOf_ne_nil (n : Nat) : digitsOf n ≠ [] := by
  rw [digitsOf_eq]
  exact Nat.toDigits_ne_nil

theorem exponentDigits_digits {negative down : Bool} {n : Nat} {e : Int} {s tail : List Char}
    (hs : s.all isDigit = true) (hne : s ≠ []) (htail : startsWithDigit tail = false)
    (hroom : Nat.ofDigitChars 10 s 0 ≤ exponentBound) :
    exponentDigits negative n e down (s ++ tail) =
      scaled negative n
        (if down then e - Nat.ofDigitChars 10 s 0 else e + Nat.ofDigitChars 10 s 0) tail := by
  cases s with
  | nil => exact absurd rfl hne
  | cons c s =>
      rw [List.all_cons, Bool.and_eq_true] at hs
      rw [ofDigitChars_cons, Nat.mul_zero, Nat.zero_add] at hroom ⊢
      rw [List.cons_append, exponentDigits, hs.left, exponentFrom_digits hs.right htail hroom]
      rfl

/-- An exponent is written after a letter and read with its sign. -/
theorem exists_writeExponent {k : Int} (hk : k.natAbs ≤ exponentBound) {tail : List Char}
    (htail : Ends tail) :
    exists rest, writeExponent k ++ tail = 'e' :: rest /\
      forall negative n e, exponent negative n e rest = scaled negative n (e + k) tail := by
  have hread : forall (down negative : Bool) (n : Nat) (e : Int) (j : Nat), j ≤ exponentBound ->
      exponentDigits negative n e down (digitsOf j ++ tail) =
        scaled negative n (if down then e - j else e + j) tail := by
    intro down negative n e j hj
    have hvalue := ofDigitChars_digitsOf j
    rw [exponentDigits_digits (all_isDigit_digitsOf j) (digitsOf_ne_nil j) htail.not_startsWithDigit
      (by rw [hvalue]; exact hj), hvalue]
  unfold writeExponent
  split
  · rename_i hneg
    exists '-' :: (digitsOf (-k).toNat ++ tail)
    constructor
    · rfl
    · intro negative n e
      have hsum : e - ((-k).toNat : Int) = e + k := by omega
      rw [exponent_eq]
      exact (hread true negative n e _ (by omega)).trans (by rw [if_pos rfl, hsum])
  · rename_i hpos
    exists '+' :: (digitsOf k.toNat ++ tail)
    constructor
    · rfl
    · intro negative n e
      have hsum : e + (k.toNat : Int) = e + k := by omega
      rw [exponent_eq]
      exact (hread false negative n e _ (by omega)).trans (by rw [if_neg Bool.false_ne_true, hsum])

/-!
## Written numbers
-/

theorem numeral_point {negative : Bool} {s u tail : List Char} (hs : IsWhole s)
    (hu : u.all isDigit = true) (hne : u ≠ []) (htail : startsWithDigit tail = false)
    (hroom : Nat.ofDigitChars 10 (s ++ u) 0 < significandBound) :
    numeral negative (s ++ '.' :: (u ++ tail)) =
      afterDigits negative (Nat.ofDigitChars 10 (s ++ u) 0) (-u.length) tail := by
  rw [Nat.ofDigitChars_append] at hroom ⊢
  have hwhole : Nat.ofDigitChars 10 s 0 < significandBound :=
    Nat.lt_of_le_of_lt (le_ofDigitChars u _) hroom
  have hpoint : startsWithDigit ('.' :: (u ++ tail)) = false := rfl
  rw [numeral_whole hs hpoint hwhole, afterWhole_eq_afterDropped hpoint, afterDropped,
    fraction_digits hu hne htail hroom]
  congr 1
  exact Int.zero_sub _

theorem afterDigits_ends {negative : Bool} {n : Nat} {e : Int} {tail : List Char}
    (htail : Ends tail) : afterDigits negative n e tail = scaled negative n e tail := by
  cases htail <;> rfl

theorem numeral_decimal (negative : Bool) {s u tail : List Char} (hs : IsWhole s)
    (hu : u.all isDigit = true) (hne : u ≠ []) (htail : Ends tail)
    (hroom : Nat.ofDigitChars 10 (s ++ u) 0 < significandBound) :
    numeral negative (s ++ '.' :: (u ++ tail)) =
      scaled negative (Nat.ofDigitChars 10 (s ++ u) 0) (-u.length) tail := by
  rw [numeral_point hs hu hne htail.not_startsWithDigit hroom, afterDigits_ends htail]

theorem numeral_exponent (negative : Bool) {s tail : List Char} (hs : IsWhole s) {k : Int}
    (hk : k.natAbs ≤ exponentBound) (htail : Ends tail)
    (hroom : Nat.ofDigitChars 10 s 0 < significandBound) :
    numeral negative (s ++ (writeExponent k ++ tail)) =
      scaled negative (Nat.ofDigitChars 10 s 0) k tail := by
  rcases exists_writeExponent hk htail with ⟨rest, hrest, hread⟩
  have hletter : startsWithDigit ('e' :: rest) = false := rfl
  rw [hrest, numeral_whole hs hletter hroom, afterWhole_eq_afterDropped hletter, afterDropped, hread]
  congr 1
  exact Int.zero_add k

theorem numeral_decimal_exponent (negative : Bool) {s u tail : List Char} (hs : IsWhole s)
    (hu : u.all isDigit = true) (hne : u ≠ []) {k : Int} (hk : k.natAbs ≤ exponentBound)
    (htail : Ends tail) (hroom : Nat.ofDigitChars 10 (s ++ u) 0 < significandBound) :
    numeral negative (s ++ '.' :: (u ++ (writeExponent k ++ tail))) =
      scaled negative (Nat.ofDigitChars 10 (s ++ u) 0) (k - u.length) tail := by
  rcases exists_writeExponent hk htail with ⟨rest, hrest, hread⟩
  rw [hrest, numeral_point hs hu hne rfl hroom, afterDigits, hread]
  congr 1
  omega

section

variable (negative : Bool) {c : Char} {s tail : List Char}

theorem all_isDigit_zeros (n : Nat) : (List.replicate n '0').all isDigit = true := by
  rw [List.all_replicate]
  split <;> rfl

theorem numeral_padded (hc : isDigit c = true) (hzero : c ≠ '0') (hs : s.all isDigit = true)
    (zeros : Nat) (hfew : (c :: s).length + zeros ≤ 16) :
    Nat.ofDigitChars 10 (c :: s) 0 * 10 ^ (zeros + 1) ≤ 10 ^ 17 /\
      forall tail, Ends tail ->
        numeral negative (c :: s ++ List.replicate zeros '0' ++ ['.', '0'] ++ tail) =
          scaled negative (Nat.ofDigitChars 10 (c :: s) 0 * 10 ^ (zeros + 1)) (-1) tail := by
  have hdigits : (c :: s).all isDigit = true := by
    rw [List.all_cons, hc, hs]
    rfl
  have hle : Nat.ofDigitChars 10 (c :: s) 0 * 10 ^ (zeros + 1) ≤ 10 ^ 17 := by
    calc Nat.ofDigitChars 10 (c :: s) 0 * 10 ^ (zeros + 1)
        ≤ 10 ^ (c :: s).length * 10 ^ (zeros + 1) :=
          Nat.mul_le_mul_right _ (ofDigitChars_lt hdigits).le
      _ = 10 ^ ((c :: s).length + (zeros + 1)) := (Nat.pow_add _ _ _).symm
      _ ≤ 10 ^ 17 := Nat.pow_le_pow_right (by decide) (by omega)
  constructor
  · exact hle
  · intro tail htail
    have hvalue : Nat.ofDigitChars 10 (c :: (s ++ List.replicate zeros '0') ++ ['0']) 0 =
        Nat.ofDigitChars 10 (c :: s) 0 * 10 ^ (zeros + 1) := by
      rw [← List.cons_append, Nat.ofDigitChars_append, Nat.ofDigitChars_append,
        Nat.ofDigitChars_replicate_zero]
      change 10 * (10 ^ zeros * Nat.ofDigitChars 10 (c :: s) 0) + 0 = _
      ring
    have hall : (s ++ List.replicate zeros '0').all isDigit = true := by
      rw [List.all_append, hs, all_isDigit_zeros]
      rfl
    have hread := numeral_decimal negative (.digits hc hzero hall) (u := ['0']) rfl
      (by simp) htail (by rw [hvalue]; exact Nat.lt_of_le_of_lt hle (by decide))
    rw [hvalue] at hread
    rw [List.append_assoc _ ['.', '0']]
    exact hread

theorem numeral_split (hs : IsWhole s) (hdigits : s.all isDigit = true) (point : Nat)
    (hpoint : 0 < point) (hinside : point < s.length) (htail : Ends tail)
    (hroom : Nat.ofDigitChars 10 s 0 < significandBound) :
    numeral negative (s.take point ++ '.' :: s.drop point ++ tail) =
      scaled negative (Nat.ofDigitChars 10 s 0) (point - s.length) tail := by
  have hwhole : IsWhole (s.take point) := by
    cases hs with
    | zero =>
        rw [List.take_of_length_le (Nat.succ_le_of_lt hpoint)]
        exact .zero
    | digits hc hzero hrest =>
        rcases Nat.exists_eq_succ_of_ne_zero hpoint.ne' with ⟨k, rfl⟩
        rw [List.take_succ_cons]
        exact .digits hc hzero (List.all_eq_true.mpr fun d hd =>
          List.all_eq_true.mp hrest d (List.mem_of_mem_take hd))
  have hdrop : (s.drop point).all isDigit = true :=
    List.all_eq_true.mpr fun d hd => List.all_eq_true.mp hdigits d (List.mem_of_mem_drop hd)
  have hne : s.drop point ≠ [] := by
    rw [ne_eq, List.drop_eq_nil_iff]
    exact Nat.not_le.mpr hinside
  have hread := numeral_decimal negative hwhole hdrop hne htail
    (by rw [List.take_append_drop]; exact hroom)
  rw [List.take_append_drop, List.length_drop, Nat.cast_sub hinside.le, neg_sub] at hread
  rw [List.append_assoc, List.cons_append]
  exact hread

theorem numeral_small (hdigits : s.all isDigit = true) (hne : s ≠ []) (zeros : Nat)
    (htail : Ends tail) (hroom : Nat.ofDigitChars 10 s 0 < significandBound) :
    numeral negative ('0' :: '.' :: List.replicate zeros '0' ++ s ++ tail) =
      scaled negative (Nat.ofDigitChars 10 s 0) (-(zeros + s.length : Nat)) tail := by
  have hvalue : Nat.ofDigitChars 10 (['0'] ++ (List.replicate zeros '0' ++ s)) 0 =
      Nat.ofDigitChars 10 s 0 := by
    rw [Nat.ofDigitChars_append, Nat.ofDigitChars_append]
    change Nat.ofDigitChars 10 s (Nat.ofDigitChars 10 (List.replicate zeros '0') 0) = _
    rw [Nat.ofDigitChars_replicate_zero, Nat.mul_zero]
  have hall : (List.replicate zeros '0' ++ s).all isDigit = true := by
    rw [List.all_append, all_isDigit_zeros, hdigits]
    rfl
  have hread := numeral_decimal negative .zero hall (by simp [hne]) htail
    (by rw [hvalue]; exact hroom)
  rw [hvalue, List.length_append, List.length_replicate] at hread
  simpa using hread

theorem numeral_writeExponent (hc : isDigit c = true) (hzero : c ≠ '0') (hs : s.all isDigit = true)
    {e : Int} (he : e.natAbs + s.length ≤ exponentBound) (htail : Ends tail)
    (hroom : Nat.ofDigitChars 10 (c :: s) 0 < significandBound) :
    numeral negative
        ((match c :: s with
          | [] => []
          | [c] => c :: writeExponent ((c :: s).length + e - 1)
          | c :: more => c :: '.' :: more ++ writeExponent ((c :: s).length + e - 1)) ++ tail) =
      scaled negative (Nat.ofDigitChars 10 (c :: s) 0) e tail := by
  have hlead : IsWhole [c] := .digits hc hzero rfl
  cases s with
  | nil =>
      have hexponent : (([c].length : Nat) : Int) + e - 1 = e := by
        rw [List.length_singleton]
        omega
      dsimp only
      rw [hexponent]
      exact numeral_exponent negative hlead (by omega) htail hroom
  | cons d s =>
      have hread := numeral_decimal_exponent negative hlead hs (by simp)
        (k := (c :: d :: s).length + e - 1) (by rw [List.length_cons]; omega) htail hroom
      dsimp only
      rw [List.append_assoc]
      refine hread.trans ?_
      congr 1
      rw [List.length_cons]
      omega

/-- A written number is read as its digits and its exponent, except that a whole number is read
with its zeros. -/
theorem numeral_writeDigits (hc : isDigit c = true) (hzero : c ≠ '0') (hs : s.all isDigit = true)
    {e : Int} (he : e.natAbs + s.length ≤ exponentBound)
    (hroom : Nat.ofDigitChars 10 (c :: s) 0 ≤ 10 ^ 17) :
    exists (n : Nat) (k : Int), n ≤ 10 ^ 17 /\ min e (-1) ≤ k /\
      (n : ℚ) * 10 ^ k = Nat.ofDigitChars 10 (c :: s) 0 * 10 ^ e /\
      forall tail, Ends tail ->
        numeral negative (writeDigits (c :: s) e ++ tail) = scaled negative n k tail := by
  have hbound : Nat.ofDigitChars 10 (c :: s) 0 < significandBound :=
    Nat.lt_of_le_of_lt hroom (by decide)
  have hdigits : (c :: s).all isDigit = true := by
    rw [List.all_cons, hc, hs]
    rfl
  unfold writeDigits
  dsimp only
  split
  · rename_i hform
    rw [Bool.and_eq_true, decide_eq_true_eq, decide_eq_true_eq] at hform
    rcases Int.eq_ofNat_of_zero_le hform.left with ⟨zeros, rfl⟩
    rcases numeral_padded negative hc hzero hs zeros (by omega) with ⟨hle, hread⟩
    refine ⟨_, -1, hle, min_le_right _ _, ?_, hread⟩
    rw [zpow_natCast, zpow_neg_one]
    push_cast
    ring
  · rename_i hwhole
    rw [Bool.and_eq_true, decide_eq_true_eq, decide_eq_true_eq] at hwhole
    refine ⟨_, e, hroom, min_le_left _ _, rfl, fun tail htail => ?_⟩
    split
    · rename_i hform
      rw [Bool.and_eq_true, decide_eq_true_eq, decide_eq_true_eq] at hform
      have hread := numeral_split negative (.digits hc hzero hs) hdigits
        (((c :: s).length : Int) + e).toNat (by omega) (by omega) htail hbound
      refine hread.trans ?_
      congr 1
      omega
    · split
      · rename_i hform
        rw [Bool.and_eq_true, decide_eq_true_eq, decide_eq_true_eq] at hform
        refine (numeral_small negative hdigits (by simp) _ htail hbound).trans ?_
        congr 1
        omega
      · exact numeral_writeExponent negative hc hzero hs he htail hbound

end

/-!
## Written binary numbers
-/

theorem exists_digitsOf {n : Nat} (hn : 0 < n) :
    exists d rest, digitsOf n = d :: rest /\ d ≠ '0' := by
  induction n using Nat.strong_induction_on with
  | _ n ih =>
      rw [digitsOf_eq, Nat.toDigits_eq_if (by decide)]
      split
      · rename_i hsmall
        have hdigit : forall m, m < 10 -> 0 < m -> Nat.digitChar m ≠ '0' := by decide
        exact ⟨_, [], rfl, hdigit n hsmall hn⟩
      · rename_i hlarge
        rcases ih (n / 10) (by omega) (by omega) with ⟨d, rest, hdigits, hd⟩
        rw [digitsOf_eq] at hdigits
        rw [hdigits]
        exact ⟨d, _, rfl, hd⟩

theorem dropZeros_eq (s : List Char) (e : Int) :
    exists zeros : Nat, (dropZeros s e).2 = e + zeros /\
      s = (dropZeros s e).1 ++ List.replicate zeros '0' := by
  have hzeros : s.reverse.takeWhile (· == '0') =
      List.replicate (s.reverse.takeWhile (· == '0')).length '0' := by
    apply List.eq_replicate_of_mem
    intro c hc
    exact beq_iff_eq.mp (List.all_eq_true.mp List.all_takeWhile c hc)
  have hsplit : s = (dropZeros s e).1 ++
      List.replicate (s.reverse.takeWhile (· == '0')).length '0' := by
    unfold dropZeros
    dsimp only
    rw [← List.reverse_replicate, ← hzeros, ← List.reverse_append, List.takeWhile_append_dropWhile,
      List.reverse_reverse]
  refine ⟨_, ?_, hsplit⟩
  have hlength := congrArg List.length hsplit
  rw [List.length_append, List.length_replicate] at hlength
  have hcount : (dropZeros s e).2 = e + (s.length - (dropZeros s e).1.length : Nat) := rfl
  rw [hcount, hlength, Nat.add_sub_cancel_left]

theorem length_digitsOf {n : Nat} (hn : n ≤ 10 ^ 17) : (digitsOf n).length ≤ 18 := by
  rw [digitsOf_eq, Nat.length_toDigits_le_iff (by decide) (by decide)]
  exact Nat.lt_of_le_of_lt hn (by decide)

/-- The digits that are kept of a number start with one that is not a zero. -/
theorem exists_dropZeros {n : Nat} (hn : 0 < n) (hfew : n ≤ 10 ^ 17) (e : Int) :
    exists (c : Char) (s : List Char) (zeros : Nat),
      dropZeros (digitsOf n) e = (c :: s, e + zeros) /\ isDigit c = true /\ c ≠ '0' /\
        s.all isDigit = true /\ s.length + zeros ≤ 18 /\
        n = Nat.ofDigitChars 10 (c :: s) 0 * 10 ^ zeros := by
  rcases dropZeros_eq (digitsOf n) e with ⟨zeros, hexponent, hsplit⟩
  rcases exists_digitsOf hn with ⟨d, rest, hdigits, hd⟩
  have hlength := length_digitsOf hfew
  have hall := all_isDigit_digitsOf n
  have hvalue := ofDigitChars_digitsOf n
  cases hkept : (dropZeros (digitsOf n) e).1 with
  | nil =>
      rw [hkept, List.nil_append, hdigits] at hsplit
      cases zeros with
      | zero => cases hsplit
      | succ zeros =>
          rw [List.replicate_succ] at hsplit
          exact absurd (List.cons.inj hsplit).left hd
  | cons c s =>
      have hpair : dropZeros (digitsOf n) e = (c :: s, e + zeros) := Prod.ext hkept hexponent
      rw [hkept] at hsplit
      rw [hdigits, List.cons_append] at hsplit
      rcases List.cons.inj hsplit with ⟨rfl, hrest⟩
      rw [hdigits, hrest, List.all_cons, List.all_append, Bool.and_eq_true, Bool.and_eq_true] at hall
      rw [hdigits, hrest, ← List.cons_append, Nat.ofDigitChars_append,
        Nat.ofDigitChars_replicate_zero] at hvalue
      rw [hdigits, hrest, List.length_cons, List.length_append, List.length_replicate] at hlength
      refine ⟨_, _, zeros, hpair, hall.left, hd, hall.right.left, by omega, ?_⟩
      rw [mul_comm]
      exact hvalue.symm

end Reader

namespace Decimal.Binary64

/-- The text of a number without its sign. -/
def unsigned (x : Binary64) : List Char :=
  if x.isZero then ['0', '.', '0']
  else
    let d := shortest x.mantissa x.exponent
    let (s, e) := dropZeros (digitsOf d.digits) d.exponent
    writeDigits s e

theorem write_eq (x : Binary64) : x.write = (if x.negative then ['-'] else []) ++ x.unsigned := by
  unfold write unsigned
  dsimp only
  split <;> rfl

end Decimal.Binary64

namespace Reader

open Decimal

/-- A number is written so that it can be read. -/
theorem exists_unsigned (negative : Bool) {x : Binary64} (hx : x.IsValid) :
    exists y : Binary64, y.IsValid /\ forall tail, Ends tail ->
      numeral negative (x.unsigned ++ tail) = .ok (.float y, tail) := by
  have hread : forall (n : Nat) (k : Int), n ≤ 10 ^ 17 -> -1500 ≤ k ->
      (n : ℚ) * 10 ^ k ≤ Binary64.greatest -> exists y : Binary64, y.IsValid /\
        forall tail, scaled negative n k tail = .ok (.float y, tail) := by
    intro n k hn hk hvalue
    rcases Option.isSome_iff_exists.mp (Binary64.isSome_ofParts? negative hn hk hvalue) with ⟨y, hy⟩
    refine ⟨y, Binary64.isValid_of_ofParts? hy, fun tail => ?_⟩
    rw [scaled, hy]
  unfold Binary64.unsigned
  split
  · have hnone : ((0 : Nat) : ℚ) * 10 ^ (-1 : Int) ≤ Binary64.greatest := by
      rw [Nat.cast_zero, zero_mul]
      exact Nat.cast_nonneg Binary64.greatest
    rcases hread 0 (-1) (Nat.zero_le _) (by decide) hnone with ⟨y, hy, htext⟩
    refine ⟨y, hy, fun tail htail => ?_⟩
    exact (numeral_decimal negative .zero (u := ['0']) rfl (by simp) htail (by decide)).trans
      (htext tail)
  · rename_i hzero
    have hm : 0 < x.mantissa := Nat.pos_of_ne_zero (by simpa [Binary64.isZero] using hzero)
    have hvalue := shortest_le_greatest hm hx.mantissa_lt hx.least hx.greatest
    have hup := shortest_exponent_lt hm hx.mantissa_lt hx.least hx.greatest
    rcases shortest_bounds hm hx.mantissa_lt hx.least hx.greatest with ⟨hpos, hfew, hdown⟩
    rcases exists_dropZeros hpos hfew (shortest x.mantissa x.exponent).exponent with
      ⟨c, s, zeros, hdrop, hc, hlead, hs, hlength, hdigits⟩
    have hroom : Nat.ofDigitChars 10 (c :: s) 0 ≤ 10 ^ 17 :=
      le_trans (Nat.le_mul_of_pos_right _ (Nat.pow_pos (by decide))) (hdigits ▸ hfew)
    have hbound : exponentBound = 2147483647 := rfl
    rcases numeral_writeDigits negative hc hlead hs
      (e := (shortest x.mantissa x.exponent).exponent + zeros) (by omega) hroom with
      ⟨n, k, hn, hk, heq, htext⟩
    have hle : (n : ℚ) * 10 ^ k ≤ Binary64.greatest := by
      rw [heq, zpow_add₀ (by norm_num), zpow_natCast]
      rw [hdigits] at hvalue
      push_cast at hvalue
      linarith
    rcases hread n k hn (by omega) hle with ⟨y, hy, hscaled⟩
    refine ⟨y, hy, fun tail htail => ?_⟩
    dsimp only
    rw [hdrop]
    exact (htext tail htail).trans (hscaled tail)

end Reader
end SchemaTypes
