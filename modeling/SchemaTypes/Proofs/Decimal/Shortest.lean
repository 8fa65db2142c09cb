import SchemaTypes.Decimal.Shortest
import SchemaTypes.Proofs.Decimal.Binary64

/-!
# Seventeen digits are enough

The power of ten below a number is found within a few steps of the guess from its power of
two.  Of the decimals with seventeen digits the nearest one reads back as the number, so that
the search for the shortest decimal ends with one that does.
-/

namespace SchemaTypes
namespace Decimal

open Binary64

/-!
## Scaling
-/

theorem snd_scale10_pos (n : Nat) {d : Nat} (hd : 0 < d) (e : Int) : 0 < (scale10 n d e).2 := by
  unfold scale10
  split
  · exact hd
  · exact Nat.mul_pos hd (Nat.pow_pos (by decide))

theorem scale10_eq (n d : Nat) (e : Int) :
    ((scale10 n d e).1 : ℚ) / (scale10 n d e).2 = (n : ℚ) / d * 10 ^ e := by
  unfold scale10
  split
  · rename_i he
    rcases Int.eq_ofNat_of_zero_le he with ⟨k, rfl⟩
    rw [Int.toNat_natCast, zpow_natCast, Nat.pow_eq]
    push_cast
    ring
  · rename_i he
    rcases Int.eq_ofNat_of_zero_le (show 0 ≤ -e by omega) with ⟨k, hk⟩
    rw [hk, Int.toNat_natCast, show e = -(k : Int) by omega, zpow_neg, zpow_natCast, Nat.pow_eq]
    push_cast
    rw [← div_div, div_eq_mul_inv ((n : ℚ) / d)]

theorem snd_le_fst_scale10 {n d : Nat} (hd : 0 < d) (e : Int) :
    (scale10 n d e).2 ≤ (scale10 n d e).1 <-> (10 : ℚ) ^ (-e) ≤ n / d := by
  have hpos : (0 : ℚ) < (scale10 n d e).2 := by exact_mod_cast snd_scale10_pos n hd e
  have hten : (0 : ℚ) < 10 ^ e := zpow_pos rfl e
  rw [← Nat.cast_le (α := ℚ), ← one_le_div₀ hpos, scale10_eq, zpow_neg, inv_le_iff_one_le_mul₀ hten]

/-!
## The power of ten below a number
-/

theorem zpow_le_zpow_of_pow_le {x y : ℚ} (hx : 0 < x) (hy : 1 ≤ y) {p q : Nat} (hp : p ≠ 0)
    (h : x ^ p ≤ y ^ q) {j k : Int} (hj : 0 ≤ j) (hjk : q * j ≤ k * p) : x ^ j ≤ y ^ k := by
  have hpow : (x ^ j) ^ p ≤ (y ^ k) ^ p := by
    calc (x ^ j) ^ p = (x ^ p) ^ j := by rw [← zpow_natCast, ← zpow_natCast, zpow_comm]
      _ ≤ (y ^ q) ^ j := zpow_le_zpow_left₀ hj (by positivity) h
      _ = y ^ (q * j) := by rw [← zpow_natCast, zpow_mul]
      _ ≤ y ^ (k * p) := zpow_le_zpow_right₀ hy hjk
      _ = (y ^ k) ^ p := by rw [← zpow_natCast, zpow_mul]
  exact le_of_pow_le_pow_left₀ hp (zpow_pos (by linarith) _).le hpow

theorem zpow_le_zpow_of_neg {x y : ℚ} (hx : 0 < x) (hy : 0 < y) {j k : Int}
    (h : y ^ (-k) ≤ x ^ (-j)) : x ^ j ≤ y ^ k := by
  rw [zpow_neg, zpow_neg] at h
  exact (inv_le_inv₀ (zpow_pos hy _) (zpow_pos hx _)).mp h

theorem ten_zpow_le_two_zpow {j k : Int} (hup : 0 ≤ j -> 10 * j ≤ k * 3)
    (hdown : k < 0 -> 28 * -k ≤ -j * 93) : (10 : ℚ) ^ j ≤ 2 ^ k := by
  by_cases hj : 0 ≤ j
  · exact zpow_le_zpow_of_pow_le (by norm_num) one_le_two (by decide : 3 ≠ 0)
      (by norm_num : (10 : ℚ) ^ 3 ≤ 2 ^ 10) hj (hup hj)
  · by_cases hk : 0 ≤ k
    · calc (10 : ℚ) ^ j ≤ 1 := zpow_le_one_of_nonpos₀ (by norm_num) (by omega)
        _ ≤ 2 ^ k := one_le_zpow₀ one_le_two hk
    · apply zpow_le_zpow_of_neg (by norm_num) two_pos
      exact zpow_le_zpow_of_pow_le two_pos (by norm_num) (by decide : 93 ≠ 0)
        (by norm_num : (2 : ℚ) ^ 93 ≤ 10 ^ 28) (by omega) (hdown (by omega))

theorem two_zpow_le_ten_zpow {j k : Int} (hup : 0 ≤ k -> 28 * k ≤ j * 93)
    (hdown : j < 0 -> 10 * -j ≤ -k * 3) : (2 : ℚ) ^ k ≤ 10 ^ j := by
  by_cases hk : 0 ≤ k
  · exact zpow_le_zpow_of_pow_le two_pos (by norm_num) (by decide : 93 ≠ 0)
      (by norm_num : (2 : ℚ) ^ 93 ≤ 10 ^ 28) hk (hup hk)
  · by_cases hj : 0 ≤ j
    · calc (2 : ℚ) ^ k ≤ 1 := zpow_le_one_of_nonpos₀ one_le_two (by omega)
        _ ≤ 10 ^ j := one_le_zpow₀ (by norm_num) hj
    · apply zpow_le_zpow_of_neg two_pos (by norm_num)
      exact zpow_le_zpow_of_pow_le (by norm_num) one_le_two (by decide : 3 ≠ 0)
        (by norm_num : (10 : ℚ) ^ 3 ≤ 2 ^ 10) (by omega) (hdown (by omega))

/-- The search for the power of ten starts above it and goes as far down as it lies. -/
theorem guess_bounds {k : Int} (hlow : -1074 ≤ k) (hhigh : k ≤ 1023) :
    (10 : ℚ) ^ (k * 30103 / 100000 + 2 - 4) ≤ 2 ^ k /\
      (2 : ℚ) ^ (k + 1) ≤ 10 ^ (k * 30103 / 100000 + 2 + 1) := by
  constructor
  · apply ten_zpow_le_two_zpow
    · omega
    · omega
  · apply two_zpow_le_ten_zpow
    · omega
    · omega

theorem zpow_floorLog10From {n d : Nat} (hd : 0 < d) (fuel : Nat) {e : Int}
    (hlow : (10 : ℚ) ^ (e - fuel) ≤ n / d) (hhigh : (n : ℚ) / d < 10 ^ (e + 1)) :
    (10 : ℚ) ^ floorLog10From n d fuel e ≤ n / d /\
      (n : ℚ) / d < 10 ^ (floorLog10From n d fuel e + 1) /\ e - fuel ≤ floorLog10From n d fuel e := by
  induction fuel generalizing e with
  | zero =>
      rw [Nat.cast_zero, sub_zero] at hlow ⊢
      exact ⟨hlow, hhigh, le_rfl⟩
  | succ fuel ih =>
      have hguess := snd_le_fst_scale10 (n := n) hd (-e)
      rw [neg_neg] at hguess
      rw [floorLog10From]
      dsimp only
      split
      · rename_i hle
        exact ⟨hguess.mp hle, hhigh, by omega⟩
      · rename_i hlt
        have hstep : e - 1 - (fuel : Int) = e - (fuel + 1 : Nat) := by
          push_cast
          ring
        rw [← hstep] at hlow ⊢
        apply ih hlow
        rw [sub_add_cancel]
        exact lt_of_not_ge (mt hguess.mpr hlt)

theorem zpow_floorLog10 {n d : Nat} (hn : 0 < n) (hd : 0 < d) (hleast : (2 : ℚ) ^ (-1074 : Int) ≤ n / d)
    (hgreatest : (n : ℚ) / d < 2 ^ (1024 : Int)) :
    (10 : ℚ) ^ floorLog10 n d ≤ n / d /\ (n : ℚ) / d < 10 ^ (floorLog10 n d + 1) /\
      -400 ≤ floorLog10 n d := by
  rcases zpow_floorLog2 hn hd with ⟨hlow, hhigh⟩
  have hk : -1074 ≤ floorLog2 n d /\ floorLog2 n d ≤ 1023 := by
    constructor
    · have hlt := (zpow_lt_zpow_iff_right₀ one_lt_two).mp (lt_of_le_of_lt hleast hhigh)
      omega
    · have hlt := (zpow_lt_zpow_iff_right₀ one_lt_two).mp (lt_of_le_of_lt hlow hgreatest)
      omega
  rcases guess_bounds hk.left hk.right with ⟨hbelow, habove⟩
  rcases zpow_floorLog10From hd 4 (le_trans hbelow hlow) (lt_of_lt_of_le hhigh habove) with
    ⟨hfirst, hsecond, hthird⟩
  refine ⟨hfirst, hsecond, le_trans ?_ hthird⟩
  push_cast
  omega

/-!
## Decimals that read back
-/

/-- Four times a decimal, in units of a power of two. -/
theorem quadruple_eq (c : Nat) (e g : Int) :
    let n := scale10 (4 * c) 1 g
    let a := scale n.1 n.2 (-e)
    0 < a.2 /\ (a.1 : ℚ) / a.2 = 4 * (c * 10 ^ g) / 2 ^ e := by
  intro n a
  have hn : 0 < n.2 := snd_scale10_pos _ Nat.one_pos g
  constructor
  · exact snd_scale_pos _ hn _
  · rw [scale_eq, scale10_eq, zpow_neg, Nat.cast_one, div_one, ← div_eq_mul_inv, Nat.cast_mul]
    push_cast
    rw [mul_assoc]

theorem readsBack_le {m c : Nat} {e g : Int} (h : readsBack m e c g = true) :
    4 * ((c : ℚ) * 10 ^ g) ≤ (4 * m + 2) * 2 ^ e := by
  rcases quadruple_eq c e g with ⟨hpos, hvalue⟩
  have hle : (scale (scale10 (4 * c) 1 g).1 (scale10 (4 * c) 1 g).2 (-e)).1 ≤
      (4 * m + 2) * (scale (scale10 (4 * c) 1 g).1 (scale10 (4 * c) 1 g).2 (-e)).2 := by
    unfold readsBack roundingBounds at h
    dsimp only at h
    split at h
    · rw [Bool.and_eq_true, decide_eq_true_eq, decide_eq_true_eq] at h
      exact h.right
    · rw [Bool.and_eq_true, decide_eq_true_eq, decide_eq_true_eq] at h
      exact h.right.le
  rw [← div_le_iff₀ (zpow_pos rfl _), ← hvalue, div_le_iff₀ (by exact_mod_cast hpos)]
  exact_mod_cast hle

theorem readsBack_of_lt {m c : Nat} {e g : Int}
    (hlow : ((roundingBounds m e).1 : ℚ) * 2 ^ e < 4 * (c * 10 ^ g))
    (hhigh : 4 * ((c : ℚ) * 10 ^ g) < (roundingBounds m e).2 * 2 ^ e) :
    readsBack m e c g = true := by
  rcases quadruple_eq c e g with ⟨hpos, hvalue⟩
  rw [← lt_div_iff₀ (zpow_pos rfl _), ← hvalue, lt_div_iff₀ (by exact_mod_cast hpos)] at hlow
  rw [← div_lt_iff₀ (zpow_pos rfl _), ← hvalue, div_lt_iff₀ (by exact_mod_cast hpos)] at hhigh
  have hlow : (roundingBounds m e).1 * (scale (scale10 (4 * c) 1 g).1 (scale10 (4 * c) 1 g).2 (-e)).2 <
      (scale (scale10 (4 * c) 1 g).1 (scale10 (4 * c) 1 g).2 (-e)).1 := by
    exact_mod_cast hlow
  have hhigh : (scale (scale10 (4 * c) 1 g).1 (scale10 (4 * c) 1 g).2 (-e)).1 <
      (roundingBounds m e).2 * (scale (scale10 (4 * c) 1 g).1 (scale10 (4 * c) 1 g).2 (-e)).2 := by
    exact_mod_cast hhigh
  unfold readsBack
  dsimp only
  split
  · rw [Bool.and_eq_true, decide_eq_true_eq, decide_eq_true_eq]
    exact ⟨hlow.le, hhigh.le⟩
  · rw [Bool.and_eq_true, decide_eq_true_eq, decide_eq_true_eq]
    exact ⟨hlow, hhigh⟩

theorem fst_roundingBounds_le (m : Nat) (e : Int) :
    (roundingBounds m e).1 ≤ 4 * m - (if m = 2 ^ 52 then 1 else 2) := by
  have hfull : (1 <<< 52 : Nat) = 2 ^ 52 := rfl
  unfold roundingBounds
  rw [hfull]
  by_cases hm : m = 2 ^ 52
  · rw [if_pos hm]
    dsimp only
    split
    · exact le_rfl
    · omega
  · rw [if_neg hm, decide_eq_false hm, Bool.false_and]
    exact le_rfl

/-!
## Choosing the digits
-/

section

variable {m : Nat} {e : Int}

theorem scale_one_eq (m : Nat) (e : Int) :
    ((scale m 1 e).1 : ℚ) / (scale m 1 e).2 = m * 2 ^ e := by
  rw [scale_eq, Nat.cast_one, div_one]

theorem fst_scale_one_pos (hm : 0 < m) (e : Int) : 0 < (scale m 1 e).1 := by
  apply Nat.pos_of_ne_zero
  intro hzero
  have hvalue := scale_one_eq m e
  rw [hzero, Nat.cast_zero, zero_div] at hvalue
  have hpos : (0 : ℚ) < m * 2 ^ e := mul_pos (by exact_mod_cast hm) (zpow_pos rfl _)
  exact absurd hvalue hpos.ne

def firstPlace (m : Nat) (e : Int) : Int :=
  floorLog10 (scale m 1 e).1 (scale m 1 e).2

def firstPlaces (m : Nat) (e : Int) (k : Nat) : Nat :=
  let a := scale10 (scale m 1 e).1 (scale m 1 e).2 (-(firstPlace m e - k))
  a.1 / a.2

variable (hm : 0 < m) (hfew : m < 2 ^ 53) (hleast : leastExponent ≤ e) (hgreatest : e ≤ greatestExponent)

include hm hfew hleast hgreatest

theorem zpow_firstPlace :
    (10 : ℚ) ^ firstPlace m e ≤ m * 2 ^ e /\ (m : ℚ) * 2 ^ e < 10 ^ (firstPlace m e + 1) /\
      -400 ≤ firstPlace m e := by
  unfold leastExponent at hleast
  unfold greatestExponent at hgreatest
  have hpos : (0 : ℚ) < 2 ^ e := zpow_pos rfl _
  rw [firstPlace, ← scale_one_eq]
  apply zpow_floorLog10 (fst_scale_one_pos hm e) (snd_scale_pos _ Nat.one_pos e)
  · rw [scale_one_eq]
    calc (2 : ℚ) ^ (-1074 : Int) ≤ 2 ^ e := zpow_le_zpow_right₀ one_le_two hleast
      _ ≤ m * 2 ^ e := le_mul_of_one_le_left hpos.le (by exact_mod_cast hm)
  · rw [scale_one_eq]
    calc (m : ℚ) * 2 ^ e < 2 ^ (53 : Int) * 2 ^ e :=
          mul_lt_mul_of_pos_right (by exact_mod_cast hfew) hpos
      _ = 2 ^ (53 + e) := (zpow_add₀ two_ne_zero _ _).symm
      _ ≤ 2 ^ (1024 : Int) := zpow_le_zpow_right₀ one_le_two (by omega)

/-- The first `k + 1` places as a number, in units of the last of them. -/
theorem firstPlaces_bounds (k : Nat) :
    10 ^ k ≤ firstPlaces m e k /\ firstPlaces m e k < 10 ^ (k + 1) /\
      (firstPlaces m e k : ℚ) * 10 ^ (firstPlace m e - k) ≤ m * 2 ^ e /\
      (m : ℚ) * 2 ^ e < (firstPlaces m e k + 1) * 10 ^ (firstPlace m e - k) := by
  rcases zpow_firstPlace hm hfew hleast hgreatest with ⟨hlow, hhigh, _⟩
  have hten : (0 : ℚ) < 10 ^ (firstPlace m e - k) := zpow_pos rfl _
  have hpos := snd_scale10_pos (scale m 1 e).1 (snd_scale_pos m Nat.one_pos e) (-(firstPlace m e - k))
  have hpos' : (0 : ℚ) < (scale10 (scale m 1 e).1 (scale m 1 e).2 (-(firstPlace m e - k))).2 := by
    exact_mod_cast hpos
  have hvalue := scale10_eq (scale m 1 e).1 (scale m 1 e).2 (-(firstPlace m e - k))
  rw [scale_one_eq, zpow_neg, ← div_eq_mul_inv] at hvalue
  unfold firstPlaces
  dsimp only
  refine ⟨?_, ?_, ?_, ?_⟩
  · rw [Nat.le_div_iff_mul_le hpos, ← Nat.cast_le (α := ℚ), Nat.cast_mul, ← le_div_iff₀ hpos', hvalue,
      le_div_iff₀ hten, Nat.cast_pow, ← zpow_natCast, Nat.cast_ofNat, ← zpow_add₀ (by norm_num),
      add_sub_cancel]
    exact hlow
  · rw [Nat.div_lt_iff_lt_mul hpos, ← Nat.cast_lt (α := ℚ), Nat.cast_mul, ← div_lt_iff₀ hpos', hvalue,
      div_lt_iff₀ hten, Nat.cast_pow, ← zpow_natCast, Nat.cast_ofNat, ← zpow_add₀ (by norm_num)]
    apply lt_of_lt_of_eq hhigh
    push_cast
    ring_nf
  · rw [← le_div_iff₀ hten, ← hvalue, le_div_iff₀ hpos']
    exact_mod_cast Nat.div_mul_le_self _ _
  · rw [← div_lt_iff₀ hten, ← hvalue, div_lt_iff₀ hpos']
    exact_mod_cast (Nat.div_lt_iff_lt_mul hpos).mp (Nat.lt_succ_self _)

end

theorem withDigits?_eq (m : Nat) (e : Int) (k : Nat) :
    exists cs, (cs = [firstPlaces m e k, firstPlaces m e k + 1] \/
        cs = [firstPlaces m e k + 1, firstPlaces m e k]) /\
      withDigits? m e (k + 1) = (cs.find? fun c => readsBack m e c (firstPlace m e - k)).map
        fun c => ⟨c, firstPlace m e - k⟩ := by
  have hplace : firstPlace m e - (k + 1 : Nat) + 1 = firstPlace m e - k := by
    push_cast
    ring
  unfold withDigits?
  dsimp only
  rw [← firstPlace, hplace]
  split
  · exact ⟨_, .inl rfl, rfl⟩
  · exact ⟨_, .inr rfl, rfl⟩

theorem eq_of_withDigits? {m : Nat} {e : Int} {k : Nat} {s : Scaled}
    (h : withDigits? m e (k + 1) = some s) :
    s.exponent = firstPlace m e - k /\ readsBack m e s.digits s.exponent = true /\
      (s.digits = firstPlaces m e k \/ s.digits = firstPlaces m e k + 1) := by
  rcases withDigits?_eq m e k with ⟨cs, hcs, heq⟩
  rw [heq] at h
  rcases Option.map_eq_some_iff.mp h with ⟨c, hfind, rfl⟩
  have hread : readsBack m e c (firstPlace m e - k) = true := by
    have hfound := List.find?_some hfind
    exact hfound
  have hmem := List.mem_of_find?_eq_some hfind
  refine ⟨rfl, hread, ?_⟩
  rcases hcs with rfl | rfl
  · simpa using hmem
  · simpa [or_comm] using hmem

theorem isSome_withDigits? {m : Nat} {e : Int} {k c : Nat}
    (hc : c = firstPlaces m e k \/ c = firstPlaces m e k + 1)
    (h : readsBack m e c (firstPlace m e - k) = true) : (withDigits? m e (k + 1)).isSome = true := by
  rcases withDigits?_eq m e k with ⟨cs, hcs, heq⟩
  rw [heq, Option.isSome_map, List.find?_isSome]
  refine ⟨c, ?_, h⟩
  rcases hcs with rfl | rfl
  · simpa using hc
  · simpa [or_comm] using hc

section

variable {m : Nat} {e : Int} (hm : 0 < m) (hfew : m < 2 ^ 53) (hleast : leastExponent ≤ e)
  (hgreatest : e ≤ greatestExponent)

include hm hfew hleast hgreatest

theorem ten_zpow_le (k : Nat) : (10 : ℚ) ^ k * 10 ^ (firstPlace m e - k) ≤ m * 2 ^ e := by
  rcases zpow_firstPlace hm hfew hleast hgreatest with ⟨hlow, _⟩
  rw [← zpow_natCast, ← zpow_add₀ (by norm_num), add_sub_cancel]
  exact hlow

theorem seventeenth_place_lt :
    2 * (10 : ℚ) ^ (firstPlace m e - (16 : Nat)) < (if m = 2 ^ 52 then 1 else 2) * 2 ^ e := by
  have hten := ten_zpow_le hm hfew hleast hgreatest 16
  have hunit : (0 : ℚ) < 2 ^ e := zpow_pos rfl _
  have hroom : 2 * (m : ℚ) < (if m = 2 ^ 52 then 1 else 2) * 10 ^ 16 := by
    split
    · rename_i hfull
      rw [hfull]
      norm_num
    · have hlt : 2 * m < 2 * 10 ^ 16 := by omega
      exact_mod_cast hlt
  have hscaled : 2 * ((10 : ℚ) ^ 16 * 10 ^ (firstPlace m e - (16 : Nat))) <
      (if m = 2 ^ 52 then 1 else 2) * 10 ^ 16 * 2 ^ e := by
    calc 2 * ((10 : ℚ) ^ 16 * 10 ^ (firstPlace m e - (16 : Nat))) ≤ 2 * (m * 2 ^ e) := by
          exact mul_le_mul_of_nonneg_left hten (by norm_num)
      _ = 2 * m * 2 ^ e := (mul_assoc _ _ _).symm
      _ < (if m = 2 ^ 52 then 1 else 2) * 10 ^ 16 * 2 ^ e := mul_lt_mul_of_pos_right hroom hunit
  apply lt_of_mul_lt_mul_left _ (by norm_num : (0 : ℚ) ≤ 10 ^ 16)
  calc (10 : ℚ) ^ 16 * (2 * 10 ^ (firstPlace m e - (16 : Nat)))
      = 2 * (10 ^ 16 * 10 ^ (firstPlace m e - (16 : Nat))) := mul_left_comm _ _ _
    _ < (if m = 2 ^ 52 then 1 else 2) * 10 ^ 16 * 2 ^ e := hscaled
    _ = 10 ^ 16 * ((if m = 2 ^ 52 then 1 else 2) * 2 ^ e) := by ring

omit hfew hleast hgreatest in
theorem lower_bound_le :
    ((roundingBounds m e).1 : ℚ) * 2 ^ e ≤
      4 * (m * 2 ^ e) - (if m = 2 ^ 52 then 1 else 2) * 2 ^ e := by
  have hbound : ((roundingBounds m e).1 : ℚ) ≤ 4 * m - (if m = 2 ^ 52 then 1 else 2) := by
    have hle := fst_roundingBounds_le m e
    split
    · rename_i hfull
      rw [if_pos hfull] at hle
      rw [le_sub_iff_add_le]
      have hsum : (roundingBounds m e).1 + 1 ≤ 4 * m := by omega
      exact_mod_cast hsum
    · rename_i hfull
      rw [if_neg hfull] at hle
      rw [le_sub_iff_add_le]
      have hsum : (roundingBounds m e).1 + 2 ≤ 4 * m := by omega
      exact_mod_cast hsum
  rw [← mul_assoc, ← sub_mul]
  exact mul_le_mul_of_nonneg_right hbound (zpow_pos rfl _).le

/-- Half of the seventeenth place is less than the room between a number and the next ones. -/
theorem isSome_withDigits?_seventeen : (withDigits? m e 17).isSome = true := by
  rcases firstPlaces_bounds hm hfew hleast hgreatest 16 with ⟨_, _, hlow, hhigh⟩
  have hroom := seventeenth_place_lt hm hfew hleast hgreatest
  have hbound := lower_bound_le hm (e := e)
  have hunit : (0 : ℚ) < 2 ^ e := zpow_pos rfl _
  have hten : (0 : ℚ) < 10 ^ (firstPlace m e - (16 : Nat)) := zpow_pos rfl _
  have hwide : (if m = 2 ^ 52 then 1 else 2) * (2 : ℚ) ^ e ≤ 2 * 2 ^ e := by
    apply mul_le_mul_of_nonneg_right _ hunit.le
    split <;> norm_num
  have hupper : ((roundingBounds m e).2 : ℚ) * 2 ^ e = 4 * (m * 2 ^ e) + 2 * 2 ^ e := by
    rw [roundingBounds]
    push_cast
    ring
  by_cases hnear : 2 * ((m : ℚ) * 2 ^ e) ≤
      (2 * firstPlaces m e 16 + 1) * 10 ^ (firstPlace m e - (16 : Nat))
  · apply isSome_withDigits? (.inl rfl)
    apply readsBack_of_lt
    · linarith
    · linarith
  · apply isSome_withDigits? (.inr rfl)
    apply readsBack_of_lt
    · rw [Nat.cast_succ]
      linarith
    · rw [Nat.cast_succ]
      linarith

end

/-!
## The shortest decimal
-/

theorem exists_shortestFrom {m : Nat} {e : Int} (fuel p : Nat)
    (h : (withDigits? m e (p + fuel + 1)).isSome = true) :
    exists k, k ≤ p + fuel /\
      withDigits? m e (k + 1) = some (shortestFrom m e (fuel + 1) (p + 1)) := by
  induction fuel generalizing p with
  | zero =>
      rcases Option.isSome_iff_exists.mp h with ⟨s, hs⟩
      exists p
      rw [Nat.add_zero] at hs
      rw [shortestFrom, hs]
      exact ⟨le_rfl, rfl⟩
  | succ fuel ih =>
      rw [shortestFrom]
      cases hfirst : withDigits? m e (p + 1) with
      | some s => exact ⟨p, Nat.le_add_right _ _, hfirst⟩
      | none =>
          have hnext : p + (fuel + 1) + 1 = p + 1 + fuel + 1 := by omega
          rw [hnext] at h
          rcases ih (p + 1) h with ⟨k, hk, heq⟩
          exact ⟨k, by omega, heq⟩

theorem greatest_eq : (greatest : ℚ) = (2 ^ 53 - 1 : Nat) * 2 ^ greatestExponent := by
  have hpow : forall k : Nat, ((2 ^ k : Nat) : ℚ) = 2 ^ (k : Int) := by
    intro k
    rw [Nat.cast_pow, zpow_natCast]
    rfl
  rw [greatest, Nat.cast_mul, hpow]
  rfl

theorem shortest_greatest :
    shortest (2 ^ 53 - 1) greatestExponent = ⟨17976931348623157, 292⟩ /\
      17976931348623157 * 10 ^ 292 ≤ greatest := by
  decide +kernel

theorem shortest_greatest_le : (17976931348623157 : Nat) * (10 : ℚ) ^ (292 : Int) ≤ greatest := by
  have hpow : forall c k : Nat, c * 10 ^ k ≤ greatest -> (c : ℚ) * 10 ^ (k : Int) ≤ greatest := by
    intro c k h
    rw [zpow_natCast]
    exact_mod_cast h
  rcases shortest_greatest with ⟨_, hle⟩
  exact hpow _ 292 hle

section

variable {m : Nat} {e : Int} (hm : 0 < m) (hfew : m < 2 ^ 53) (hleast : leastExponent ≤ e)
  (hgreatest : e ≤ greatestExponent)

include hm hfew hleast hgreatest

theorem exists_shortest : exists k, k ≤ 16 /\ withDigits? m e (k + 1) = some (shortest m e) :=
  exists_shortestFrom 16 0 (isSome_withDigits?_seventeen hm hfew hleast hgreatest)

theorem shortest_bounds :
    0 < (shortest m e).digits /\ (shortest m e).digits ≤ 10 ^ 17 /\
      -1500 ≤ (shortest m e).exponent := by
  rcases exists_shortest hm hfew hleast hgreatest with ⟨k, hk, heq⟩
  rcases eq_of_withDigits? heq with ⟨hexponent, _, hdigits⟩
  rcases firstPlaces_bounds hm hfew hleast hgreatest k with ⟨hlow, hhigh, _⟩
  rcases zpow_firstPlace hm hfew hleast hgreatest with ⟨_, _, hplace⟩
  have hpos : 0 < 10 ^ k := Nat.pow_pos (by decide)
  have hpow : 10 ^ (k + 1) ≤ 10 ^ 17 := Nat.pow_le_pow_right (by decide) (by omega)
  refine ⟨by omega, by omega, ?_⟩
  rw [hexponent]
  omega

theorem shortest_le_greatest :
    ((shortest m e).digits : ℚ) * 10 ^ (shortest m e).exponent ≤ greatest := by
  rcases exists_shortest hm hfew hleast hgreatest with ⟨k, _, heq⟩
  rcases eq_of_withDigits? heq with ⟨_, hread, _⟩
  have hle := readsBack_le hread
  by_cases htop : m = 2 ^ 53 - 1 /\ e = greatestExponent
  · rcases shortest_greatest with ⟨hshortest, _⟩
    rw [htop.left, htop.right, hshortest]
    exact shortest_greatest_le
  · have hroom : (4 * (m : ℚ) + 2) * 2 ^ e ≤ 4 * greatest := by
      have hunit : (0 : ℚ) < 2 ^ e := zpow_pos rfl _
      rw [greatest_eq, ← mul_assoc]
      rcases hgreatest.eq_or_lt with heq | hlt
      · have hm' : 4 * m + 2 ≤ 4 * (2 ^ 53 - 1) := by omega
        rw [← heq]
        exact mul_le_mul_of_nonneg_right (by exact_mod_cast hm') hunit.le
      · have hm' : 4 * m + 2 ≤ 4 * (2 ^ 53 - 1) * 2 := by omega
        have hpow : 2 * (2 : ℚ) ^ e ≤ 2 ^ greatestExponent := by
          rw [mul_comm, ← zpow_add_one₀ two_ne_zero]
          exact zpow_le_zpow_right₀ one_le_two hlt
        calc (4 * (m : ℚ) + 2) * 2 ^ e ≤ 4 * (2 ^ 53 - 1 : Nat) * 2 * 2 ^ e :=
              mul_le_mul_of_nonneg_right (by exact_mod_cast hm') hunit.le
          _ = 4 * (2 ^ 53 - 1 : Nat) * (2 * 2 ^ e) := mul_assoc _ _ _
          _ ≤ 4 * (2 ^ 53 - 1 : Nat) * 2 ^ greatestExponent :=
              mul_le_mul_of_nonneg_left hpow (by positivity)
    linarith

theorem shortest_exponent_lt : (shortest m e).exponent < 309 := by
  rcases greatest_bounds with ⟨_, hhigh⟩
  rcases shortest_bounds hm hfew hleast hgreatest with ⟨hpos, _, _⟩
  have hpow : forall k : Nat, greatest < 10 ^ k -> (greatest : ℚ) < 10 ^ (k : Int) := by
    intro k h
    rw [zpow_natCast]
    exact_mod_cast h
  have hone : (1 : ℚ) ≤ (shortest m e).digits := by exact_mod_cast hpos
  have hlt : (10 : ℚ) ^ (shortest m e).exponent < 10 ^ ((309 : Nat) : Int) := by
    calc (10 : ℚ) ^ (shortest m e).exponent
        ≤ (shortest m e).digits * 10 ^ (shortest m e).exponent :=
          le_mul_of_one_le_left (zpow_pos rfl _).le hone
      _ ≤ greatest := shortest_le_greatest hm hfew hleast hgreatest
      _ < 10 ^ ((309 : Nat) : Int) := hpow 309 hhigh
  exact (zpow_lt_zpow_iff_right₀ (by norm_num)).mp hlt

end

end Decimal
end SchemaTypes
