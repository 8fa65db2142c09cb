import Mathlib.Algebra.Order.Field.Power
import Mathlib.Data.Rat.Cast.Order
import Mathlib.Tactic.FieldSimp
import Mathlib.Tactic.Linarith
import Mathlib.Tactic.Positivity
import Mathlib.Tactic.Ring
import SchemaTypes.Decimal.Binary64

/-!
# Rounding goes up with the ratio

Rounding keeps the order of ratios.  A ratio is too large to be rounded only if its nearest
value with an exponent as great as it needs is `2 ^ 1024` or more.
-/

namespace SchemaTypes
namespace Decimal
namespace Binary64

/-!
## The greatest finite value
-/

def greatest : Nat :=
  (2 ^ 53 - 1) * 2 ^ 971

theorem greatest_bounds : 10 ^ 17 * 10 ^ 291 ≤ greatest /\ greatest < 10 ^ 309 := by
  decide +kernel

/-- The greatest significands with exponents from 291 on: no smaller exponent leaves less room. -/
theorem isSome_mulPow10?_greatest : forall k, k < 18 ->
    ((ofRatio? false (min (10 ^ 17) (greatest / 10 ^ (291 + k))) 1).bind fun y =>
      mulPow10? y (291 + k)).isSome = true := by
  decide +kernel

/-!
## Scaling
-/

theorem snd_scale_pos (n : Nat) {d : Nat} (hd : 0 < d) (e : Int) : 0 < (scale n d e).2 := by
  unfold scale
  split
  · exact hd
  · rw [Nat.shiftLeft_eq]
    exact Nat.mul_pos hd (Nat.two_pow_pos _)

theorem scale_eq (n d : Nat) (e : Int) :
    ((scale n d e).1 : ℚ) / (scale n d e).2 = (n : ℚ) / d * 2 ^ e := by
  unfold scale
  split
  · rename_i he
    rcases Int.eq_ofNat_of_zero_le he with ⟨k, rfl⟩
    rw [Nat.shiftLeft_eq, Int.toNat_natCast, zpow_natCast]
    push_cast
    ring
  · rename_i he
    rcases Int.eq_ofNat_of_zero_le (show 0 ≤ -e by omega) with ⟨k, hk⟩
    rw [Nat.shiftLeft_eq, hk, Int.toNat_natCast, show e = -(k : Int) by omega, zpow_neg,
      zpow_natCast]
    push_cast
    rw [← div_div, div_eq_mul_inv ((n : ℚ) / d)]

theorem snd_le_fst_scale {n d : Nat} (hd : 0 < d) (e : Int) :
    (scale n d e).2 ≤ (scale n d e).1 <-> (2 : ℚ) ^ (-e) ≤ n / d := by
  have hpos : (0 : ℚ) < (scale n d e).2 := by exact_mod_cast snd_scale_pos n hd e
  have htwo : (0 : ℚ) < 2 ^ e := zpow_pos rfl e
  rw [← Nat.cast_le (α := ℚ), ← one_le_div₀ hpos, scale_eq, zpow_neg, inv_le_iff_one_le_mul₀ htwo]

/-!
## The power of two below a ratio
-/

theorem two_zpow_log2_sub (n d : Nat) (k : Int) :
    (2 : ℚ) ^ ((n.log2 : Int) - d.log2 + k) = 2 ^ n.log2 / 2 ^ d.log2 * 2 ^ k := by
  rw [zpow_add₀ two_ne_zero, zpow_sub₀ two_ne_zero, zpow_natCast, zpow_natCast]

theorem zpow_floorLog2 {n d : Nat} (hn : 0 < n) (hd : 0 < d) :
    (2 : ℚ) ^ floorLog2 n d ≤ n / d /\ (n : ℚ) / d < 2 ^ (floorLog2 n d + 1) := by
  have hnlow : (2 : ℚ) ^ n.log2 ≤ n := by exact_mod_cast Nat.log2_self_le hn.ne'
  have hnhigh : (n : ℚ) < 2 ^ n.log2 * 2 := by exact_mod_cast Nat.lt_log2_self
  have hdlow : (2 : ℚ) ^ d.log2 ≤ d := by exact_mod_cast Nat.log2_self_le hd.ne'
  have hdhigh : (d : ℚ) < 2 ^ d.log2 * 2 := by exact_mod_cast Nat.lt_log2_self
  have hdpos : (0 : ℚ) < d := by exact_mod_cast hd
  have hpow : (0 : ℚ) < 2 ^ d.log2 := by positivity
  have habove : (n : ℚ) / d < 2 ^ ((n.log2 : Int) - d.log2 + 1) := by
    rw [two_zpow_log2_sub, zpow_one, div_mul_eq_mul_div, div_lt_div_iff₀ hdpos hpow]
    nlinarith
  have hbelow : (2 : ℚ) ^ ((n.log2 : Int) - d.log2 + -1) ≤ n / d := by
    rw [two_zpow_log2_sub, zpow_neg_one, div_mul_eq_mul_div, div_le_div_iff₀ hpow hdpos]
    nlinarith
  have hguess := snd_le_fst_scale (n := n) hd (-((n.log2 : Int) - d.log2))
  rw [neg_neg] at hguess
  rw [floorLog2]
  dsimp only
  split
  · rename_i hle
    exact ⟨hguess.mp hle, habove⟩
  · rename_i hlt
    constructor
    · exact hbelow
    · rw [sub_add_cancel]
      exact lt_of_not_ge (mt hguess.mpr hlt)

theorem floorLog2_mono {n d n' d' : Nat} (hn : 0 < n) (hd : 0 < d) (hn' : 0 < n') (hd' : 0 < d')
    (h : (n : ℚ) / d ≤ n' / d') : floorLog2 n d ≤ floorLog2 n' d' := by
  rcases zpow_floorLog2 hn hd with ⟨hlow, _⟩
  rcases zpow_floorLog2 hn' hd' with ⟨_, hhigh⟩
  have hlt : (2 : ℚ) ^ floorLog2 n d < 2 ^ (floorLog2 n' d' + 1) :=
    lt_of_le_of_lt (le_trans hlow h) hhigh
  exact Int.lt_add_one_iff.mp ((zpow_lt_zpow_iff_right₀ one_lt_two).mp hlt)

/-!
## Division
-/

theorem le_divideToEven {n d k : Nat} (hd : 0 < d) (h : (k : ℚ) ≤ n / d) :
    k ≤ divideToEven n d := by
  have hle : k ≤ n / d := by
    apply (Nat.le_div_iff_mul_le hd).mpr
    rw [le_div_iff₀ (by exact_mod_cast hd)] at h
    exact_mod_cast h
  unfold divideToEven
  dsimp only
  repeat' split
  all_goals omega

theorem divideToEven_le {n d k : Nat} (hd : 0 < d) (h : (n : ℚ) / d ≤ k) :
    divideToEven n d ≤ k := by
  have hle : n ≤ d * k := by
    rw [div_le_iff₀' (by exact_mod_cast hd)] at h
    exact_mod_cast h
  have hdiv := Nat.div_add_mod n d
  have hrest := Nat.mod_lt n hd
  unfold divideToEven
  dsimp only
  by_cases hlt : n / d < k
  · repeat' split
    all_goals omega
  · have hquot : d * k ≤ d * (n / d) := Nat.mul_le_mul_left d (Nat.le_of_not_lt hlt)
    rw [if_pos (by omega)]
    exact Nat.div_le_of_le_mul hle

theorem divideToEven_mono {n d n' d' : Nat} (hd : 0 < d) (hd' : 0 < d')
    (h : (n : ℚ) / d ≤ n' / d') : divideToEven n d ≤ divideToEven n' d' := by
  have hcross : n * d' ≤ n' * d := by
    rw [div_le_div_iff₀ (by exact_mod_cast hd) (by exact_mod_cast hd')] at h
    exact_mod_cast h
  have hdiv := Nat.div_add_mod n d
  have hdiv' := Nat.div_add_mod n' d'
  have hrest := Nat.mod_lt n hd
  have hrest' := Nat.mod_lt n' hd'
  have hquot : n / d ≤ n' / d' := by
    apply (Nat.le_div_iff_mul_le hd').mpr
    nlinarith [Nat.div_mul_le_self n d]
  by_cases hlt : n / d < n' / d'
  · unfold divideToEven
    dsimp only
    repeat' split
    all_goals omega
  · have heq : n / d = n' / d' := by omega
    have hmod : (n % d) * d' ≤ (n' % d') * d := by
      rw [heq] at hdiv
      nlinarith
    unfold divideToEven
    dsimp only
    rw [heq]
    have hhalf : d ≤ 2 * (n % d) -> d' ≤ 2 * (n' % d') := by
      intro hle
      nlinarith
    have hmore : d < 2 * (n % d) -> d' < 2 * (n' % d') := by
      intro hle
      nlinarith
    repeat' split
    all_goals omega

/-!
## Rounding
-/

/-- The value of a number without its sign. -/
def magnitude (x : Binary64) : ℚ :=
  x.mantissa * 2 ^ x.exponent

structure IsValid (x : Binary64) : Prop where
  mantissa_lt : x.mantissa < 2 ^ 53
  least : leastExponent ≤ x.exponent
  greatest : x.exponent ≤ greatestExponent
  full : 2 ^ 52 ≤ x.mantissa \/ x.exponent = leastExponent

/-- The exponent of the last place that a number near to `n / d` has. -/
def placeOf (n d : Nat) : Int :=
  max (floorLog2 n d - 52) leastExponent

/-- As many last places as are nearest to `n / d`. -/
def placesOf (n d : Nat) : Nat :=
  divideToEven (scale n d (-placeOf n d)).1 (scale n d (-placeOf n d)).2

def nearest (n d : Nat) : ℚ :=
  placesOf n d * 2 ^ placeOf n d

theorem scaled_eq (n d : Nat) :
    ((scale n d (-placeOf n d)).1 : ℚ) / (scale n d (-placeOf n d)).2 =
      n / d / 2 ^ placeOf n d := by
  rw [scale_eq, zpow_neg, div_eq_mul_inv _ ((2 : ℚ) ^ placeOf n d)]

theorem placesOf_le {n d : Nat} (hn : 0 < n) (hd : 0 < d) : placesOf n d ≤ 2 ^ 53 := by
  apply divideToEven_le (snd_scale_pos n hd _)
  rw [scaled_eq, div_le_iff₀ (zpow_pos rfl _)]
  rcases zpow_floorLog2 hn hd with ⟨_, hhigh⟩
  have hplace : floorLog2 n d + 1 ≤ 53 + placeOf n d := by
    unfold placeOf
    omega
  have hpow : (2 : ℚ) ^ (floorLog2 n d + 1) ≤ 2 ^ (53 + placeOf n d) :=
    zpow_le_zpow_right₀ one_le_two hplace
  rw [zpow_add₀ two_ne_zero 53] at hpow
  push_cast
  exact le_trans hhigh.le hpow

theorem le_placesOf {n d : Nat} (hn : 0 < n) (hd : 0 < d) :
    2 ^ 52 ≤ placesOf n d \/ placeOf n d = leastExponent := by
  by_cases hplace : placeOf n d = leastExponent
  · exact .inr hplace
  · apply Or.inl
    apply le_divideToEven (snd_scale_pos n hd _)
    rw [scaled_eq, le_div_iff₀ (zpow_pos rfl _)]
    rcases zpow_floorLog2 hn hd with ⟨hlow, _⟩
    have hfloor : floorLog2 n d = 52 + placeOf n d := by
      unfold placeOf at hplace ⊢
      omega
    rw [hfloor, zpow_add₀ two_ne_zero] at hlow
    push_cast
    exact hlow

theorem nearest_zero (d : Nat) : nearest 0 d = 0 := by
  have hzero : (scale 0 d (-placeOf 0 d)).1 = 0 := by
    unfold scale
    split
    · exact Nat.zero_shiftLeft _
    · rfl
  rw [nearest, placesOf, hzero]
  unfold divideToEven
  simp

/-- The significand and the exponent that a ratio is rounded to. -/
def rounded (n d : Nat) : Nat × Int :=
  if placesOf n d = 1 <<< 53 then (1 <<< 52, placeOf n d + 1) else (placesOf n d, placeOf n d)

theorem ofRatio?_eq (negative : Bool) {n : Nat} (hn : n ≠ 0) (d : Nat) :
    ofRatio? negative n d =
      if greatestExponent < (rounded n d).2 then none
      else some ⟨negative, (rounded n d).1, (rounded n d).2⟩ := by
  rw [ofRatio?, if_neg hn]
  rfl

/-- The nearest value, as a number whose exponent may be too great. -/
theorem exists_rounded (negative : Bool) (n : Nat) {d : Nat} (hd : 0 < d) :
    exists x : Binary64,
      ofRatio? negative n d = (if greatestExponent < x.exponent then none else some x) /\
        x.magnitude = nearest n d /\ x.mantissa < 2 ^ 53 /\ leastExponent ≤ x.exponent /\
        (2 ^ 52 ≤ x.mantissa \/ x.exponent = leastExponent) := by
  by_cases hn : n = 0
  · exists ⟨negative, 0, leastExponent⟩
    rw [ofRatio?, if_pos hn, hn, nearest_zero, magnitude]
    simp [leastExponent, greatestExponent]
  · have hplaces := placesOf_le (Nat.pos_of_ne_zero hn) hd
    have hleast : leastExponent ≤ placeOf n d := le_max_right _ _
    rw [ofRatio?_eq negative hn, rounded]
    by_cases hfull : placesOf n d = 1 <<< 53
    · exists ⟨negative, 1 <<< 52, placeOf n d + 1⟩
      have hhalf : (1 <<< 53 : Nat) = 2 * 1 <<< 52 := rfl
      have hvalue : ((1 <<< 52 : Nat) : ℚ) * 2 ^ (placeOf n d + 1) = nearest n d := by
        rw [nearest, hfull, hhalf, zpow_add₀ two_ne_zero, zpow_one]
        push_cast
        ring
      have hmantissa : 2 ^ 52 ≤ (1 <<< 52 : Nat) /\ (1 <<< 52 : Nat) < 2 ^ 53 := by decide
      rw [if_pos hfull]
      exact ⟨rfl, hvalue, hmantissa.right, Int.le_add_one hleast, .inl hmantissa.left⟩
    · exists ⟨negative, placesOf n d, placeOf n d⟩
      rw [if_neg hfull]
      exact ⟨rfl, rfl, lt_of_le_of_ne hplaces hfull, hleast,
        le_placesOf (Nat.pos_of_ne_zero hn) hd⟩

theorem magnitude_lt_iff {x : Binary64} (hm : x.mantissa < 2 ^ 53)
    (hfull : 2 ^ 52 ≤ x.mantissa \/ x.exponent = leastExponent) :
    x.magnitude < 2 ^ 1024 <-> x.exponent ≤ greatestExponent := by
  have hpos : (0 : ℚ) < 2 ^ x.exponent := zpow_pos rfl _
  constructor
  · intro hlt
    rcases hfull with hfull | hleast
    · have hle : (2 : ℚ) ^ (52 + x.exponent) < 2 ^ (1024 : Int) := by
        rw [zpow_add₀ two_ne_zero]
        apply lt_of_le_of_lt _ hlt
        exact mul_le_mul_of_nonneg_right (by exact_mod_cast hfull) hpos.le
      have := (zpow_lt_zpow_iff_right₀ one_lt_two).mp hle
      unfold greatestExponent
      omega
    · rw [hleast]
      decide
  · intro hle
    have hpow : (2 : ℚ) ^ (53 + x.exponent) ≤ 2 ^ (1024 : Int) := by
      apply zpow_le_zpow_right₀ one_le_two
      unfold greatestExponent at hle
      omega
    rw [zpow_add₀ two_ne_zero] at hpow
    apply lt_of_lt_of_le _ hpow
    exact mul_lt_mul_of_pos_right (by exact_mod_cast hm) hpos

theorem isSome_ofRatio? (negative : Bool) (n : Nat) {d : Nat} (hd : 0 < d) :
    (ofRatio? negative n d).isSome = true <-> nearest n d < 2 ^ 1024 := by
  rcases exists_rounded negative n hd with ⟨x, heq, hvalue, hm, _, hfull⟩
  rw [heq, ← hvalue, magnitude_lt_iff hm hfull]
  split
  · rename_i hlt
    simp only [Option.isSome_none, Bool.false_eq_true, false_iff]
    exact not_le_of_gt hlt
  · rename_i hle
    simp only [Option.isSome_some, true_iff]
    exact le_of_not_gt hle

theorem isValid_of_ofRatio? {negative : Bool} {n d : Nat} (hd : 0 < d) {x : Binary64}
    (h : ofRatio? negative n d = some x) : x.IsValid /\ x.magnitude = nearest n d := by
  rcases exists_rounded negative n hd with ⟨y, heq, hvalue, hm, hleast, hfull⟩
  rw [heq] at h
  split at h
  · cases h
  · rename_i hle
    cases h
    exact ⟨⟨hm, hleast, le_of_not_gt hle, hfull⟩, hvalue⟩

theorem nearest_mono {n d n' d' : Nat} (hd : 0 < d) (hd' : 0 < d')
    (h : (n : ℚ) / d ≤ n' / d') : nearest n d ≤ nearest n' d' := by
  by_cases hn : n = 0
  · rw [hn, nearest_zero, nearest]
    positivity
  · have hn : 0 < n := Nat.pos_of_ne_zero hn
    have hn' : 0 < n' := by
      apply Nat.pos_of_ne_zero
      rintro rfl
      rw [Nat.cast_zero, zero_div] at h
      exact absurd h (not_le_of_gt (by positivity))
    have hfloor := floorLog2_mono hn hd hn' hd' h
    have hplace : placeOf n d ≤ placeOf n' d' := by
      unfold placeOf
      omega
    rcases hplace.eq_or_lt with heq | hlt
    · unfold nearest
      rw [heq]
      apply mul_le_mul_of_nonneg_right _ (zpow_pos rfl _).le
      rw [Nat.cast_le]
      apply divideToEven_mono (snd_scale_pos n hd _) (snd_scale_pos n' hd' _)
      rw [scaled_eq, scaled_eq, heq]
      exact div_le_div_of_nonneg_right h (zpow_pos rfl _).le
    · have hlow : 2 ^ 52 ≤ placesOf n' d' := by
        rcases le_placesOf hn' hd' with hle | hleast
        · exact hle
        · have : leastExponent ≤ placeOf n d := le_max_right _ _
          omega
      have hpow : (2 : ℚ) ^ (53 + placeOf n d) ≤ 2 ^ (52 + placeOf n' d') :=
        zpow_le_zpow_right₀ one_le_two (by omega)
      rw [zpow_add₀ two_ne_zero, zpow_add₀ two_ne_zero] at hpow
      calc nearest n d ≤ 2 ^ (53 : Int) * 2 ^ placeOf n d :=
            mul_le_mul_of_nonneg_right (by exact_mod_cast placesOf_le hn hd) (zpow_pos rfl _).le
        _ ≤ 2 ^ (52 : Int) * 2 ^ placeOf n' d' := hpow
        _ ≤ nearest n' d' :=
            mul_le_mul_of_nonneg_right (by exact_mod_cast hlow) (zpow_pos rfl _).le

theorem isSome_ofRatio?_of_le {negative negative' : Bool} {n d n' d' : Nat} (hd : 0 < d)
    (hd' : 0 < d') (h : (n : ℚ) / d ≤ n' / d') (hsome : (ofRatio? negative' n' d').isSome = true) :
    (ofRatio? negative n d).isSome = true := by
  rw [isSome_ofRatio? _ _ hd'] at hsome
  rw [isSome_ofRatio? _ _ hd]
  exact lt_of_le_of_lt (nearest_mono hd hd' h) hsome

/-!
## Powers of ten
-/

theorem snd_ratio_pos (x : Binary64) : 0 < x.ratio.2 :=
  snd_scale_pos _ Nat.one_pos _

theorem magnitude_nonneg (x : Binary64) : 0 ≤ x.magnitude :=
  mul_nonneg (Nat.cast_nonneg _) (zpow_pos rfl _).le

theorem ratio_eq (x : Binary64) : (x.ratio.1 : ℚ) / x.ratio.2 = x.magnitude := by
  rw [ratio, scale_eq, magnitude, Nat.cast_one, div_one]

theorem one_le_pow10 {e : Nat} {p : Binary64} (h : ofRatio? false (Nat.pow 10 e) 1 = some p) :
    1 ≤ p.magnitude := by
  have hone : ofRatio? false 1 1 = some ⟨false, 2 ^ 52, -52⟩ := rfl
  have hnearest : nearest 1 1 = 1 := by
    rw [← (isValid_of_ofRatio? Nat.one_pos hone).right, magnitude]
    norm_num
  rw [(isValid_of_ofRatio? Nat.one_pos h).right, ← hnearest]
  apply nearest_mono Nat.one_pos Nat.one_pos
  rw [Nat.cast_one, div_one, div_one]
  exact_mod_cast Nat.one_le_pow e 10 (by decide)

theorem fst_ratio_pos {p : Binary64} (h : 1 ≤ p.magnitude) : 0 < p.ratio.1 := by
  apply Nat.pos_of_ne_zero
  intro hzero
  rw [← ratio_eq, hzero, Nat.cast_zero, zero_div] at h
  exact absurd h (by norm_num)

theorem mulPow10?_eq_some {x z : Binary64} {e : Nat} :
    mulPow10? x e = some z <-> exists p, ofRatio? false (Nat.pow 10 e) 1 = some p /\
      ofRatio? x.negative (x.ratio.1 * p.ratio.1) (x.ratio.2 * p.ratio.2) = some z :=
  Option.bind_eq_some_iff

theorem divPow10?_eq_some {x z : Binary64} {e : Nat} :
    divPow10? x e = some z <-> exists p, ofRatio? false (Nat.pow 10 e) 1 = some p /\
      ofRatio? x.negative (x.ratio.1 * p.ratio.2) (x.ratio.2 * p.ratio.1) = some z :=
  Option.bind_eq_some_iff

theorem isValid_of_mulPow10? {x z : Binary64} {e : Nat} (h : mulPow10? x e = some z) :
    z.IsValid := by
  rcases mulPow10?_eq_some.mp h with ⟨p, _, hz⟩
  exact (isValid_of_ofRatio? (Nat.mul_pos x.snd_ratio_pos p.snd_ratio_pos) hz).left

theorem isValid_of_divPow10? {x z : Binary64} {e : Nat} (h : divPow10? x e = some z) :
    z.IsValid := by
  rcases divPow10?_eq_some.mp h with ⟨p, hp, hz⟩
  have hpos := fst_ratio_pos (one_le_pow10 hp)
  exact (isValid_of_ofRatio? (Nat.mul_pos x.snd_ratio_pos hpos) hz).left

theorem isValid_of_divPow10From {fuel : Nat} {x z : Binary64} {e : Nat} (hx : x.IsValid)
    (h : divPow10From fuel x e = some z) : z.IsValid := by
  induction fuel generalizing x e with
  | zero => exact isValid_of_divPow10? h
  | succ fuel ih =>
      rw [divPow10From] at h
      split at h
      · exact isValid_of_divPow10? h
      · split at h
        · cases h
          exact hx
        · rcases Option.bind_eq_some_iff.mp h with ⟨y, hy, h⟩
          exact ih (isValid_of_divPow10? hy) h

theorem isValid_of_ofParts? {negative : Bool} {n : Nat} {e : Int} {z : Binary64}
    (h : ofParts? negative n e = some z) : z.IsValid := by
  rcases Option.bind_eq_some_iff.mp h with ⟨x, hx, h⟩
  have hvalid := (isValid_of_ofRatio? Nat.one_pos hx).left
  split at h
  · dsimp only at h
    split at h
    · exact isValid_of_mulPow10? h
    · split at h
      · cases h
        exact hvalid
      · cases h
  · exact isValid_of_divPow10From hvalid h

/-!
## Decimals that can be read
-/

theorem pow10_mono {e e' : Nat} (he : e ≤ e') :
    ((Nat.pow 10 e : Nat) : ℚ) / (1 : Nat) ≤ (Nat.pow 10 e' : Nat) / (1 : Nat) := by
  rw [Nat.cast_one, div_one, div_one, Nat.cast_le]
  exact Nat.pow_le_pow_right (by decide) he

theorem isSome_pow10_of_le {e e' : Nat} (he : e ≤ e') {q : Binary64}
    (h : ofRatio? false (Nat.pow 10 e') 1 = some q) :
    (ofRatio? false (Nat.pow 10 e) 1).isSome = true := by
  apply isSome_ofRatio?_of_le Nat.one_pos Nat.one_pos (pow10_mono he)
  rw [h]
  rfl

theorem isSome_mulPow10?_of_le {x y : Binary64} {e e' : Nat} (h : x.magnitude ≤ y.magnitude)
    (he : e ≤ e') (hsome : (mulPow10? y e').isSome = true) : (mulPow10? x e).isSome = true := by
  rcases Option.isSome_iff_exists.mp hsome with ⟨z, hz⟩
  rcases mulPow10?_eq_some.mp hz with ⟨q, hq, hz⟩
  rcases Option.isSome_iff_exists.mp (isSome_pow10_of_le he hq) with ⟨p, hp⟩
  have hle : p.magnitude ≤ q.magnitude := by
    rw [(isValid_of_ofRatio? Nat.one_pos hp).right, (isValid_of_ofRatio? Nat.one_pos hq).right]
    exact nearest_mono Nat.one_pos Nat.one_pos (pow10_mono he)
  have hratio : ((x.ratio.1 * p.ratio.1 : Nat) : ℚ) / (x.ratio.2 * p.ratio.2 : Nat) ≤
      (y.ratio.1 * q.ratio.1 : Nat) / (y.ratio.2 * q.ratio.2 : Nat) := by
    push_cast
    rw [mul_div_mul_comm, mul_div_mul_comm, ratio_eq, ratio_eq, ratio_eq, ratio_eq]
    exact mul_le_mul h hle p.magnitude_nonneg y.magnitude_nonneg
  have hproduct : (ofRatio? x.negative (x.ratio.1 * p.ratio.1) (x.ratio.2 * p.ratio.2)).isSome =
      true :=
    isSome_ofRatio?_of_le (Nat.mul_pos x.snd_ratio_pos p.snd_ratio_pos)
      (Nat.mul_pos y.snd_ratio_pos q.snd_ratio_pos) hratio (by rw [hz]; rfl)
  rcases Option.isSome_iff_exists.mp hproduct with ⟨w, hw⟩
  rw [mulPow10?_eq_some.mpr ⟨p, hp, hw⟩]
  rfl

theorem isSome_pow10 {e : Nat} (he : e ≤ greatestPow10) :
    (ofRatio? false (Nat.pow 10 e) 1).isSome = true := by
  have he : e ≤ 291 + 17 := he
  have htop := isSome_mulPow10?_greatest 17 (by decide)
  rcases Option.isSome_iff_exists.mp htop with ⟨z, hz⟩
  rcases Option.bind_eq_some_iff.mp hz with ⟨y, _, hz⟩
  rcases mulPow10?_eq_some.mp hz with ⟨p, hp, _⟩
  exact isSome_pow10_of_le he hp

theorem two_pow_57_lt : (2 : ℚ) ^ 57 < 2 ^ 1024 :=
  pow_lt_pow_right₀ one_lt_two (by decide)

theorem nearest_le_of_le {n d : Nat} (hd : 0 < d) (h : (n : ℚ) / d ≤ 2 ^ 57) :
    nearest n d ≤ 2 ^ 57 := by
  have hread : ofRatio? false (2 ^ 57) 1 = some ⟨false, 2 ^ 52, 5⟩ := rfl
  have hnearest : nearest (2 ^ 57) 1 = 2 ^ 57 := by
    rw [← (isValid_of_ofRatio? Nat.one_pos hread).right, magnitude]
    norm_num
  rw [← hnearest]
  apply nearest_mono hd Nat.one_pos
  rw [Nat.cast_one, div_one]
  exact_mod_cast h

theorem exists_divPow10? {x : Binary64} (hx : x.magnitude ≤ 2 ^ 57) {e : Nat}
    (he : e ≤ greatestPow10) : exists z, divPow10? x e = some z /\ z.magnitude ≤ 2 ^ 57 := by
  rcases Option.isSome_iff_exists.mp (isSome_pow10 he) with ⟨p, hp⟩
  have hone := one_le_pow10 hp
  have hpos := Nat.mul_pos x.snd_ratio_pos (fst_ratio_pos hone)
  have hratio : ((x.ratio.1 * p.ratio.2 : Nat) : ℚ) / (x.ratio.2 * p.ratio.1 : Nat) ≤ 2 ^ 57 := by
    have hquotient : ((x.ratio.1 * p.ratio.2 : Nat) : ℚ) / (x.ratio.2 * p.ratio.1 : Nat) =
        x.magnitude / p.magnitude := by
      push_cast
      rw [← ratio_eq, ← ratio_eq, div_div_div_eq]
    rw [hquotient, div_le_iff₀ (lt_of_lt_of_le one_pos hone)]
    nlinarith
  have hbound := nearest_le_of_le hpos hratio
  have hsome := (isSome_ofRatio? x.negative (x.ratio.1 * p.ratio.2) hpos).mpr
    (lt_of_le_of_lt hbound two_pow_57_lt)
  rcases Option.isSome_iff_exists.mp hsome with ⟨z, hz⟩
  exists z
  constructor
  · exact divPow10?_eq_some.mpr ⟨p, hp, hz⟩
  · rw [(isValid_of_ofRatio? hpos hz).right]
    exact hbound

theorem isSome_divPow10From {fuel : Nat} {x : Binary64} (hx : x.magnitude ≤ 2 ^ 57) {e : Nat}
    (he : e ≤ greatestPow10 * (fuel + 1)) : (divPow10From fuel x e).isSome = true := by
  induction fuel generalizing x e with
  | zero =>
      rcases exists_divPow10? hx (by simpa using he) with ⟨z, hz, _⟩
      rw [divPow10From, hz]
      rfl
  | succ fuel ih =>
      rw [divPow10From]
      split
      · rename_i hsmall
        rcases exists_divPow10? hx hsmall with ⟨z, hz, _⟩
        rw [hz]
        rfl
      · split
        · rfl
        · rcases exists_divPow10? hx (Nat.le_refl greatestPow10) with ⟨y, hy, hbound⟩
          rw [hy]
          apply ih hbound
          rw [Nat.mul_succ] at he
          omega

theorem le_room {n k : Nat} (hn : n ≤ 10 ^ 17) (hvalue : n * 10 ^ k ≤ greatest) :
    n ≤ min (10 ^ 17) (greatest / 10 ^ (291 + (k - 291))) := by
  apply le_min hn
  by_cases hk : k ≤ 291
  · rcases greatest_bounds with ⟨hlow, _⟩
    have hroom : 10 ^ 17 ≤ greatest / 10 ^ 291 :=
      (Nat.le_div_iff_mul_le (by positivity)).mpr hlow
    rw [Nat.sub_eq_zero_of_le hk, Nat.add_zero]
    exact le_trans hn hroom
  · rw [Nat.add_sub_of_le (Nat.le_of_not_le hk)]
    exact (Nat.le_div_iff_mul_le (by positivity)).mpr hvalue

theorem eq_zero_of_exponent {n k : Nat} (hk : greatestPow10 < k) (hvalue : n * 10 ^ k ≤ greatest) :
    n = 0 := by
  rcases greatest_bounds with ⟨_, hhigh⟩
  have hk : 309 ≤ k := hk
  have hpow : forall j, j ≤ k -> 10 ^ j ≤ 10 ^ k := fun j => Nat.pow_le_pow_right (by decide)
  by_contra hn
  have hle : 10 ^ k ≤ n * 10 ^ k := Nat.le_mul_of_pos_left _ (Nat.pos_of_ne_zero hn)
  exact absurd (le_trans (hpow 309 hk) (le_trans hle hvalue)) (not_le_of_gt hhigh)

/-- A decimal of few digits that is not greater than the greatest value is not too large. -/
theorem isSome_ofParts? (negative : Bool) {n : Nat} {e : Int} (hn : n ≤ 10 ^ 17)
    (he : -1500 ≤ e) (hvalue : (n : ℚ) * 10 ^ e ≤ greatest) :
    (ofParts? negative n e).isSome = true := by
  have hsmall : (n : ℚ) / (1 : Nat) ≤ 2 ^ 57 := by
    rw [Nat.cast_one, div_one]
    exact_mod_cast le_trans hn (by norm_num)
  have hbound := nearest_le_of_le Nat.one_pos hsmall
  have hsome : (ofRatio? negative n 1).isSome = true :=
    (isSome_ofRatio? _ _ Nat.one_pos).mpr (lt_of_le_of_lt hbound two_pow_57_lt)
  rcases Option.isSome_iff_exists.mp hsome with ⟨x, hx⟩
  have hxvalue := (isValid_of_ofRatio? Nat.one_pos hx).right
  rw [ofParts?, hx]
  change Option.isSome (if 0 ≤ e then _ else _) = true
  split
  · rename_i hup
    rcases Int.eq_ofNat_of_zero_le hup with ⟨k, rfl⟩
    rw [zpow_natCast] at hvalue
    have hvalue : n * 10 ^ k ≤ greatest := by exact_mod_cast hvalue
    rw [Int.toNat_natCast]
    by_cases hk : k ≤ greatestPow10
    · have htop := isSome_mulPow10?_greatest (k - 291) (by unfold greatestPow10 at hk; omega)
      rcases Option.isSome_iff_exists.mp htop with ⟨z, hz⟩
      rcases Option.bind_eq_some_iff.mp hz with ⟨y, hy, hz⟩
      have hle : x.magnitude ≤ y.magnitude := by
        rw [hxvalue, (isValid_of_ofRatio? Nat.one_pos hy).right]
        apply nearest_mono Nat.one_pos Nat.one_pos
        rw [Nat.cast_one, div_one, div_one, Nat.cast_le]
        exact le_room hn hvalue
      rw [if_pos hk]
      have hup : k ≤ 291 + (k - 291) := by omega
      exact isSome_mulPow10?_of_le hle hup (Option.isSome_iff_exists.mpr ⟨z, hz⟩)
    · have hzero : x.isZero = true := by
        rw [eq_zero_of_exponent (lt_of_not_ge hk) hvalue] at hx
        cases hx
        rfl
      rw [if_neg hk, hzero]
      rfl
  · apply isSome_divPow10From
    · rw [hxvalue]
      exact hbound
    · unfold greatestPow10
      omega

end Binary64
end Decimal
end SchemaTypes
