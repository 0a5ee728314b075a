import Mathlib

namespace MutinyNet
namespace Floating

/-!
# Rounding to binary64

The finite numbers of binary64 are the multiples of a power of two with at most
53 digits in front of it.  `nearest` takes a rational number to the nearest of them,
and to the one with the even multiple if two are as near.  Its exponents have a
lower bound and no upper one: a result from `2 ^ 1024` on stands for an infinity.

The integers below `2 ^ 53` are numbers of the format, so rounding does not cross
them.  It may reach the next one from below.
-/

/-! ## The nearest integer -/

/-- The integer nearest to a number, the even one of two. -/
def roundEven (q : ℚ) : ℤ :=
  if Int.fract q < 1 / 2 then ⌊q⌋
  else if 1 / 2 < Int.fract q then ⌊q⌋ + 1
  else if ⌊q⌋ % 2 = 0 then ⌊q⌋ else ⌊q⌋ + 1

variable {q x : ℚ} {n : ℤ}

theorem roundEven_intCast (n : ℤ) : roundEven n = n := by
  rw [roundEven, Int.fract_intCast, if_pos (by norm_num), Int.floor_intCast]

theorem floor_le_roundEven (q : ℚ) : ⌊q⌋ ≤ roundEven q := by
  unfold roundEven
  split
  · exact le_refl _
  · split
    · omega
    · split <;> omega

theorem le_roundEven (below : (n : ℚ) ≤ q) : n ≤ roundEven q :=
  (Int.le_floor.mpr below).trans (floor_le_roundEven q)

theorem roundEven_le (above : q ≤ n) : roundEven q ≤ n := by
  rcases eq_or_lt_of_le above with same | less
  · rw [same, roundEven_intCast]
  · have floor : ⌊q⌋ + 1 ≤ n := Int.floor_lt.mpr less
    unfold roundEven
    split
    · omega
    · split
      · exact floor
      · split <;> omega

/-- An even integer is reached from half a unit below it on. -/
theorem roundEven_lt_iff_of_even (even : n % 2 = 0) : roundEven q < n <-> q < n - 1 / 2 := by
  have parts := Int.floor_add_fract q
  have small := Int.fract_lt_one q
  have nonneg := Int.fract_nonneg q
  constructor
  · intro rounded
    have floor : ⌊q⌋ + 1 ≤ n := (floor_le_roundEven q).trans_lt rounded
    rcases eq_or_lt_of_le floor with next | far
    · -- The odd number below rounds down only from less than half way.
      have below : Int.fract q < 1 / 2 := by
        by_contra enough
        rw [roundEven, if_neg enough] at rounded
        split at rounded
        · omega
        · rw [if_neg (by omega)] at rounded
          omega
      have whole : (n : ℚ) = ⌊q⌋ + 1 := by exact_mod_cast next.symm
      linarith
    · have whole : (⌊q⌋ : ℚ) + 2 ≤ n := by exact_mod_cast (show ⌊q⌋ + 2 ≤ n by omega)
      linarith
  · intro below
    by_contra reached
    have floor : ⌊q⌋ < n := by
      refine Int.floor_lt.mpr ?_
      linarith
    have next : ⌊q⌋ + 1 = n := by
      have bound : roundEven q ≤ ⌊q⌋ + 1 := by
        refine roundEven_le ?_
        push_cast
        linarith
      omega
    have whole : (n : ℚ) = ⌊q⌋ + 1 := by exact_mod_cast next.symm
    rw [roundEven, if_pos (by linarith)] at reached
    omega

/-! ## Powers of two -/

/-- A power of two, for any exponent. -/
def powTwo (k : ℤ) : ℚ :=
  if 0 ≤ k then ((2 ^ k.toNat : ℕ) : ℚ) else 1 / ((2 ^ (-k).toNat : ℕ) : ℚ)

theorem powTwo_eq (k : ℤ) : powTwo k = (2 : ℚ) ^ k := by
  unfold powTwo
  split
  · next nonneg =>
      obtain ⟨k, rfl⟩ := Int.eq_ofNat_of_zero_le nonneg
      push_cast
      rw [Int.toNat_natCast, zpow_natCast]
  · next negative =>
      obtain ⟨m, same⟩ := Int.eq_ofNat_of_zero_le (show 0 ≤ -k by omega)
      have sign : k = -(m : ℤ) := by omega
      rw [sign, neg_neg, Int.toNat_natCast, zpow_neg, zpow_natCast, one_div]
      push_cast
      rfl

/-- The exponent of the leading digit. -/
def exponent (x : ℚ) : ℤ :=
  let guess : ℤ := (Nat.log2 x.num.natAbs : ℤ) - (Nat.log2 x.den : ℤ)
  if |x| < powTwo guess then guess - 1 else guess

theorem exponent_spec (some : x ≠ 0) :
    (2 : ℚ) ^ exponent x ≤ |x| ∧ |x| < (2 : ℚ) ^ (exponent x + 1) := by
  have nonzero : x.num.natAbs ≠ 0 := by
    rw [Ne, Int.natAbs_eq_zero, Rat.num_eq_zero]
    exact some
  have quotient : |x| = (x.num.natAbs : ℚ) / x.den := by
    rw [← Rat.num_div_den |x|, Rat.num_abs_eq_abs_num, Rat.den_abs_eq_den, Int.abs_eq_natAbs,
      Int.cast_natCast]
  have den : (0 : ℚ) < x.den := by exact_mod_cast x.den_pos
  have numLow : (2 : ℚ) ^ Nat.log2 x.num.natAbs ≤ x.num.natAbs := by
    exact_mod_cast Nat.log2_self_le nonzero
  have numHigh : (x.num.natAbs : ℚ) < 2 ^ (Nat.log2 x.num.natAbs + 1) := by
    exact_mod_cast Nat.lt_log2_self
  have denLow : (2 : ℚ) ^ Nat.log2 x.den ≤ x.den := by
    exact_mod_cast Nat.log2_self_le x.den_nz
  have denHigh : (x.den : ℚ) < 2 ^ (Nat.log2 x.den + 1) := by
    exact_mod_cast Nat.lt_log2_self
  have two : (2 : ℚ) ≠ 0 := by norm_num
  have low : (2 : ℚ) ^ ((Nat.log2 x.num.natAbs : ℤ) - (Nat.log2 x.den : ℤ) - 1) ≤ |x| := by
    rw [quotient, zpow_sub₀ two, zpow_sub₀ two, zpow_natCast, zpow_natCast, zpow_one, div_div,
      div_le_div_iff₀ (by positivity) den]
    rw [pow_succ] at denHigh
    nlinarith [pow_pos (show (0 : ℚ) < 2 by norm_num) (Nat.log2 x.num.natAbs)]
  have high : |x| < (2 : ℚ) ^ ((Nat.log2 x.num.natAbs : ℤ) - (Nat.log2 x.den : ℤ) + 1) := by
    rw [quotient, zpow_add₀ two, zpow_sub₀ two, zpow_natCast, zpow_natCast, zpow_one,
      div_lt_iff₀ den]
    rw [pow_succ] at numHigh
    have scale : (2 : ℚ) ^ Nat.log2 x.num.natAbs * 2 ≤
        2 ^ Nat.log2 x.num.natAbs / 2 ^ Nat.log2 x.den * 2 * x.den := by
      rw [div_mul_eq_mul_div, div_mul_eq_mul_div, le_div_iff₀ (by positivity)]
      exact mul_le_mul_of_nonneg_left denLow (by positivity)
    linarith
  unfold exponent
  dsimp only
  rw [powTwo_eq]
  split
  · next below =>
      refine ⟨low, ?_⟩
      rw [sub_add_cancel]
      exact below
  · next above => exact ⟨not_lt.mp above, high⟩

theorem exponent_eq {e : ℤ} (low : (2 : ℚ) ^ e ≤ x) (high : x < (2 : ℚ) ^ (e + 1)) :
    exponent x = e := by
  have positive : 0 < x := lt_of_lt_of_le (by positivity) low
  have spec := exponent_spec positive.ne'
  rw [abs_of_pos positive] at spec
  have above := (zpow_lt_zpow_iff_right₀ (by norm_num : (1 : ℚ) < 2)).mp (low.trans_lt spec.2)
  have below := (zpow_lt_zpow_iff_right₀ (by norm_num : (1 : ℚ) < 2)).mp (spec.1.trans_lt high)
  omega

/-! ## Rounding -/

/-- The exponent of the last digit of a number of the format near `x`. -/
def lastDigit (x : ℚ) : ℤ :=
  max (exponent x - 52) (-1074)

/-- The number of the format nearest to `x`. -/
def nearest (x : ℚ) : ℚ :=
  if x = 0 then 0 else roundEven (x / powTwo (lastDigit x)) * powTwo (lastDigit x)

theorem nearest_of_ne (some : x ≠ 0) :
    nearest x = roundEven (x / (2 : ℚ) ^ lastDigit x) * (2 : ℚ) ^ lastDigit x := by
  rw [nearest, if_neg some, powTwo_eq]

/-- A number of at most 53 binary digits in front of the point has its last digit at
the point or behind it. -/
theorem lastDigit_nonpos (some : x ≠ 0) (small : |x| < 2 ^ 53) : lastDigit x ≤ 0 := by
  have bound : (2 : ℚ) ^ exponent x < (2 : ℚ) ^ (53 : ℤ) :=
    (exponent_spec some).1.trans_lt (by exact_mod_cast small)
  have less := (zpow_lt_zpow_iff_right₀ (by norm_num : (1 : ℚ) < 2)).mp bound
  unfold lastDigit
  omega

/-- An integer is a multiple of the unit of a number below `2 ^ 53`. -/
theorem exists_multiple {k : ℤ} (below : k ≤ 0) (n : ℤ) :
    Exists fun m : ℤ => (n : ℚ) / (2 : ℚ) ^ k = m := by
  obtain ⟨digits, same⟩ := Int.eq_ofNat_of_zero_le (show 0 ≤ -k by omega)
  refine ⟨n * 2 ^ digits, ?_⟩
  rw [show k = -(digits : ℤ) by omega, zpow_neg, zpow_natCast, div_inv_eq_mul]
  push_cast
  rfl

/-- Integers below `2 ^ 53` are numbers of the format. -/
theorem nearest_intCast (small : |n| < 2 ^ 53) : nearest n = n := by
  by_cases zero : (n : ℚ) = 0
  · rw [nearest, if_pos zero, zero]
  · have bound : |(n : ℚ)| < 2 ^ 53 := by exact_mod_cast small
    rcases exists_multiple (lastDigit_nonpos zero bound) n with ⟨m, multiple⟩
    rw [nearest_of_ne zero, multiple, roundEven_intCast, ← multiple,
      div_mul_cancel₀ _ (zpow_ne_zero _ (by norm_num))]

theorem nearest_nonpos (below : x ≤ 0) : nearest x ≤ 0 := by
  unfold nearest
  split
  · exact le_refl _
  · have unit : 0 < powTwo (lastDigit x) := by
      rw [powTwo_eq]
      positivity
    have rounded : roundEven (x / powTwo (lastDigit x)) ≤ 0 := by
      apply roundEven_le
      rw [Int.cast_zero]
      exact div_nonpos_of_nonpos_of_nonneg below unit.le
    exact mul_nonpos_of_nonpos_of_nonneg (by exact_mod_cast rounded) unit.le

/-- Rounding does not cross an integer below `2 ^ 53` from below. -/
theorem nearest_le (nonneg : 0 ≤ n) (small : n < 2 ^ 53) (above : x ≤ n) : nearest x ≤ n := by
  rcases le_or_gt x 0 with nonpos | positive
  · exact (nearest_nonpos nonpos).trans (by exact_mod_cast nonneg)
  · have bound : |x| < 2 ^ 53 := by
      rw [abs_of_pos positive]
      exact above.trans_lt (by exact_mod_cast small)
    have unit : (0 : ℚ) < (2 : ℚ) ^ lastDigit x := by positivity
    rcases exists_multiple (lastDigit_nonpos positive.ne' bound) n with ⟨m, multiple⟩
    have rounded : roundEven (x / (2 : ℚ) ^ lastDigit x) ≤ m := by
      apply roundEven_le
      rw [← multiple]
      exact (div_le_div_iff_of_pos_right unit).mpr above
    rw [nearest_of_ne positive.ne', ← le_div_iff₀ unit, multiple]
    exact_mod_cast rounded

/-- Nor from above. -/
theorem le_nearest (nonneg : 0 ≤ n) (small : n < 2 ^ 53) (below : (n : ℚ) ≤ x) :
    (n : ℚ) ≤ nearest x := by
  rcases eq_or_lt_of_le (show (0 : ℚ) ≤ x from le_trans (by exact_mod_cast nonneg) below)
    with zero | positive
  · rw [← zero] at below
    rw [nearest, if_pos zero.symm]
    exact below
  · have unit : (0 : ℚ) < (2 : ℚ) ^ lastDigit x := by positivity
    rw [nearest_of_ne positive.ne', ← div_le_iff₀ unit]
    by_cases digit : lastDigit x ≤ 0
    · rcases exists_multiple digit n with ⟨m, multiple⟩
      rw [multiple]
      have rounded : m ≤ roundEven (x / (2 : ℚ) ^ lastDigit x) := by
        apply le_roundEven
        rw [← multiple]
        exact (div_le_div_iff_of_pos_right unit).mpr below
      exact_mod_cast rounded
    · -- The number itself has more than 53 digits.
      have spec := exponent_spec positive.ne'
      rw [abs_of_pos positive] at spec
      have digits : lastDigit x = exponent x - 52 := by
        unfold lastDigit at digit ⊢
        omega
      have leading : (2 : ℚ) ^ (52 : ℤ) ≤ x / (2 : ℚ) ^ lastDigit x := by
        rw [le_div_iff₀ unit, ← zpow_add₀ (by norm_num), digits, add_sub_cancel]
        exact spec.1
      have rounded : (2 ^ 52 : ℤ) ≤ roundEven (x / (2 : ℚ) ^ lastDigit x) := by
        apply le_roundEven
        exact_mod_cast leading
      have enough : (2 : ℚ) ^ (1 : ℤ) ≤ (2 : ℚ) ^ lastDigit x :=
        (zpow_le_zpow_iff_right₀ (by norm_num)).mpr (by omega)
      have cast : (2 : ℚ) ^ 52 ≤ roundEven (x / (2 : ℚ) ^ lastDigit x) := by
        exact_mod_cast rounded
      refine le_trans ?_ cast
      rw [div_le_iff₀ unit]
      have bound : (n : ℚ) < 2 ^ 53 := by exact_mod_cast small
      rw [zpow_one] at enough
      nlinarith

/-- Between two integers a number rounds to the upper one from half a unit below it
on. -/
theorem nearest_lt_iff {k : ℕ} (some : 0 < k) (small : k < 2 ^ 52) (low : (k : ℚ) ≤ x)
    (high : x < k + 1) :
    nearest x < k + 1 <-> x < k + 1 - (2 : ℚ) ^ ((Nat.log2 k : ℤ) - 53) := by
  have positive : 0 < x := lt_of_lt_of_le (by exact_mod_cast some) low
  have leading : exponent x = Nat.log2 k := by
    apply exponent_eq
    · rw [zpow_natCast]
      refine le_trans ?_ low
      exact_mod_cast Nat.log2_self_le some.ne'
    · refine lt_of_lt_of_le high ?_
      have next : k + 1 ≤ 2 ^ (Nat.log2 k + 1) := Nat.lt_log2_self
      exact_mod_cast next
  have within : Nat.log2 k < 52 := (Nat.log2_lt some.ne').mpr small
  have digits : lastDigit x = (Nat.log2 k : ℤ) - 52 := by
    unfold lastDigit
    omega
  obtain ⟨behind, same⟩ := Int.eq_ofNat_of_zero_le (show 0 ≤ 51 - (Nat.log2 k : ℤ) by omega)
  -- The upper integer is an even multiple of the unit.
  have multiple : ((k : ℚ) + 1) / (2 : ℚ) ^ lastDigit x =
      (((k + 1) * 2 ^ (behind + 1) : ℕ) : ℤ) := by
    rw [digits, show (Nat.log2 k : ℤ) - 52 = -((behind + 1 : ℕ) : ℤ) by push_cast; omega, zpow_neg,
      zpow_natCast, div_inv_eq_mul]
    push_cast
    rfl
  have even : (((k + 1) * 2 ^ (behind + 1) : ℕ) : ℤ) % 2 = 0 := by
    rw [pow_succ, ← mul_assoc]
    push_cast
    exact Int.mul_emod_left _ _
  have unit : (0 : ℚ) < (2 : ℚ) ^ lastDigit x := by positivity
  have half : (2 : ℚ) ^ ((Nat.log2 k : ℤ) - 53) = 1 / 2 * (2 : ℚ) ^ lastDigit x := by
    rw [digits, show (Nat.log2 k : ℤ) - 53 = (Nat.log2 k : ℤ) - 52 - 1 by ring,
      zpow_sub₀ (by norm_num), zpow_one]
    ring
  rw [nearest_of_ne positive.ne', ← lt_div_iff₀ unit, multiple, half]
  have cut := @roundEven_lt_iff_of_even (x / (2 : ℚ) ^ lastDigit x) _ even
  rw [← multiple, lt_sub_iff_add_lt, div_add' _ _ _ unit.ne',
    div_lt_div_iff_of_pos_right unit] at cut
  rw [lt_sub_iff_add_lt, ← cut]
  exact Int.cast_lt

/-- So it stays within its unit exactly if it is not that near to the next one. -/
theorem floor_nearest_iff {k : ℕ} (some : 0 < k) (small : k < 2 ^ 52) (low : (k : ℚ) ≤ x)
    (high : x < k + 1) :
    ⌊nearest x⌋ = k <-> Int.fract x < 1 - (2 : ℚ) ^ ((Nat.log2 k : ℤ) - 53) := by
  have above : ((k : ℤ) : ℚ) ≤ nearest x := by
    refine le_nearest (by omega) (by omega) ?_
    exact_mod_cast low
  have floor : ⌊x⌋ = k := by
    rw [Int.floor_eq_iff]
    exact ⟨by exact_mod_cast low, by exact_mod_cast high⟩
  have fraction := Int.floor_add_fract x
  rw [floor, Int.cast_natCast] at fraction
  rw [Int.floor_eq_iff, and_iff_right above, Int.cast_natCast,
    nearest_lt_iff some small low high]
  constructor
  · intro early
    linarith
  · intro early
    linarith

end Floating
end MutinyNet
