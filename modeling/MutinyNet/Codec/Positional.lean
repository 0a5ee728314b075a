import Mathlib

namespace MutinyNet
namespace Codec

/-!
# Positional notation, most significant digit first

Text shows numbers with the most significant digit first, and formats pad them
with zeros in front.  Values of digit lists split at any point, so operations
on prefixes and suffixes of a text are divisions and remainders of its value.
-/

variable {base : Nat}

/-- The value of a list of digits. -/
def ofBigEndian (base : Nat) (digits : List Nat) : Nat :=
  digits.foldl (fun value digit => base * value + digit) 0

/-- The digits of a number, without leading zeros. -/
def bigEndian (base value : Nat) : List Nat :=
  (base.digits value).reverse

theorem foldl_ofBigEndian (value : Nat) (digits : List Nat) :
    digits.foldl (fun value digit => base * value + digit) value =
      value * base ^ digits.length + ofBigEndian base digits := by
  induction digits generalizing value with
  | nil => simp [ofBigEndian]
  | cons digit rest inductionHypothesis =>
      have split := inductionHypothesis digit
      simp only [ofBigEndian, List.foldl_cons, mul_zero, zero_add] at split ⊢
      rw [inductionHypothesis, split, List.length_cons, pow_succ]
      unfold ofBigEndian
      ring

theorem ofBigEndian_append (front back : List Nat) :
    ofBigEndian base (front ++ back) =
      ofBigEndian base front * base ^ back.length + ofBigEndian base back := by
  rw [ofBigEndian, List.foldl_append, foldl_ofBigEndian]
  rfl

@[simp] theorem ofBigEndian_zeros (count : Nat) :
    ofBigEndian base (List.replicate count 0) = 0 := by
  induction count with
  | zero => rfl
  | succ count inductionHypothesis =>
      rw [List.replicate_succ, ← List.singleton_append, ofBigEndian_append, inductionHypothesis]
      simp [ofBigEndian]

theorem ofBigEndian_lt {digits : List Nat} (proper : forall digit, digit ∈ digits -> digit < base) :
    ofBigEndian base digits < base ^ digits.length := by
  induction digits with
  | nil => simp [ofBigEndian]
  | cons digit rest inductionHypothesis =>
      have tail := inductionHypothesis fun other member =>
        proper other (List.mem_cons_of_mem digit member)
      have head : digit + 1 ≤ base := proper digit List.mem_cons_self
      rw [← List.singleton_append, ofBigEndian_append, List.length_append, List.length_singleton]
      calc ofBigEndian base [digit] * base ^ rest.length + ofBigEndian base rest
          = digit * base ^ rest.length + ofBigEndian base rest := by simp [ofBigEndian]
        _ < digit * base ^ rest.length + base ^ rest.length := by omega
        _ = (digit + 1) * base ^ rest.length := by ring
        _ ≤ base * base ^ rest.length := Nat.mul_le_mul_right _ head
        _ = base ^ (1 + rest.length) := by ring

/-- The same digits are worth no less in a larger base. -/
theorem ofBigEndian_mono {base base' : Nat} (le : base ≤ base') (digits : List Nat) :
    ofBigEndian base digits ≤ ofBigEndian base' digits := by
  induction digits using List.reverseRecOn with
  | nil => exact le_refl 0
  | append_singleton front last inductionHypothesis =>
      rw [ofBigEndian_append, ofBigEndian_append]
      have single : forall base : Nat, ofBigEndian base [last] = last := by
        intro base
        simp [ofBigEndian]
      rw [single, single, List.length_singleton, pow_one, pow_one]
      exact Nat.add_le_add_right (Nat.mul_le_mul inductionHypothesis le) last

/-- Only zeros have the value zero. -/
theorem eq_zeros_of_ofBigEndian (positive : 0 < base) {digits : List Nat}
    (none : ofBigEndian base digits = 0) : digits = List.replicate digits.length 0 := by
  induction digits with
  | nil => rfl
  | cons digit rest inductionHypothesis =>
      rw [← List.singleton_append, ofBigEndian_append] at none
      have head : ofBigEndian base [digit] = digit := by simp [ofBigEndian]
      have power : 0 < base ^ rest.length := pow_pos positive _
      have first : digit = 0 := by
        rcases Nat.eq_zero_of_add_eq_zero_right none with product
        rw [head] at product
        exact (Nat.mul_eq_zero.mp product).resolve_right power.ne'
      rw [first, List.length_cons, List.replicate_succ,
        ← inductionHypothesis (Nat.eq_zero_of_add_eq_zero_left none)]

theorem bigEndian_lt (large : 1 < base) {value digit : Nat} (member : digit ∈ bigEndian base value) :
    digit < base :=
  Nat.digits_lt_base large (List.mem_reverse.mp member)

theorem ofBigEndian_reverse (digits : List Nat) :
    ofBigEndian base digits.reverse = Nat.ofDigits base digits := by
  induction digits with
  | nil => rfl
  | cons digit rest inductionHypothesis =>
      rw [List.reverse_cons, ofBigEndian_append, inductionHypothesis, Nat.ofDigits_cons]
      simp [ofBigEndian]
      ring

@[simp] theorem ofBigEndian_bigEndian (base value : Nat) :
    ofBigEndian base (bigEndian base value) = value := by
  rw [bigEndian, ofBigEndian_reverse, Nat.ofDigits_digits]

/-- A number is at least the power of its leading digit. -/
theorem pow_length_bigEndian_le (large : 1 < base) {value : Nat} (nonzero : value ≠ 0) :
    base ^ (bigEndian base value).length ≤ base * value := by
  rw [bigEndian, List.length_reverse]
  exact Nat.base_pow_length_digits_le base value large nonzero

theorem bigEndian_ne_nil {value : Nat} (nonzero : value ≠ 0) : bigEndian base value ≠ [] := by
  intro empty
  exact Nat.digits_ne_nil_iff_ne_zero.mpr nonzero (List.reverse_eq_nil_iff.mp empty)

end Codec
end MutinyNet
