import Mathlib

namespace MutinyNet
namespace Codec

/-!
# Little-endian integers over byte strings

A fixed-width field stores an integer as that many bytes, least significant
first.  Both directions are total here: writing truncates to the width, and
reading accepts a string of any length.  The two range conditions under which
they are mutually inverse are stated as theorems, once for natural numbers and
once for the two's complement reading of a signed field.
-/

abbrev Bytes := List UInt8

/-- The low `width` bytes of a natural number, least significant first. -/
def littleEndian : Nat -> Nat -> Bytes
  | 0, _ => []
  | width + 1, value => UInt8.ofNat (value % 256) :: littleEndian width (value / 256)

/-- The number a byte string stands for; the empty string stands for zero. -/
def fromLittleEndian : Bytes -> Nat
  | [] => 0
  | byte :: rest => byte.toNat + 256 * fromLittleEndian rest

@[simp] theorem length_littleEndian (width value : Nat) :
    (littleEndian width value).length = width := by
  induction width generalizing value with
  | zero => rfl
  | succ width inductionHypothesis =>
      simp only [littleEndian, List.length_cons, inductionHypothesis]

@[simp] theorem fromLittleEndian_nil : fromLittleEndian [] = 0 := rfl

theorem fromLittleEndian_lt (bytes : Bytes) :
    fromLittleEndian bytes < 256 ^ bytes.length := by
  induction bytes with
  | nil => decide
  | cons byte rest inductionHypothesis =>
      have bound := byte.toNat_lt
      simp only [fromLittleEndian, List.length_cons, Nat.pow_succ]
      omega

/-- Reading back a written value reduces it to the width of the field. -/
theorem fromLittleEndian_littleEndian (width value : Nat) :
    fromLittleEndian (littleEndian width value) = value % 256 ^ width := by
  induction width generalizing value with
  | zero => simp only [littleEndian, fromLittleEndian_nil, Nat.pow_zero, Nat.mod_one]
  | succ width inductionHypothesis =>
      have low : (UInt8.ofNat (value % 256)).toNat = value % 256 := by
        rw [UInt8.toNat_ofNat']
        exact Nat.mod_eq_of_lt (Nat.mod_lt _ (by decide))
      rw [littleEndian, fromLittleEndian, inductionHypothesis, low, Nat.pow_succ,
        Nat.mul_comm (256 ^ width) 256, Nat.mod_mul]

theorem fromLittleEndian_littleEndian_of_lt {width value : Nat}
    (fits : value < 256 ^ width) :
    fromLittleEndian (littleEndian width value) = value := by
  rw [fromLittleEndian_littleEndian, Nat.mod_eq_of_lt fits]

/-- Writing the number of a byte string at its own width restores the string. -/
theorem littleEndian_fromLittleEndian (bytes : Bytes) :
    littleEndian bytes.length (fromLittleEndian bytes) = bytes := by
  induction bytes with
  | nil => rfl
  | cons byte rest inductionHypothesis =>
      have bound := byte.toNat_lt
      have low : (byte.toNat + 256 * fromLittleEndian rest) % 256 = byte.toNat := by omega
      have high : (byte.toNat + 256 * fromLittleEndian rest) / 256 = fromLittleEndian rest := by
        omega
      rw [List.length_cons, fromLittleEndian, littleEndian, low, high, inductionHypothesis,
        UInt8.ofNat_toNat]

/-- The two's complement reading of a field of `width` bytes. -/
def twosComplement (width : Nat) (value : Nat) : Int :=
  if 2 * value < 256 ^ width then value else (value : Int) - (256 ^ width : Nat)

/-- The signed range of a field of `width` bytes. -/
def SignedFits (width : Nat) (value : Int) : Prop :=
  -((256 ^ width : Nat) : Int) ≤ 2 * value ∧ 2 * value < ((256 ^ width : Nat) : Int)

instance (width : Nat) (value : Int) : Decidable (SignedFits width value) :=
  inferInstanceAs (Decidable (_ ∧ _))

/-- The bit pattern of a signed value inside its range. -/
def signedPattern (width : Nat) (value : Int) : Nat :=
  (value % ((256 ^ width : Nat) : Int)).toNat

theorem signedPattern_lt (width : Nat) (value : Int) :
    signedPattern width value < 256 ^ width := by
  have positive : (0 : Int) < ((256 ^ width : Nat) : Int) := by positivity
  have low := Int.emod_nonneg value (ne_of_gt positive)
  have high := Int.emod_lt_of_pos value positive
  unfold signedPattern
  omega

/-- A signed value inside its range is the reading of its own bit pattern. -/
theorem twosComplement_signedPattern {width : Nat} {value : Int}
    (fits : SignedFits width value) :
    twosComplement width (signedPattern width value) = value := by
  rcases fits with ⟨low, high⟩
  unfold twosComplement signedPattern
  generalize 256 ^ width = modulus at low high
  by_cases negative : value < 0
  · have pattern : value % (modulus : Int) = value + modulus := by
      rw [← Int.add_emod_right, Int.emod_eq_of_lt (by omega) (by omega)]
    rw [pattern, if_neg (by omega)]
    omega
  · have pattern : value % (modulus : Int) = value :=
      Int.emod_eq_of_lt (by omega) (by omega)
    rw [pattern, if_pos (by omega)]
    omega

/-- Every bit pattern reads as a value inside the signed range. -/
theorem signedFits_twosComplement {width value : Nat} (fits : value < 256 ^ width) :
    SignedFits width (twosComplement width value) := by
  unfold SignedFits twosComplement
  generalize 256 ^ width = modulus at fits
  split <;> constructor <;> omega

theorem signedPattern_twosComplement {width value : Nat} (fits : value < 256 ^ width) :
    signedPattern width (twosComplement width value) = value := by
  unfold signedPattern twosComplement
  generalize 256 ^ width = modulus at fits
  split
  · rw [Int.emod_eq_of_lt (by omega) (by omega), Int.toNat_natCast]
  · rw [Int.sub_emod_right, Int.emod_eq_of_lt (by omega) (by omega), Int.toNat_natCast]

end Codec
end MutinyNet
