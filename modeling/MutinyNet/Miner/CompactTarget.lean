import MutinyNet.Python.Format
import MutinyNet.Miner.Schedule

namespace MutinyNet
namespace Miner

open Codec Python

/-!
# Compact targets

`target_to_nbits` cuts the hexadecimal text of a target into a size byte and
three leading bytes, and rounds up if anything was cut off.  The text is
related to numbers once; what the encoder gives is then a matter of rounding.
-/

/-- The text of a target with at least six digits, and with an even number of
them. -/
def evenHex (tstr : List Char) : List Char :=
  let tstr := if tstr.length < 6 then (List.replicate 6 '0' ++ tstr).drop tstr.length else tstr
  if tstr.length % 2 ≠ 0 then '0' :: tstr else tstr

/-- `target_to_nbits`. -/
def targetToNbits (target : Int) : Except PyError Int := do
  let tstr := evenHex (formatHex target)
  let first ← intFromHexChars (tstr.take 1)
  let tstr := if 8 ≤ first then '0' :: '0' :: tstr else tstr
  let fix ← intFromHexChars (tstr.take 6)
  let sz := tstr.length / 2
  let fix := if tstr.drop 6 ≠ List.replicate (sz * 2 - 6) '0' then fix + 1 else fix
  intFromHexChars (formatHexPadded 2 sz ++ formatHexPadded 6 fix)

/-! ## From digits to numbers -/

/-- The digits behind a text, most significant first. -/
structure DigitsOf (target : Nat) (digits : List Nat) : Prop where
  small : forall digit, digit ∈ digits -> digit < 16
  value : ofBigEndian 16 digits = target
  enough : 6 ≤ digits.length
  even : digits.length % 2 = 0

theorem DigitsOf.cons_zero {target : Nat} {digits : List Nat}
    (small : forall digit, digit ∈ digits -> digit < 16) (value : ofBigEndian 16 digits = target) :
    (forall digit, digit ∈ 0 :: digits -> digit < 16) ∧ ofBigEndian 16 (0 :: digits) = target := by
  constructor
  · intro digit member
    rcases List.mem_cons.mp member with same | later
    · rw [same]
      decide
    · exact small digit later
  · exact value

/-- The padded text of a target shows its value, and only short texts have more
than one zero in front. -/
theorem evenHex_spec (target : Nat) :
    Exists fun digits => evenHex (formatHex target) = digits.map hexDigit ∧
      DigitsOf target digits ∧ (digits.length = 6 ∨ 16 ^ digits.length ≤ 256 * target) := by
  have shape : formatHex target = (hexDigits target).map hexDigit := by
    unfold formatHex
    rw [if_neg (by omega), Int.natAbs_natCast]
  have small : forall digit, digit ∈ hexDigits target -> digit < 16 := fun _ => hexDigits_lt
  have value := ofBigEndian_hexDigits target
  rw [shape]
  unfold evenHex
  dsimp only
  by_cases short : (hexDigits target).length < 6
  · -- A short text becomes six digits, which is an even number.
    rw [List.length_map, if_pos short]
    refine ⟨List.replicate (6 - (hexDigits target).length) 0 ++ hexDigits target, ?_, ?_, ?_⟩
    · have filled : (List.replicate 6 '0' ++ (hexDigits target).map hexDigit).drop
          (hexDigits target).length =
            (List.replicate (6 - (hexDigits target).length) 0 ++ hexDigits target).map hexDigit := by
        rw [List.drop_append_of_le_length (by rw [List.length_replicate]; omega),
          List.drop_replicate, List.map_append, List.map_replicate]
        rfl
      rw [filled, if_neg]
      rw [List.length_map, List.length_append, List.length_replicate]
      omega
    · refine ⟨fun digit member => ?_, ?_, ?_, ?_⟩
      · rcases List.mem_append.mp member with front | back
        · rw [(List.mem_replicate.mp front).2]
          decide
        · exact small digit back
      · rw [ofBigEndian_append, ofBigEndian_zeros, zero_mul, zero_add, value]
      · rw [List.length_append, List.length_replicate]
        omega
      · rw [List.length_append, List.length_replicate]
        omega
    · left
      rw [List.length_append, List.length_replicate]
      omega
  · rw [List.length_map, if_neg short, List.length_map]
    have leading := pow_length_hexDigits_le (show 1 < (hexDigits target).length by omega)
    by_cases odd : (hexDigits target).length % 2 ≠ 0
    · rw [if_pos odd]
      rcases DigitsOf.cons_zero small value with ⟨small', value'⟩
      refine ⟨0 :: hexDigits target, rfl, ⟨small', value', ?_, ?_⟩, Or.inr ?_⟩
      · rw [List.length_cons]
        omega
      · rw [List.length_cons]
        omega
      · rw [List.length_cons, pow_succ]
        omega
    · rw [if_neg odd]
      exact ⟨hexDigits target, rfl, ⟨small, value, by omega, by omega⟩, Or.inr (by omega)⟩

/-- A size and a mantissa that round a target up: the mantissa is the least one
for the size, and the size is the least one whose mantissas stay positive. -/
structure CompactOf (target sz fix : Nat) : Prop where
  size : 3 ≤ sz
  above : target ≤ fix * 256 ^ (sz - 3)
  tight : fix * 256 ^ (sz - 3) < target + 256 ^ (sz - 3)
  positive : target < 0x800000 * 256 ^ (sz - 3)
  least : sz = 3 ∨ 0x8000 * 256 ^ (sz - 3) ≤ target

/-! ## What the encoder gives -/

/-- The text in front of the cut: a leading digit of eight or more gets two
zeros in front, which is the least size with a positive mantissa. -/
theorem unsigned_spec {target : Nat} {digits : List Nat} (digitsOf : DigitsOf target digits)
    (leading : digits.length = 6 ∨ 16 ^ digits.length ≤ 256 * target) :
    Exists fun first : Int => intFromHexChars ((digits.map hexDigit).take 1) = .ok first ∧
      Exists fun digits' =>
        (if 8 ≤ first then '0' :: '0' :: digits.map hexDigit else digits.map hexDigit) =
          digits'.map hexDigit ∧
        DigitsOf target digits' ∧ target < 8 * 16 ^ (digits'.length - 1) ∧
        (digits'.length = 6 ∨ 8 * 16 ^ (digits'.length - 3) ≤ target) := by
  rcases digitsOf with ⟨small, value, enough, even⟩
  cases digits with
  | nil => exact absurd enough (by decide)
  | cons digit rest =>
      rw [List.length_cons] at enough even leading
      have first : intFromHexChars (([digit]).map hexDigit) = .ok (digit : Int) := by
        have parsed := intFromHexChars_digits (List.cons_ne_nil digit [])
          (fun other member => small other (List.mem_cons.mpr
            (Or.inl (List.mem_singleton.mp member))))
        simpa [ofBigEndian] using parsed
      have tail := ofBigEndian_lt fun other member => small other (List.mem_cons_of_mem digit member)
      have split : digit * 16 ^ rest.length + ofBigEndian 16 rest = target := by
        rw [← value, ← List.singleton_append, ofBigEndian_append]
        simp [ofBigEndian]
      have large := pow_succ 16 rest.length
      refine ⟨digit, first, ?_⟩
      by_cases negative : 8 ≤ (digit : Int)
      · have eight : 8 * 16 ^ rest.length ≤ target := by
          have : 8 * 16 ^ rest.length ≤ digit * 16 ^ rest.length :=
            Nat.mul_le_mul_right _ (by omega)
          omega
        have bound := ofBigEndian_lt small
        rw [value, List.length_cons] at bound
        rcases DigitsOf.cons_zero small value with ⟨small', value'⟩
        rcases DigitsOf.cons_zero small' value' with ⟨small'', value''⟩
        rw [if_pos negative]
        refine ⟨0 :: 0 :: digit :: rest, rfl, ⟨small'', value'', ?_, ?_⟩, ?_, Or.inr ?_⟩
        · simp only [List.length_cons]
          omega
        · simp only [List.length_cons]
          omega
        · simp only [List.length_cons, Nat.add_sub_cancel]
          rw [pow_succ]
          omega
        · change 8 * 16 ^ (rest.length + 3 - 3) ≤ target
          rwa [Nat.add_sub_cancel]
      · rw [if_neg negative]
        refine ⟨digit :: rest, rfl, ⟨small, value, enough, even⟩, ?_, ?_⟩
        · rw [List.length_cons, Nat.add_sub_cancel]
          have : digit * 16 ^ rest.length ≤ 7 * 16 ^ rest.length :=
            Nat.mul_le_mul_right _ (by omega)
          omega
        · rw [List.length_cons]
          rcases leading with same | above
          · exact Or.inl same
          · right
            have scale : 16 ^ (rest.length + 1) = 16 ^ (rest.length + 1 - 3) * 4096 := by
              rw [show (4096 : Nat) = 16 ^ 3 by rfl, ← pow_add,
                show rest.length + 1 - 3 + 3 = rest.length + 1 by omega]
            omega

theorem length_hexDigits_le {value width : Nat} (positive : 1 ≤ width) (small : value < 16 ^ width) :
    (hexDigits value).length ≤ width := by
  unfold hexDigits
  split
  · exact positive
  · rw [bigEndian, List.length_reverse]
    exact (Nat.digits_length_le_iff (by decide) value).mpr small

theorem length_paddedDigits {width value : Nat} (positive : 1 ≤ width)
    (small : value < 16 ^ width) : (paddedDigits width value).length = width := by
  have length := length_hexDigits_le positive small
  rw [paddedDigits, List.length_append, List.length_replicate]
  omega

/-- The printed compact value reads back as a size byte over a mantissa. -/
theorem intFromHexChars_compact (sz : Nat) {fix : Nat} (small : fix < 16 ^ 6) :
    intFromHexChars (formatHexPadded 2 sz ++ formatHexPadded 6 fix) =
      .ok (sz * 2 ^ 24 + fix : Nat) := by
  rw [formatHexPadded_natCast, formatHexPadded_natCast, ← List.map_append, intFromHexChars_digits]
  · rw [ofBigEndian_append, ofBigEndian_paddedDigits, ofBigEndian_paddedDigits,
      length_paddedDigits (by decide) small]
    norm_num
  · intro empty
    exact paddedDigits_ne_nil 6 fix (List.append_eq_nil_iff.mp empty).2
  · intro digit member
    rcases List.mem_append.mp member with front | back
    · exact paddedDigits_lt front
    · exact paddedDigits_lt back

theorem pow_sixteen_even {count : Nat} (enough : 3 ≤ count) :
    16 ^ (2 * count - 6) = 256 ^ (count - 3) := by
  rw [show 256 = 16 ^ 2 by rfl, ← pow_mul, show 2 * (count - 3) = 2 * count - 6 by omega]

/-- Cutting a text behind six digits splits its value, and the rest shows
nothing but zeros exactly if nothing is lost. -/
theorem cut_spec {target sz : Nat} {digits : List Nat} (digitsOf : DigitsOf target digits)
    (size : digits.length = 2 * sz) :
    Exists fun fix : Nat => Exists fun rest : Nat =>
      intFromHexChars ((digits.map hexDigit).take 6) = .ok (fix : Int) ∧ fix < 16 ^ 6 ∧
        ((digits.map hexDigit).drop 6 ≠ List.replicate (sz * 2 - 6) '0' <-> rest ≠ 0) ∧
        target = fix * 256 ^ (sz - 3) + rest ∧ rest < 256 ^ (sz - 3) := by
  rcases digitsOf with ⟨small, value, enough, -⟩
  have power := @pow_sixteen_even sz (by omega)
  have rest := @ofBigEndian_lt 16 (digits.drop 6) fun digit member =>
    small digit (List.mem_of_mem_drop member)
  have front := @ofBigEndian_lt 16 (digits.take 6) fun digit member =>
    small digit (List.mem_of_mem_take member)
  have whole := @ofBigEndian_append 16 (digits.take 6) (digits.drop 6)
  rw [List.length_take_of_le enough] at front
  rw [List.length_drop, size, power] at rest
  rw [List.take_append_drop, value, List.length_drop, size, power] at whole
  refine ⟨ofBigEndian 16 (digits.take 6), ofBigEndian 16 (digits.drop 6), ?_, front, ?_, whole, rest⟩
  · rw [← List.map_take]
    apply intFromHexChars_digits
    · intro empty
      have none := congrArg List.length empty
      rw [List.length_take_of_le enough] at none
      cases none
    · exact fun digit member => small digit (List.mem_of_mem_take member)
  · rw [not_iff_not, ← List.map_drop]
    constructor
    · intro same
      have zeros : digits.drop 6 = List.replicate (sz * 2 - 6) 0 := by
        rcases List.eq_replicate_iff.mp same with ⟨length, all⟩
        rw [List.length_map] at length
        refine List.eq_replicate_iff.mpr ⟨length, fun digit member => ?_⟩
        have shown := all (hexDigit digit) (List.mem_map_of_mem member)
        have back := hexValue_hexDigit (small digit (List.mem_of_mem_drop member))
        rw [shown] at back
        exact (Option.some.inj back).symm
      rw [zeros, ofBigEndian_zeros]
    · intro none
      rw [eq_zeros_of_ofBigEndian (by decide) none, List.map_replicate, List.length_drop, size,
        mul_comm]
      rfl

/-- The encoder returns the size and the mantissa of a target. -/
theorem compactOf_targetToNbits (target : Nat) :
    Exists fun sz : Nat => Exists fun fix : Nat =>
      targetToNbits target = .ok (sz * 2 ^ 24 + fix : Nat) ∧ CompactOf target sz fix := by
  rcases evenHex_spec target with ⟨digits, text, digitsOf, leading⟩
  rcases unsigned_spec digitsOf leading with ⟨first, parsed, digits', text', digitsOf', upper, lower⟩
  have enough := digitsOf'.enough
  rcases Nat.even_iff.mpr digitsOf'.even with ⟨sz, half⟩
  have size : digits'.length = 2 * sz := by omega
  rcases cut_spec digitsOf' size with ⟨fix, rest, cut, small, zeros, split, bound⟩
  have power := @pow_sixteen_even sz (by omega)
  have positive : target < 0x800000 * 256 ^ (sz - 3) := by
    rw [size, show 2 * sz - 1 = (2 * sz - 6) + 5 by omega, pow_add, power] at upper
    omega
  have least : sz = 3 ∨ 0x8000 * 256 ^ (sz - 3) ≤ target := by
    rcases lower with six | above
    · left
      omega
    · right
      rw [size, show 2 * sz - 3 = (2 * sz - 6) + 3 by omega, pow_add, power] at above
      omega
  have fits : fix < 0x800000 := by
    by_contra large
    have : 0x800000 * 256 ^ (sz - 3) ≤ fix * 256 ^ (sz - 3) := Nat.mul_le_mul_right _ (by omega)
    omega
  have run : targetToNbits target =
      intFromHexChars (formatHexPadded 2 sz ++
        formatHexPadded 6 (fix + (if rest = 0 then 0 else 1) : Nat)) := by
    unfold targetToNbits
    simp only [text, bind, Except.bind]
    rw [parsed]
    dsimp only
    rw [text', cut]
    dsimp only
    rw [List.length_map, size, Nat.mul_div_cancel_left sz (by decide)]
    by_cases none : rest = 0
    · rw [if_neg (fun differs => zeros.mp differs none), if_pos none]
      rfl
    · rw [if_pos (zeros.mpr none), if_neg none]
      rfl
  refine ⟨sz, fix + (if rest = 0 then 0 else 1), ?_, by omega, ?_, ?_, positive, least⟩
  · rw [run, intFromHexChars_compact]
    split <;> omega
  · split
    · rw [add_zero]
      omega
    · rw [add_mul, one_mul]
      omega
  · split
    · rw [add_zero]
      omega
    · rw [add_mul, one_mul]
      omega

/-! ## The sign bit -/

/-- The overflow test of a consensus decoder: the mantissa, which has 23 bits,
does not fit into 256 bits at the place its size gives it. -/
def CompactOverflows (nbits : Nat) : Prop :=
  let size := nbits / 2 ^ 24
  let word := nbits % 2 ^ 23
  word ≠ 0 ∧ (34 < size ∨ 0xff < word ∧ 33 < size ∨ 0xffff < word ∧ 32 < size)

/-- A compact value that a consensus decoder reads as a positive target: it has
32 bits, its sign bit is clear, its mantissa is not zero, and it does not
overflow. -/
def ReadsPositive (nbits : Int) : Prop :=
  0 ≤ nbits ∧ nbits < 2 ^ 32 ∧ nbits.toNat.testBit 23 = false ∧ 0 < nbits % 2 ^ 23 ∧
    ¬ CompactOverflows nbits.toNat

/-- The target lies above the greatest positive mantissa of a size, so rounding
up carries into the sign bit. -/
def Carries (target : Nat) : Prop :=
  Exists fun count => 1 ≤ count ∧ 0x7fffff * 256 ^ count < target ∧ target < 0x800000 * 256 ^ count

namespace CompactOf

variable {target sz fix : Nat}

theorem fix_le (compact : CompactOf target sz fix) : fix ≤ 0x800000 := by
  by_contra large
  have power : 0 < 256 ^ (sz - 3) := by positivity
  have : 0x800001 * 256 ^ (sz - 3) ≤ fix * 256 ^ (sz - 3) := Nat.mul_le_mul_right _ (by omega)
  have := compact.tight
  have := compact.positive
  omega

theorem fix_pos (compact : CompactOf target sz fix) (positive : 0 < target) : 0 < fix := by
  by_contra none
  have := compact.above
  rw [Nat.eq_zero_of_not_pos none, zero_mul] at this
  omega

theorem size_lt (compact : CompactOf target sz fix) {bytes : Nat} (bound : target < 256 ^ bytes) :
    sz ≤ max 3 (bytes + 1) := by
  rcases compact.least with three | above
  · omega
  · by_contra large
    have power : 256 ^ (bytes - 1) ≤ 256 ^ (sz - 3) := Nat.pow_le_pow_right (by decide) (by omega)
    cases bytes with
    | zero =>
        have : 0 < 256 ^ (sz - 3) := by positivity
        rw [pow_zero] at bound
        omega
    | succ bytes =>
        rw [Nat.add_sub_cancel] at power
        rw [pow_succ] at bound
        omega

/-- The mantissa has the sign bit exactly if the target carries. -/
theorem fix_eq_iff (compact : CompactOf target sz fix) : fix = 0x800000 <-> Carries target := by
  have power : 0 < 256 ^ (sz - 3) := by positivity
  have above := compact.above
  have tight := compact.tight
  have positive := compact.positive
  constructor
  · intro same
    rw [same] at above tight
    refine ⟨sz - 3, ?_, by omega, positive⟩
    by_contra none
    rw [Nat.lt_one_iff.mp (not_le.mp none), pow_zero] at tight positive
    omega
  · rintro ⟨count, large, lower, upper⟩
    have same : count = sz - 3 := by
      rcases lt_trichotomy count (sz - 3) with less | same | greater
      · have scale : 256 ^ (count + 1) ≤ 256 ^ (sz - 3) := Nat.pow_le_pow_right (by decide) less
        rw [pow_succ] at scale
        have := compact.least
        omega
      · exact same
      · have scale : 256 ^ (sz - 3 + 1) ≤ 256 ^ count := Nat.pow_le_pow_right (by decide) greater
        rw [pow_succ] at scale
        omega
    rw [same] at lower
    apply le_antisymm compact.fix_le
    by_contra less
    have : fix * 256 ^ (sz - 3) ≤ 0x7fffff * 256 ^ (sz - 3) := Nat.mul_le_mul_right _ (by omega)
    omega

/-- Sizes of up to 32 bytes never overflow, and one of 33 bytes does if its
mantissa needs all three. -/
theorem overflows_iff (compact : CompactOf target sz fix) (bound : target < 2 ^ 256)
    (clear : fix < 0x800000) :
    CompactOverflows (sz * 2 ^ 24 + fix) <-> 2 ^ 256 - 2 ^ 240 < target := by
  have size := @size_lt _ _ _ compact 32 (by omega)
  have high : (sz * 2 ^ 24 + fix) / 2 ^ 24 = sz := by omega
  have low : (sz * 2 ^ 24 + fix) % 2 ^ 23 = fix := by omega
  have above := compact.above
  have tight := compact.tight
  have positive := compact.positive
  unfold CompactOverflows
  rw [high, low]
  rcases Nat.lt_or_eq_of_le (show sz ≤ 33 by omega) with less | same
  · -- The target of a smaller size stays below the sign bit of 32 bytes.
    have scale : 256 ^ (sz - 3) ≤ 256 ^ 29 := Nat.pow_le_pow_right (by decide) (by omega)
    constructor
    · rintro ⟨-, cases⟩
      omega
    · intro great
      have : target < 0x800000 * 256 ^ 29 :=
        positive.trans_le (Nat.mul_le_mul_left _ scale)
      omega
  · rw [same] at above tight ⊢
    omega

theorem readsPositive_iff (compact : CompactOf target sz fix) (positive : 0 < target)
    (bound : target < 2 ^ 256) :
    ReadsPositive (sz * 2 ^ 24 + fix : Nat) <->
      ¬ Carries target ∧ target ≤ 2 ^ 256 - 2 ^ 240 := by
  have upper := compact.fix_le
  have lower := compact.fix_pos positive
  have size := @size_lt _ _ _ compact 32 (by omega)
  rw [← compact.fix_eq_iff]
  unfold ReadsPositive
  rw [Int.toNat_natCast, Nat.testBit_eq_decide_div_mod_eq, decide_eq_false_iff_not]
  constructor
  · rintro ⟨-, -, clear, -, fits⟩
    have other : fix ≠ 0x800000 := by
      intro same
      rw [same] at clear
      omega
    rw [compact.overflows_iff bound (by omega)] at fits
    exact ⟨other, not_lt.mp fits⟩
  · rintro ⟨other, small⟩
    refine ⟨by omega, by omega, by omega, by omega, ?_⟩
    rw [compact.overflows_iff bound (by omega)]
    exact not_lt.mpr small

end CompactOf

/-- The compact value of a target below `2 ^ 256` reads as positive, unless
rounding it up carries into the sign bit or out of the 256 bits. -/
theorem readsPositive_targetToNbits {target : Nat} (positive : 0 < target)
    (bound : target < 2 ^ 256) :
    (Exists fun nbits => targetToNbits target = .ok nbits ∧ ReadsPositive nbits) <->
      ¬ Carries target ∧ target ≤ 2 ^ 256 - 2 ^ 240 := by
  rcases compactOf_targetToNbits target with ⟨sz, fix, run, compact⟩
  rw [← compact.readsPositive_iff positive bound]
  constructor
  · rintro ⟨nbits, run', reads⟩
    rw [run] at run'
    cases run'
    exact reads
  · exact fun reads => ⟨_, run, reads⟩

theorem readsPositive_targetToNbits_one :
    (Exists fun nbits => targetToNbits (1 : Nat) = .ok nbits ∧ ReadsPositive nbits) <->
      ¬ Carries 1 ∧ 1 ≤ 2 ^ 256 - 2 ^ 240 :=
  readsPositive_targetToNbits (by decide) (by decide)

/-- Four bytes above the greatest mantissa of three: the value that is printed
reads as a negative target. -/
theorem targetToNbits_negative :
    targetToNbits (0x7fffff01 : Nat) = .ok 0x04800000 ∧ ¬ ReadsPositive 0x04800000 := by
  constructor
  · decide +kernel
  · intro reads
    exact absurd reads.2.2.1 (by decide)

/-! ## Rounding -/

/-- The targets a compact value with a positive mantissa can stand for. -/
def Representable (target : Nat) : Prop :=
  Exists fun mantissa => Exists fun count => mantissa ≤ 0x7fffff ∧ target = mantissa * 256 ^ count

/-- The least representable target that is not below the given one. -/
def RoundsUpTo (target value : Nat) : Prop :=
  IsLeast {other | target ≤ other ∧ Representable other} value

theorem RoundsUpTo.mono {target target' value value' : Nat} (first : RoundsUpTo target value)
    (second : RoundsUpTo target' value') (less : target ≤ target') : value ≤ value' :=
  first.2 ⟨less.trans second.1.1, second.1.2⟩

theorem RoundsUpTo.exact {target value : Nat} (rounds : RoundsUpTo target value)
    (representable : Representable target) : value = target :=
  le_antisymm (rounds.2 ⟨le_refl target, representable⟩) rounds.1.1

namespace CompactOf

variable {target sz fix : Nat}

/-- A carried mantissa is the least one of the next size, so it is representable
as well. -/
theorem representable (compact : CompactOf target sz fix) :
    Representable (fix * 256 ^ (sz - 3)) := by
  rcases Nat.lt_or_eq_of_le compact.fix_le with less | same
  · exact ⟨fix, sz - 3, by omega, rfl⟩
  · refine ⟨0x8000, sz - 3 + 1, by decide, ?_⟩
    rw [same, pow_succ]
    ring

theorem roundsUpTo (compact : CompactOf target sz fix) :
    RoundsUpTo target (fix * 256 ^ (sz - 3)) := by
  refine ⟨⟨compact.above, compact.representable⟩, ?_⟩
  rintro other ⟨reaches, mantissa, count, small, same⟩
  have tight := compact.tight
  by_cases fine : sz - 3 ≤ count
  · -- A value of at least this exponent is a multiple of the unit.
    have multiple : other = mantissa * 256 ^ (count - (sz - 3)) * 256 ^ (sz - 3) := by
      rw [same, mul_assoc, ← pow_add, Nat.sub_add_cancel fine]
    rw [multiple]
    rw [multiple] at reaches
    apply Nat.mul_le_mul_right
    by_contra less
    have step : (mantissa * 256 ^ (count - (sz - 3)) + 1) * 256 ^ (sz - 3) ≤
        fix * 256 ^ (sz - 3) := Nat.mul_le_mul_right _ (by omega)
    rw [add_mul, one_mul] at step
    omega
  · -- A value of a smaller exponent does not reach the target.
    have scale : 256 ^ (count + 1) ≤ 256 ^ (sz - 3) := Nat.pow_le_pow_right (by decide) (by omega)
    have bound : mantissa * 256 ^ count ≤ 0x7fffff * 256 ^ count := Nat.mul_le_mul_right _ small
    have unit : 0 < 256 ^ count := by positivity
    have least := compact.least
    rw [pow_succ] at scale
    rcases least with three | above
    · omega
    · omega

/-- The decoder reads the mantissa over the whole size. -/
theorem nbitsToTarget_eq (compact : CompactOf target sz fix) (small : sz < 256) :
    nbitsToTarget (sz * 2 ^ 24 + fix : Nat) = (fix * 256 ^ (sz - 3) : Nat) := by
  have bound := compact.fix_le
  have size := compact.size
  have shift : ((sz * 2 ^ 24 + fix : Nat) : Int) / 2 ^ 24 % 256 = sz := by omega
  have mantissa : ((sz * 2 ^ 24 + fix : Nat) : Int) % 2 ^ 24 = fix := by omega
  unfold nbitsToTarget
  rw [shift, mantissa]
  dsimp only
  have exponent : (8 * ((sz : Int) - 3)) = ((8 * (sz - 3) : Nat) : Int) := by omega
  rw [exponent, zpow_natCast, pow_mul]
  push_cast
  norm_num

end CompactOf

/-- Sizes from three on and mantissas without leading zero byte are the ones the
encoder gives back. -/
theorem CompactOf.unique {size mantissa sz fix : Nat} (large : 3 ≤ size)
    (leading : 0x8000 ≤ mantissa) (small : mantissa ≤ 0x7fffff)
    (compact : CompactOf (mantissa * 256 ^ (size - 3)) sz fix) : sz = size ∧ fix = mantissa := by
  have lower : 0x8000 * 256 ^ (size - 3) ≤ mantissa * 256 ^ (size - 3) :=
    Nat.mul_le_mul_right _ leading
  have upper : mantissa * 256 ^ (size - 3) ≤ 0x7fffff * 256 ^ (size - 3) :=
    Nat.mul_le_mul_right _ small
  have power : 0 < 256 ^ (size - 3) := by positivity
  have positive := compact.positive
  have least := compact.least
  have enough := compact.size
  have same : sz = size := by
    rcases lt_trichotomy sz size with less | same | greater
    · have scale : 256 ^ (sz - 3 + 1) ≤ 256 ^ (size - 3) :=
        Nat.pow_le_pow_right (by decide) (by omega)
      rw [pow_succ] at scale
      omega
    · exact same
    · have scale : 256 ^ (size - 3 + 1) ≤ 256 ^ (sz - 3) :=
        Nat.pow_le_pow_right (by decide) (by omega)
      rw [pow_succ] at scale
      omega
  refine ⟨same, ?_⟩
  have above := compact.above
  have tight := compact.tight
  rw [same] at above tight
  apply le_antisymm
  · by_contra more
    have : (mantissa + 1) * 256 ^ (size - 3) ≤ fix * 256 ^ (size - 3) :=
      Nat.mul_le_mul_right _ (by omega)
    rw [add_mul, one_mul] at this
    omega
  · by_contra fewer
    have : (fix + 1) * 256 ^ (size - 3) ≤ mantissa * 256 ^ (size - 3) :=
      Nat.mul_le_mul_right _ (by omega)
    rw [add_mul, one_mul] at this
    omega

/-- Encoding a target of at most 254 bytes and decoding the result rounds up to
the nearest representable target, which keeps the order of targets and changes
no representable one, and encoding a decoded value gives it back. -/
theorem roundsUpTo_targetToNbits :
    (forall target, target < 256 ^ 254 -> Exists fun nbits => Exists fun value : Nat =>
      targetToNbits (target : Nat) = .ok nbits ∧ nbitsToTarget nbits = (value : Nat) ∧
        RoundsUpTo target value ∧ (Representable target -> value = target)) ∧
    (forall target target' : Nat, target ≤ target' -> target' < 256 ^ 254 ->
      forall nbits nbits', targetToNbits target = .ok nbits -> targetToNbits target' = .ok nbits' ->
        nbitsToTarget nbits ≤ nbitsToTarget nbits') ∧
    forall size mantissa : Nat, 3 ≤ size -> size ≤ 255 -> 0x8000 ≤ mantissa ->
      mantissa ≤ 0x7fffff -> Exists fun value : Nat =>
        nbitsToTarget (size * 2 ^ 24 + mantissa : Nat) = (value : Nat) ∧
          targetToNbits (value : Nat) = .ok (size * 2 ^ 24 + mantissa : Nat) := by
  refine ⟨?_, ?_, ?_⟩
  · intro target bound
    rcases compactOf_targetToNbits target with ⟨sz, fix, run, compact⟩
    have size := compact.size_lt bound
    exact ⟨_, _, run, compact.nbitsToTarget_eq (by omega), compact.roundsUpTo,
      compact.roundsUpTo.exact⟩
  · intro target target' less bound nbits nbits' run run'
    rcases compactOf_targetToNbits target with ⟨sz, fix, encoded, compact⟩
    rcases compactOf_targetToNbits target' with ⟨sz', fix', encoded', compact'⟩
    have size := compact.size_lt (less.trans_lt bound)
    have size' := compact'.size_lt bound
    rw [Except.ok.inj (run.symm.trans encoded), Except.ok.inj (run'.symm.trans encoded'),
      compact.nbitsToTarget_eq (by omega), compact'.nbitsToTarget_eq (by omega), Nat.cast_le]
    exact compact.roundsUpTo.mono compact'.roundsUpTo less
  · intro size mantissa large enough leading small
    rcases compactOf_targetToNbits (mantissa * 256 ^ (size - 3)) with ⟨sz, fix, run, compact⟩
    rcases compact.unique large leading small with ⟨rfl, rfl⟩
    exact ⟨_, compact.nbitsToTarget_eq (by omega), run⟩

end Miner
end MutinyNet
