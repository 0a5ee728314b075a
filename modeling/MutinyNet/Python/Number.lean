import MutinyNet.Floating.Binary64
import MutinyNet.Python.Integer

namespace MutinyNet
namespace Python

open Codec Floating

/-!
# Integers and floating point numbers

A number of Python is an `int`, which is exact, or a `float`, which is a number of
binary64.  An operation on two integers other than `/` is exact; any other one
converts to `float`, and rounds.  An infinity, which a sum or a product may reach,
is a `float` from `2 ^ 1024` on; it is no `int` any more.
-/

inductive Number where
  | int (value : Int)
  | float (value : ℚ)
  deriving DecidableEq

/-- The number is larger than every finite `float`. -/
def Overflows (x : ℚ) : Prop :=
  powTwo 1024 ≤ |x|

instance : DecidablePred Overflows := fun _ => inferInstanceAs (Decidable (_ ≤ _))

theorem not_overflows {x : ℚ} (nonneg : 0 ≤ x) (small : x ≤ 2 ^ 53) : ¬ Overflows x := by
  unfold Overflows
  rw [powTwo_eq, abs_of_nonneg nonneg, not_le]
  refine lt_of_le_of_lt small ?_
  rw [← zpow_natCast, zpow_lt_zpow_iff_right₀ (by norm_num)]
  norm_num

namespace Number

def value : Number -> ℚ
  | .int n => n
  | .float x => x

/-- `float(number)`. -/
def toFloat : Number -> Except PyError ℚ
  | .int n => if Overflows (nearest n) then .error .overflowError else .ok (nearest n)
  | .float x => .ok x

/-- `a + b`. -/
def add (a b : Number) : Except PyError Number :=
  match a, b with
  | .int a, .int b => .ok (.int (a + b))
  | a, b => do
      let x ← a.toFloat
      let y ← b.toFloat
      pure (.float (nearest (x + y)))

/-- The quotient of two integers is rounded once. -/
def divInts (a b : Int) : Except PyError Number :=
  if b = 0 then .error .zeroDivisionError
  else if Overflows (nearest (a / b)) then .error .overflowError
  else .ok (.float (nearest (a / b)))

def divFloats (a b : Number) : Except PyError Number := do
  let x ← a.toFloat
  let y ← b.toFloat
  if b.value = 0 then .error .zeroDivisionError else .ok (.float (nearest (x / y)))

/-- `a / b`. -/
def div (a b : Number) : Except PyError Number :=
  match a, b with
  | .int a, .int b => divInts a b
  | a, b => divFloats a b

/-- `min(a, b)`. -/
def least (a b : Number) : Number :=
  if b.value < a.value then b else a

/-- `max(a, b)`. -/
def greatest (a b : Number) : Number :=
  if a.value < b.value then b else a

/-- `int(number)`. -/
def toInt : Number -> Except PyError Int
  | .int n => .ok n
  | .float x => if Overflows x then .error .overflowError else .ok (truncate x)

/-- The sum of a `float` and an `int` in which neither the `int` nor the sum overflows
is truncated. -/
theorem toInt_add_eq_ok_iff {x : ℚ} {n result : Int} (nonneg : 0 ≤ nearest (x + nearest n)) :
    ((Number.float x).add (.int n) >>= toInt) = .ok result <->
      ¬ Overflows (nearest n) ∧ ¬ Overflows (nearest (x + nearest n)) ∧
        ⌊nearest (x + nearest n)⌋ = result := by
  change (((if Overflows (nearest n) then Except.error PyError.overflowError
    else .ok (nearest n)) >>= fun y => (pure (Number.float (nearest (x + y))) :
      Except PyError Number)) >>= toInt) = .ok result <-> _
  split_ifs with large
  · refine iff_of_false (fun impossible => ?_) (fun fits => fits.1 large)
    cases impossible
  · change (if Overflows (nearest (x + nearest n)) then Except.error PyError.overflowError
      else .ok (truncate (nearest (x + nearest n)))) = .ok result <-> _
    split_ifs with larger
    · refine iff_of_false (fun impossible => ?_) (fun fits => fits.2.1 larger)
      cases impossible
    · rw [truncate_of_nonneg nonneg, Except.ok.injEq]
      exact ⟨fun same => ⟨large, larger, same⟩, fun fits => fits.2.2⟩

theorem least_eq (a b : Number) : least a b = a ∨ least a b = b := by
  unfold least
  split
  · exact Or.inr rfl
  · exact Or.inl rfl

theorem greatest_eq (a b : Number) : greatest a b = a ∨ greatest a b = b := by
  unfold greatest
  split
  · exact Or.inr rfl
  · exact Or.inl rfl

theorem value_greatest (a b : Number) : (greatest a b).value = max a.value b.value := by
  unfold greatest
  split
  · next less => exact (max_eq_right less.le).symm
  · next above => exact (max_eq_left (not_lt.mp above)).symm

/-- The number can be converted. -/
def Finite : Number -> Prop
  | .int n => ¬ Overflows (nearest n)
  | .float _ => True

/-- The operands of a division that has a result. -/
def Divisible (a b : Number) : Prop :=
  b.value ≠ 0 ∧
    match a, b with
    | .int a, .int b => ¬ Overflows (nearest (a / b))
    | a, b => a.Finite ∧ b.Finite

theorem toFloat_isOk_iff {a : Number} : (Exists fun x => a.toFloat = .ok x) <-> a.Finite := by
  cases a with
  | int n =>
      change (Exists fun x => (if Overflows (nearest n) then Except.error PyError.overflowError
        else .ok (nearest n)) = .ok x) <-> ¬ Overflows (nearest n)
      split_ifs with large
      · exact iff_of_false (fun impossible => impossible.choose_spec) (not_not.mpr large)
      · exact iff_of_true ⟨_, rfl⟩ large
  | float x => exact iff_of_true ⟨x, rfl⟩ trivial

theorem divInts_isOk_iff {a b : Int} : (Exists fun quotient => divInts a b = .ok quotient) <->
    b ≠ 0 ∧ ¬ Overflows (nearest (a / b)) := by
  unfold divInts
  split_ifs with zero large
  · exact iff_of_false (fun impossible => impossible.choose_spec) (fun both => both.1 zero)
  · exact iff_of_false (fun impossible => impossible.choose_spec) (fun both => both.2 large)
  · exact iff_of_true ⟨_, rfl⟩ ⟨zero, large⟩

theorem divFloats_isOk_iff {a b : Number} :
    (Exists fun quotient => divFloats a b = .ok quotient) <->
      b.value ≠ 0 ∧ a.Finite ∧ b.Finite := by
  rw [← toFloat_isOk_iff, ← toFloat_isOk_iff]
  constructor
  · rintro ⟨quotient, run⟩
    simp only [divFloats, bind_eq_ok] at run
    rcases run with ⟨x, first, y, second, assembled⟩
    split_ifs at assembled with zero
    exact ⟨zero, ⟨x, first⟩, y, second⟩
  · rintro ⟨some, ⟨x, first⟩, y, second⟩
    refine ⟨.float (nearest (x / y)), ?_⟩
    simp only [divFloats, bind_eq_ok]
    exact ⟨x, first, y, second, if_neg some⟩

theorem div_isOk_iff {a b : Number} :
    (Exists fun quotient => a.div b = .ok quotient) <-> a.Divisible b := by
  cases a with
  | int a =>
      cases b with
      | int b =>
          have whole : ((b : ℚ) ≠ 0) <-> b ≠ 0 := Int.cast_ne_zero
          exact divInts_isOk_iff.trans (and_congr_left fun _ => whole.symm)
      | float b => exact divFloats_isOk_iff
  | float a => exact divFloats_isOk_iff

end Number

end Python
end MutinyNet
