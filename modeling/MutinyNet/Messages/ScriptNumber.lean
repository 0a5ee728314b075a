import MutinyNet.Messages.Script

namespace MutinyNet
namespace Messages

open Codec Python

/-!
# Numbers in scripts

A script number is written least significant byte first with its sign in the
top bit of the last byte, so a magnitude that takes that bit itself grows by a
byte.  What `encode` writes is read back by `decode`, and nothing shorter is
read as the same number.
-/

/-- `CScriptNum.decode`, of a push with its length in front. -/
def decodeScriptNum (vch : Bytes) : Int :=
  let value := vch.drop 1
  match value.getLast? with
  | none => 0
  | some last =>
      if 0x80 ≤ last.toNat then
        -((fromLittleEndian value % 2 ^ (value.length * 8 - 1) : Nat) : Int)
      else fromLittleEndian value

/-- `CScriptOp.decode_op_n`, of an opcode that pushes a number. -/
def decodeOpN (opcode : UInt8) : Option Int :=
  if opcode = 0x00 then some 0
  else if 0x51 ≤ opcode.toNat ∧ opcode.toNat ≤ 0x60 then some ((opcode.toNat : Int) - 0x51 + 1)
  else none

/-- The number an item of a script stands for. -/
def ScriptItem.number (item : ScriptItem) : Option Int :=
  match item.data with
  | some d => some (decodeScriptNum (UInt8.ofNat d.length :: d))
  | none => decodeOpN item.opcode

/-! ## Bytes of a magnitude -/

theorem fromLittleEndian_concat (front : Bytes) (last : UInt8) :
    fromLittleEndian (front ++ [last]) =
      fromLittleEndian front + 256 ^ front.length * last.toNat := by
  induction front with
  | nil => simp only [List.nil_append, fromLittleEndian, List.length_nil, Nat.pow_zero]; omega
  | cons byte front inductionHypothesis =>
      rw [List.cons_append, fromLittleEndian, inductionHypothesis, fromLittleEndian,
        List.length_cons, Nat.pow_succ]
      ring

/-- The bytes of a number stand for it, and the last one is not zero. -/
theorem minimalBytes_spec {fuel absvalue : Nat} (enough : absvalue ≤ fuel) :
    fromLittleEndian (minimalBytes fuel absvalue) = absvalue ∧
      (absvalue ≠ 0 -> Exists fun front => Exists fun last =>
        minimalBytes fuel absvalue = front ++ [last] ∧ last.toNat ≠ 0) := by
  induction fuel generalizing absvalue with
  | zero =>
      have zero : absvalue = 0 := by omega
      subst zero
      exact ⟨rfl, fun impossible => absurd rfl impossible⟩
  | succ fuel inductionHypothesis =>
      rw [minimalBytes]
      by_cases zero : absvalue = 0
      · subst zero
        exact ⟨rfl, fun impossible => absurd rfl impossible⟩
      · rw [if_neg zero]
        have low : (UInt8.ofNat (absvalue % 256)).toNat = absvalue % 256 := by
          rw [UInt8.toNat_ofNat']
          exact Nat.mod_eq_of_lt (Nat.mod_lt _ (by decide))
        have rest := @inductionHypothesis (absvalue / 256) (by omega)
        refine ⟨?_, fun _ => ?_⟩
        · rw [fromLittleEndian, rest.1, low]
          omega
        · by_cases single : absvalue / 256 = 0
          · refine ⟨[], UInt8.ofNat (absvalue % 256), ?_, ?_⟩
            · rw [single]
              cases fuel <;> rfl
            · rw [low]
              omega
          · rcases rest.2 single with ⟨front, last, shape, nonzero⟩
            exact ⟨_ :: front, last, by rw [shape]; rfl, nonzero⟩

/-- The sign bit of a byte. -/
theorem and_signBit_ne_zero (byte : UInt8) : byte &&& 0x80 ≠ 0 <-> 0x80 ≤ byte.toNat := by
  have bound := byte.toNat_lt
  have bit : (byte &&& 0x80).toNat = (byte.toNat.testBit 7).toNat * 2 ^ 7 := by
    rw [UInt8.toNat_and]
    exact Nat.and_two_pow byte.toNat 7
  have nonzero : byte &&& 0x80 ≠ 0 <-> (byte &&& 0x80).toNat ≠ 0 :=
    not_congr ⟨fun same => by rw [same]; rfl, fun same => UInt8.toNat_inj.mp same⟩
  rw [nonzero, bit, Nat.testBit_eq_decide_div_mod_eq]
  by_cases high : byte.toNat / 2 ^ 7 % 2 = 1
  · simp only [high, decide_true, Bool.toNat_true]
    omega
  · simp only [high, decide_false, Bool.toNat_false]
    omega

/-! ## Reading back -/

/-- What is read from some bytes is smaller than their number of bits allows. -/
theorem natAbs_decodeScriptNum_lt (length : UInt8) {value : Bytes} (nonempty : value ≠ []) :
    (decodeScriptNum (length :: value)).natAbs < 2 ^ (value.length * 8 - 1) := by
  rcases List.eq_nil_or_concat value with empty | ⟨front, last, shape⟩
  · exact absurd empty nonempty
  · subst shape
    unfold decodeScriptNum
    simp only [List.drop_succ_cons, List.drop_zero, List.concat_eq_append, List.getLast?_append,
      List.getLast?_singleton, Option.some_or]
    split
    · rw [Int.natAbs_neg, Int.natAbs_natCast]
      exact Nat.mod_lt _ (by positivity)
    · next positive =>
        rw [Int.natAbs_natCast, fromLittleEndian_concat]
        have bound := fromLittleEndian_lt front
        have width : (front ++ [last]).length * 8 - 1 = front.length * 8 + 7 := by
          rw [List.length_append, List.length_singleton]
          omega
        have power : (256 : Nat) ^ front.length = 2 ^ (front.length * 8) := by
          rw [Nat.mul_comm, Nat.pow_mul]
        rw [width, Nat.pow_add, ← power]
        have top : last.toNat + 1 ≤ 2 ^ 7 := by omega
        calc fromLittleEndian front + 256 ^ front.length * last.toNat
            < 256 ^ front.length + 256 ^ front.length * last.toNat := by omega
          _ = 256 ^ front.length * (last.toNat + 1) := by ring
          _ ≤ 256 ^ front.length * 2 ^ 7 := Nat.mul_le_mul_left _ top

/-- A number with that many bits is not read from fewer bytes. -/
theorem lt_length_of_decodeScriptNum {value count : Nat} {other : Bytes} {length : UInt8}
    (large : 2 ^ (count * 8 - 1) ≤ value) (read : decodeScriptNum (length :: other) = value) :
    count < other.length := by
  have positive : 0 < value := lt_of_lt_of_le (by positivity) large
  have nonempty : other ≠ [] := by
    intro empty
    rw [empty] at read
    have zero : (0 : Int) = value := read
    omega
  have bound := natAbs_decodeScriptNum_lt length nonempty
  rw [read, Int.natAbs_natCast] at bound
  by_contra short
  have fewer : (2 : Nat) ^ (other.length * 8 - 1) ≤ 2 ^ (count * 8 - 1) :=
    Nat.pow_le_pow_right (by decide) (by omega)
  omega

theorem decodeScriptNum_concat (length : UInt8) (front : Bytes) {last : UInt8}
    (positive : ¬ 0x80 ≤ last.toNat) :
    decodeScriptNum (length :: (front ++ [last])) = fromLittleEndian (front ++ [last]) := by
  unfold decodeScriptNum
  simp only [List.drop_succ_cons, List.drop_zero, List.getLast?_append, List.getLast?_singleton,
    Option.some_or, if_neg positive]

theorem pow_256 (count : Nat) : (256 : Nat) ^ count = 2 ^ (count * 8) := by
  rw [Nat.mul_comm, Nat.pow_mul]

/-- A positive number is pushed with the bytes that are read as that number and
are as few as possible. -/
theorem encodeScriptNum_spec {value : Nat} (positive : 0 < value) (small : value < 2 ^ 31) :
    Exists fun r => encodeScriptNum value = .ok (UInt8.ofNat r.length :: r) ∧
      1 ≤ r.length ∧ r.length ≤ 4 ∧
      decodeScriptNum (UInt8.ofNat r.length :: r) = value ∧
      forall other : Bytes, decodeScriptNum (UInt8.ofNat other.length :: other) = value ->
        r.length ≤ other.length := by
  rcases minimalBytes_spec (le_refl value) with ⟨sum, shaped⟩
  rcases shaped (by omega) with ⟨front, last, shape, nonzero⟩
  rw [shape] at sum
  have magnitude := sum
  rw [fromLittleEndian_concat, pow_256] at magnitude
  have written : forall r : Bytes, signedMagnitude false (front ++ [last]) = r -> r.length ≤ 4 ->
      encodeScriptNum value = .ok (UInt8.ofNat r.length :: r) := by
    intro r signed short
    have nonzero : ¬ (value : Int) = 0 := by omega
    have sign : decide ((value : Int) < 0) = false := decide_eq_false (by omega)
    unfold encodeScriptNum
    rw [if_neg nonzero, sign, Int.natAbs_natCast, shape, signed]
    dsimp only
    rw [if_pos (by omega)]
  have signed : signedMagnitude false (front ++ [last]) =
      if 0x80 ≤ last.toNat then front ++ [last] ++ [0] else front ++ [last] := by
    unfold signedMagnitude
    simp only [List.getLast?_append, List.getLast?_singleton, Option.some_or,
      and_signBit_ne_zero, Bool.false_eq_true, if_false]
  by_cases high : 0x80 ≤ last.toNat
  · -- The top bit is taken, and a byte of its own is added for the sign.
    rw [if_pos high] at signed
    have large : 2 ^ ((front.length + 1) * 8 - 1) ≤ value := by
      have exponent : (front.length + 1) * 8 - 1 = front.length * 8 + 7 := by omega
      have top := Nat.mul_le_mul_left (2 ^ (front.length * 8)) high
      rw [exponent, Nat.pow_add]
      omega
    have few : front.length ≤ 2 := by
      by_contra many
      have power : (2 : Nat) ^ 31 ≤ 2 ^ ((front.length + 1) * 8 - 1) :=
        Nat.pow_le_pow_right (by decide) (by omega)
      omega
    have length : (front ++ [last] ++ [(0 : UInt8)]).length = front.length + 2 := by
      simp only [List.length_append, List.length_singleton]
    refine ⟨front ++ [last] ++ [0], written _ signed (by omega), by omega, by omega, ?_, ?_⟩
    · rw [decodeScriptNum_concat _ _ (by decide), fromLittleEndian_concat, sum]
      exact congrArg Nat.cast (by rw [UInt8.toNat_zero, Nat.mul_zero, Nat.add_zero])
    · intro other read
      have longer := lt_length_of_decodeScriptNum large read
      omega
  · rw [if_neg high] at signed
    have large : 2 ^ (front.length * 8 - 1) ≤ value := by
      have fewer : (2 : Nat) ^ (front.length * 8 - 1) ≤ 2 ^ (front.length * 8) :=
        Nat.pow_le_pow_right (by decide) (by omega)
      have top := Nat.mul_le_mul_left (2 ^ (front.length * 8)) (Nat.one_le_iff_ne_zero.mpr nonzero)
      omega
    have few : front.length ≤ 3 := by
      by_contra many
      have power : (2 : Nat) ^ 32 ≤ 2 ^ (front.length * 8) :=
        Nat.pow_le_pow_right (by decide) (by omega)
      have top := Nat.mul_le_mul_left (2 ^ (front.length * 8)) (Nat.one_le_iff_ne_zero.mpr nonzero)
      omega
    have length : (front ++ [last]).length = front.length + 1 := by
      simp only [List.length_append, List.length_singleton]
    refine ⟨front ++ [last], written _ signed (by omega), by omega, by omega, ?_, ?_⟩
    · rw [decodeScriptNum_concat _ _ high, sum]
    · intro other read
      have longer := lt_length_of_decodeScriptNum large read
      omega

/-! ## A sequence of pushes -/

/-- Pushes written behind one another are parsed into their data, in order. -/
theorem rawIterFrom_pushes {ds pushes : List Bytes}
    (wrote : List.Forall₂ (fun d push => encodeOpPushdata d = .ok push) ds pushes)
    {fuel i : Nat} (enough : pushes.flatten.length ≤ fuel) :
    Exists fun items => rawIterFrom fuel i pushes.flatten = .ok items ∧
      items.map ScriptItem.data = ds.map some := by
  induction wrote generalizing fuel i with
  | nil => exact ⟨[], rawIterFrom_nil fuel i, rfl⟩
  | cons wrote _ inductionHypothesis =>
      have nonempty := length_encodeOpPushdata wrote
      rw [List.flatten_cons, List.length_append] at enough
      cases fuel with
      | zero => omega
      | succ fuel =>
          rcases rawIterFrom_push wrote fuel i _ with ⟨opcode, next, parsed⟩
          rcases @inductionHypothesis fuel next (by omega) with ⟨items, rest, data⟩
          rw [List.flatten_cons, parsed, rest]
          exact ⟨_, rfl, by rw [List.map_cons, List.map_cons, data]⟩

end Messages
end MutinyNet
