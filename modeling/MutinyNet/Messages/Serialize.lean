import MutinyNet.Python.Text

namespace MutinyNet
namespace Messages

open Codec Python

/-!
# Compact sizes, strings, vectors and 256-bit integers

The building blocks of every Bitcoin structure in the test framework's
`messages.py`.  A compact size takes one, three, five or nine bytes; a string
is a compact size and that many bytes; a vector is a compact size and that many
items.  The reading direction never fails: a short stream gives a small size, a
short string or an item built from what is left.
-/

def serCompactSize (l : Nat) : Except PyError Bytes :=
  if l < 253 then intToBytes 1 false l
  else if l < 0x10000 then do
    let size ← intToBytes 2 false l
    pure (253 :: size)
  else if l < 0x100000000 then do
    let size ← intToBytes 4 false l
    pure (254 :: size)
  else do
    let size ← intToBytes 8 false l
    pure (255 :: size)

/-- The integer behind the first byte, or that byte itself. -/
def deserCompactTail (nit : Int) : Stream Int :=
  if nit = 253 then readInt 2 false
  else if nit = 254 then readInt 4 false
  else if nit = 255 then readInt 8 false
  else pure nit

def deserCompactSize : Stream Nat := do
  let nit ← readInt 1 false
  let nit ← deserCompactTail nit
  pure nit.toNat

private theorem intToBytes_one (byte : UInt8) :
    intToBytes 1 false (byte.toNat : Int) = .ok [byte] := by
  have single : [byte].length = 1 := rfl
  have whole := intToBytes_intFromBytes false single
  simpa only [intFromBytes, fromLittleEndian, Bool.false_eq_true, if_false, Nat.mul_zero,
    Nat.add_zero] using whole

/-- The first byte of a compact size and the field it announces. -/
private theorem readsBack_marked {l : Nat} {marker : UInt8} {width : Nat} {size : Bytes}
    (selected : deserCompactTail marker.toNat = readInt width false)
    (wrote : intToBytes width false l = .ok size) :
    ReadsBack deserCompactSize (marker :: size) l := by
  have wide : ReadsBack (deserCompactTail marker.toNat) size (l : Int) := by
    rw [selected]
    exact readsBack_readInt wrote
  exact (readsBack_readInt (intToBytes_one marker)).bind (wide.last Int.toNat)

theorem readsBack_deserCompactSize {l : Nat} {bytes : Bytes}
    (wrote : serCompactSize l = .ok bytes) : ReadsBack deserCompactSize bytes l := by
  unfold serCompactSize at wrote
  split at wrote
  · have direct : ReadsBack (deserCompactTail l) [] (l : Int) := by
      rw [deserCompactTail, if_neg (by omega), if_neg (by omega), if_neg (by omega)]
      exact readsBack_pure _
    exact ((readsBack_readInt wrote).bind (direct.last Int.toNat)).congr (List.append_nil bytes)
  · split at wrote
    · rcases bind_eq_ok.mp wrote with ⟨size, field, assembled⟩
      cases assembled
      exact readsBack_marked rfl field
    · split at wrote
      · rcases bind_eq_ok.mp wrote with ⟨size, field, assembled⟩
        cases assembled
        exact readsBack_marked rfl field
      · rcases bind_eq_ok.mp wrote with ⟨size, field, assembled⟩
        cases assembled
        exact readsBack_marked rfl field

/-! ## Strings -/

def serString (s : Bytes) : Except PyError Bytes := do
  let size ← serCompactSize s.length
  pure (size ++ s)

def deserString : Stream Bytes := do
  let nit ← deserCompactSize
  read nit

theorem readsBack_deserString {s bytes : Bytes} (wrote : serString s = .ok bytes) :
    ReadsBack deserString bytes s := by
  rcases bind_eq_ok.mp wrote with ⟨size, sized, assembled⟩
  cases assembled
  exact (readsBack_deserCompactSize sized).bind (readsBack_read rfl)

/-! ## 256-bit integers -/

def serUint256 (u : Int) : Except PyError Bytes :=
  intToBytes 32 false u

def deserUint256 : Stream Int :=
  readInt 32 false

/-- `uint256_from_str`: only the first 32 bytes count. -/
def uint256FromStr (s : Bytes) : Int :=
  intFromBytes false (s.take 32)

/-! ## Vectors -/

def serVector {A : Type} (serialize : A -> Except PyError Bytes) (l : List A) :
    Except PyError Bytes := do
  let size ← serCompactSize l.length
  let items ← writeMany serialize l
  pure (size ++ items)

def deserVector {A : Type} (deserialize : Stream A) : Stream (List A) := do
  let nit ← deserCompactSize
  readMany deserialize nit

theorem serVector_eq_ok {A : Type} {serialize : A -> Except PyError Bytes} {l : List A}
    {bytes : Bytes} :
    serVector serialize l = .ok bytes <->
      Exists fun size => Exists fun items => serCompactSize l.length = .ok size ∧
        writeMany serialize l = .ok items ∧ bytes = size ++ items := by
  unfold serVector
  simp only [bind_eq_ok]
  constructor
  · rintro ⟨size, sized, items, wrote, assembled⟩
    cases assembled
    exact ⟨size, items, sized, wrote, rfl⟩
  · rintro ⟨size, items, sized, wrote, assembled⟩
    exact ⟨size, sized, items, wrote, assembled ▸ rfl⟩

theorem readsBack_deserVector {A : Type} {serialize : A -> Except PyError Bytes}
    {deserialize : Stream A} {normal : A -> A} {l : List A} {bytes : Bytes}
    (each : forall value, value ∈ l -> forall written, serialize value = .ok written ->
      ReadsBack deserialize written (normal value))
    (wrote : serVector serialize l = .ok bytes) :
    ReadsBack (deserVector deserialize) bytes (l.map normal) := by
  rcases serVector_eq_ok.mp wrote with ⟨size, items, sized, written, assembled⟩
  rw [assembled]
  exact (readsBack_deserCompactSize sized).bind (ReadsBack.many each written)

def serStringVector (l : List Bytes) : Except PyError Bytes :=
  serVector serString l

def deserStringVector : Stream (List Bytes) :=
  deserVector deserString

theorem readsBack_deserStringVector {l : List Bytes} {bytes : Bytes}
    (wrote : serStringVector l = .ok bytes) : ReadsBack deserStringVector bytes l := by
  have each : forall value, value ∈ l -> forall written, serString value = .ok written ->
      ReadsBack deserString written (id value) := fun _ _ _ written => readsBack_deserString written
  have read := readsBack_deserVector each wrote
  rwa [List.map_id] at read

/-! ## Hashing and whole strings -/

/-- A hash function to 32-byte strings, `hash256` in the source. -/
structure Hash256 where
  digest : Bytes -> Bytes
  length_digest : forall s, (digest s).length = 32

instance : CoeFun Hash256 (fun _ => Bytes -> Bytes) := ⟨Hash256.digest⟩

@[simp] theorem Hash256.length_apply (hash256 : Hash256) (s : Bytes) :
    (hash256 s).length = 32 :=
  hash256.length_digest s

/-- A digest kept as an integer is written back unchanged. -/
theorem serUint256_uint256FromStr {s : Bytes} (full : s.length = 32) :
    serUint256 (uint256FromStr s) = .ok s := by
  have whole : s.take 32 = s := List.take_of_length_le (by omega)
  rw [serUint256, uint256FromStr, whole]
  exact intToBytes_intFromBytes false full

theorem uint256FromStr_injective {s s' : Bytes} (full : s.length = 32) (full' : s'.length = 32)
    (same : uint256FromStr s = uint256FromStr s') : s = s' := by
  have first := serUint256_uint256FromStr full
  rw [same, serUint256_uint256FromStr full'] at first
  exact (Except.ok.inj first).symm

/-- `from_binary` of a `bytes` object: nothing may be left unread. -/
def fromBinary {A : Type} (deserialize : Stream A) (bytes : Bytes) : Except PyError A := do
  let (obj, rest) ← deserialize.run bytes
  assert (rest.length == 0)
  pure obj

theorem fromBinary_eq_ok {A : Type} {deserialize : Stream A} {bytes : Bytes} {value : A} :
    fromBinary deserialize bytes = .ok value <-> deserialize.run bytes = .ok (value, []) := by
  simp only [fromBinary, bind_eq_ok, assert_eq_ok, beq_iff_eq, List.length_eq_zero_iff]
  constructor
  · rintro ⟨⟨obj, rest⟩, run, -, nothing, same⟩
    cases nothing
    cases same
    exact run
  · intro run
    exact ⟨(value, []), run, (), rfl, rfl⟩

theorem fromBinary_of_readsBack {A : Type} {deserialize : Stream A} {bytes : Bytes} {value : A}
    (read : ReadsBack deserialize bytes value) : fromBinary deserialize bytes = .ok value := by
  unfold fromBinary
  rw [read.run_exact]
  rfl

end Messages
end MutinyNet
