import MutinyNet.Codec.Reader

namespace MutinyNet
namespace Python

open Codec

/-!
# Python integers, errors and byte streams

The miner is a Python program: its integers are unbounded and its fixed-width
fields come from `int.to_bytes`, which raises instead of truncating, and from
`int.from_bytes`, which accepts a string of any length.  A stream read
(`BytesIO.read`) near the end of the data returns fewer bytes than asked for
and does not raise, so a parser built on it never notices a short input.
-/

/-- The exceptions the modelled code can raise.  Exceptions raised by the
repository's own `raise` statements carry the text given there; the last two
are the classes `script.py` defines for its parser. -/
inductive PyError where
  | overflowError
  | valueError (message : String)
  | assertionError
  | typeError
  | indexError
  | keyError
  | attributeError
  | nameError (name : String)
  | zeroDivisionError
  | unicodeEncodeError
  | calledProcessError
  | scriptInvalid (message : String)
  | scriptTruncated (message : String) (data : Bytes)
  deriving DecidableEq, Repr

/-- `int.to_bytes(width, "little", signed=signed)`. -/
def intToBytes (width : Nat) (signed : Bool) (value : Int) : Except PyError Bytes :=
  if signed then
    if SignedFits width value then .ok (littleEndian width (signedPattern width value))
    else .error .overflowError
  else if 0 ≤ value ∧ value < ((256 ^ width : Nat) : Int) then
    .ok (littleEndian width value.toNat)
  else .error .overflowError

/-- `int.from_bytes(bytes, "little", signed=signed)`. -/
def intFromBytes (signed : Bool) (bytes : Bytes) : Int :=
  if signed then twosComplement bytes.length (fromLittleEndian bytes)
  else fromLittleEndian bytes

/-- A written field has its full width and reads back as the same integer. -/
theorem intToBytes_spec {width : Nat} {signed : Bool} {value : Int} {bytes : Bytes}
    (wrote : intToBytes width signed value = .ok bytes) :
    bytes.length = width ∧ intFromBytes signed bytes = value := by
  unfold intToBytes at wrote
  cases signed with
  | true =>
      by_cases fits : SignedFits width value
      · rw [if_pos rfl, if_pos fits] at wrote
        cases wrote
        refine ⟨length_littleEndian _ _, ?_⟩
        rw [intFromBytes, if_pos rfl, length_littleEndian,
          fromLittleEndian_littleEndian_of_lt (signedPattern_lt width value),
          twosComplement_signedPattern fits]
      · rw [if_pos rfl, if_neg fits] at wrote
        cases wrote
  | false =>
      by_cases fits : 0 ≤ value ∧ value < ((256 ^ width : Nat) : Int)
      · rw [if_neg (by decide), if_pos fits] at wrote
        cases wrote
        refine ⟨length_littleEndian _ _, ?_⟩
        rw [intFromBytes, if_neg (by decide), fromLittleEndian_littleEndian_of_lt (by omega)]
        exact Int.toNat_of_nonneg fits.1
      · rw [if_neg (by decide), if_neg fits] at wrote
        cases wrote

theorem length_of_intToBytes {width : Nat} {signed : Bool} {value : Int} {bytes : Bytes}
    (wrote : intToBytes width signed value = .ok bytes) : bytes.length = width :=
  (intToBytes_spec wrote).1

/-- Distinct integers never share a field. -/
theorem intToBytes_injective {width : Nat} {signed : Bool} {value value' : Int} {bytes : Bytes}
    (wrote : intToBytes width signed value = .ok bytes)
    (wrote' : intToBytes width signed value' = .ok bytes) : value = value' :=
  (intToBytes_spec wrote).2.symm.trans (intToBytes_spec wrote').2

/-- Every string of the field's width is the field of the integer it reads as. -/
theorem intToBytes_intFromBytes {width : Nat} (signed : Bool) {bytes : Bytes}
    (full : bytes.length = width) :
    intToBytes width signed (intFromBytes signed bytes) = .ok bytes := by
  subst full
  have bound := fromLittleEndian_lt bytes
  cases signed with
  | true =>
      rw [intFromBytes, if_pos rfl, intToBytes, if_pos rfl,
        if_pos (signedFits_twosComplement bound), signedPattern_twosComplement bound,
        littleEndian_fromLittleEndian]
  | false =>
      have fits : 0 ≤ (fromLittleEndian bytes : Int) ∧
          (fromLittleEndian bytes : Int) < ((256 ^ bytes.length : Nat) : Int) := by
        constructor <;> omega
      rw [intFromBytes, if_neg (by decide), intToBytes, if_neg (by decide), if_pos fits,
        Int.toNat_natCast, littleEndian_fromLittleEndian]

/-! ## Streams -/

/-- The readers of the modelled parsers, over the unread part of a `BytesIO`. -/
abbrev Stream (A : Type) := Reader PyError A

/-- `f.read(count)`: as many bytes as there are, up to `count`. -/
def read (count : Nat) : Stream Bytes :=
  readUpTo count

theorem readsBack_read {count : Nat} {written : Bytes} (full : written.length = count) :
    ReadsBack (read count) written written := by
  subst full
  exact readsBack_readUpTo written

/-- `int.from_bytes(f.read(width), "little", signed=signed)`. -/
def readInt (width : Nat) (signed : Bool) : Stream Int := do
  let bytes ← read width
  pure (intFromBytes signed bytes)

theorem readsBack_readInt {width : Nat} {signed : Bool} {value : Int} {bytes : Bytes}
    (wrote : intToBytes width signed value = .ok bytes) :
    ReadsBack (readInt width signed) bytes value := by
  have spec := intToBytes_spec wrote
  have whole := (readsBack_read spec.1).last (intFromBytes signed)
  rwa [spec.2] at whole

/-- `assert condition`. -/
def assert (condition : Bool) : Except PyError Unit :=
  if condition then .ok () else .error .assertionError

theorem assert_eq_ok {condition : Bool} {result : Unit} :
    assert condition = .ok result <-> condition = true := by
  cases condition <;> simp [assert]

/-- `int(x)` of a number: the fraction is dropped, towards zero. -/
def truncate (value : ℚ) : Int :=
  if 0 ≤ value then ⌊value⌋ else ⌈value⌉

theorem truncate_of_nonneg {value : ℚ} (nonneg : 0 ≤ value) : truncate value = ⌊value⌋ :=
  if_pos nonneg

end Python
end MutinyNet
