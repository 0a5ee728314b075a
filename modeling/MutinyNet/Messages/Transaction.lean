import MutinyNet.Messages.Serialize

namespace MutinyNet
namespace Messages

open Codec Python

/-!
# Transactions

`CTransaction` and its parts, with both wire formats.  A transaction whose
witness is null is written without the segwit marker, so the parser has to tell
the two formats apart by the byte behind the version: an input count of zero is
read as the marker.  A transaction with at least one input is therefore read
back exactly, and the theorem for the whole type is stated for those.

The cached ids `sha256` and `hash` are fields like any other here.  Which of
them are stale at which moment is part of what the miner has to get right.
-/

structure COutPoint where
  hash : Int
  n : Int
  deriving DecidableEq, Repr

namespace COutPoint

def deserialize : Stream COutPoint := do
  let hash ← deserUint256
  let n ← readInt 4 false
  pure { hash, n }

def serialize (self : COutPoint) : Except PyError Bytes := do
  let hash ← serUint256 self.hash
  let n ← intToBytes 4 false self.n
  pure (hash ++ n)

theorem readsBack_deserialize {self : COutPoint} {bytes : Bytes}
    (wrote : self.serialize = .ok bytes) : ReadsBack deserialize bytes self := by
  simp only [serialize, bind_eq_ok] at wrote
  rcases wrote with ⟨hash, first, n, second, assembled⟩
  cases assembled
  exact (readsBack_readInt first).bind ((readsBack_readInt second).last (COutPoint.mk self.hash))

end COutPoint

structure CTxIn where
  prevout : COutPoint
  scriptSig : Bytes
  nSequence : Int
  deriving DecidableEq, Repr

namespace CTxIn

def deserialize : Stream CTxIn := do
  let prevout ← COutPoint.deserialize
  let scriptSig ← deserString
  let nSequence ← readInt 4 false
  pure { prevout, scriptSig, nSequence }

def serialize (self : CTxIn) : Except PyError Bytes := do
  let prevout ← self.prevout.serialize
  let scriptSig ← serString self.scriptSig
  let nSequence ← intToBytes 4 false self.nSequence
  pure (prevout ++ (scriptSig ++ nSequence))

theorem readsBack_deserialize {self : CTxIn} {bytes : Bytes}
    (wrote : self.serialize = .ok bytes) : ReadsBack deserialize bytes self := by
  simp only [serialize, bind_eq_ok] at wrote
  rcases wrote with ⟨prevout, first, scriptSig, second, nSequence, third, assembled⟩
  cases assembled
  exact (COutPoint.readsBack_deserialize first).bind
    ((readsBack_deserString second).bind
      ((readsBack_readInt third).last (CTxIn.mk self.prevout self.scriptSig)))

end CTxIn

structure CTxOut where
  nValue : Int
  scriptPubKey : Bytes
  deriving DecidableEq, Repr

namespace CTxOut

def deserialize : Stream CTxOut := do
  let nValue ← readInt 8 true
  let scriptPubKey ← deserString
  pure { nValue, scriptPubKey }

def serialize (self : CTxOut) : Except PyError Bytes := do
  let nValue ← intToBytes 8 true self.nValue
  let scriptPubKey ← serString self.scriptPubKey
  pure (nValue ++ scriptPubKey)

theorem readsBack_deserialize {self : CTxOut} {bytes : Bytes}
    (wrote : self.serialize = .ok bytes) : ReadsBack deserialize bytes self := by
  simp only [serialize, bind_eq_ok] at wrote
  rcases wrote with ⟨nValue, first, scriptPubKey, second, assembled⟩
  cases assembled
  exact (readsBack_readInt first).bind ((readsBack_deserString second).last (CTxOut.mk self.nValue))

end CTxOut

/-! ## Witnesses -/

structure CScriptWitness where
  stack : List Bytes := []
  deriving DecidableEq, Repr

def CScriptWitness.isNull (self : CScriptWitness) : Bool :=
  self.stack.isEmpty

structure CTxInWitness where
  scriptWitness : CScriptWitness := {}
  deriving DecidableEq, Repr

namespace CTxInWitness

def deserialize : Stream CTxInWitness := do
  let stack ← deserStringVector
  pure { scriptWitness := { stack } }

def serialize (self : CTxInWitness) : Except PyError Bytes :=
  serStringVector self.scriptWitness.stack

def isNull (self : CTxInWitness) : Bool :=
  self.scriptWitness.isNull

theorem readsBack_deserialize {self : CTxInWitness} {bytes : Bytes}
    (wrote : self.serialize = .ok bytes) : ReadsBack deserialize bytes self :=
  (readsBack_deserStringVector wrote).last
    (fun stack => ({ scriptWitness := { stack } } : CTxInWitness))

end CTxInWitness

structure CTxWitness where
  vtxinwit : List CTxInWitness := []
  deriving DecidableEq, Repr

namespace CTxWitness

/-- One stack for each entry already in `vtxinwit`; no count is stored. -/
def deserialize (count : Nat) : Stream CTxWitness := do
  let vtxinwit ← readMany CTxInWitness.deserialize count
  pure { vtxinwit }

def serialize (self : CTxWitness) : Except PyError Bytes :=
  writeMany CTxInWitness.serialize self.vtxinwit

def isNull (self : CTxWitness) : Bool :=
  self.vtxinwit.all CTxInWitness.isNull

theorem readsBack_deserialize {self : CTxWitness} {bytes : Bytes}
    (wrote : self.serialize = .ok bytes) :
    ReadsBack (deserialize self.vtxinwit.length) bytes self := by
  have each : forall value, value ∈ self.vtxinwit -> forall written,
      CTxInWitness.serialize value = .ok written ->
        ReadsBack CTxInWitness.deserialize written (id value) :=
    fun _ _ _ written => CTxInWitness.readsBack_deserialize written
  have read := ReadsBack.many each wrote
  rw [List.map_id] at read
  exact read.last CTxWitness.mk

end CTxWitness

/-! ## Transactions -/

structure CTransaction where
  version : Int := 2
  vin : List CTxIn := []
  vout : List CTxOut := []
  wit : CTxWitness := {}
  nLockTime : Int := 0
  sha256 : Option Int := none
  hash : Option String := none
  deriving DecidableEq, Repr

namespace CTransaction

def deserialize : Stream CTransaction := do
  let version ← readInt 4 false
  let vin ← deserVector CTxIn.deserialize
  if vin.length = 0 then do
    let flags ← readInt 1 false
    if flags ≠ 0 then do
      let vin ← deserVector CTxIn.deserialize
      let vout ← deserVector CTxOut.deserialize
      let wit ← CTxWitness.deserialize vin.length
      let nLockTime ← readInt 4 false
      pure { version, vin, vout, wit, nLockTime }
    else do
      let nLockTime ← readInt 4 false
      pure { version, vin, nLockTime }
  else do
    let vout ← deserVector CTxOut.deserialize
    let nLockTime ← readInt 4 false
    pure { version, vin, vout, nLockTime }

def serializeWithoutWitness (self : CTransaction) : Except PyError Bytes := do
  let version ← intToBytes 4 false self.version
  let vin ← serVector CTxIn.serialize self.vin
  let vout ← serVector CTxOut.serialize self.vout
  let nLockTime ← intToBytes 4 false self.nLockTime
  pure (version ++ (vin ++ (vout ++ nLockTime)))

/-- The witness list cut or padded to the number of inputs, as the serializer
leaves it before it writes the stacks. -/
def paddedWitness (self : CTransaction) : CTxWitness :=
  { vtxinwit := self.wit.vtxinwit.take self.vin.length ++
      List.replicate (self.vin.length - self.wit.vtxinwit.length) {} }

def serializeWithWitness (self : CTransaction) : Except PyError Bytes :=
  if self.wit.isNull then self.serializeWithoutWitness
  else do
    let version ← intToBytes 4 false self.version
    let dummy ← serVector CTxIn.serialize []
    let flags ← intToBytes 1 false 1
    let vin ← serVector CTxIn.serialize self.vin
    let vout ← serVector CTxOut.serialize self.vout
    let wit ← self.paddedWitness.serialize
    let nLockTime ← intToBytes 4 false self.nLockTime
    pure (version ++ (dummy ++ (flags ++ (vin ++ (vout ++ (wit ++ nLockTime))))))

def serialize (self : CTransaction) : Except PyError Bytes :=
  self.serializeWithWitness

/-- What a transaction with inputs becomes when it is written and parsed again:
the caches are gone, and a null witness has no entries. -/
def parsed (self : CTransaction) : CTransaction where
  version := self.version
  vin := self.vin
  vout := self.vout
  wit := if self.wit.isNull then {} else self.paddedWitness
  nLockTime := self.nLockTime

theorem length_paddedWitness (self : CTransaction) :
    self.paddedWitness.vtxinwit.length = self.vin.length := by
  simp only [paddedWitness, List.length_append, List.length_take, List.length_replicate]
  omega

theorem readsBack_vin {l : List CTxIn} {bytes : Bytes}
    (wrote : serVector CTxIn.serialize l = .ok bytes) :
    ReadsBack (deserVector CTxIn.deserialize) bytes l := by
  have each : forall value, value ∈ l -> forall written, CTxIn.serialize value = .ok written ->
      ReadsBack CTxIn.deserialize written (id value) :=
    fun _ _ _ written => CTxIn.readsBack_deserialize written
  have read := readsBack_deserVector each wrote
  rwa [List.map_id] at read

theorem readsBack_vout {l : List CTxOut} {bytes : Bytes}
    (wrote : serVector CTxOut.serialize l = .ok bytes) :
    ReadsBack (deserVector CTxOut.deserialize) bytes l := by
  have each : forall value, value ∈ l -> forall written, CTxOut.serialize value = .ok written ->
      ReadsBack CTxOut.deserialize written (id value) :=
    fun _ _ _ written => CTxOut.readsBack_deserialize written
  have read := readsBack_deserVector each wrote
  rwa [List.map_id] at read

/-- The format without a witness is read back without one. -/
theorem readsBack_withoutWitness {self : CTransaction} {bytes : Bytes}
    (inputs : self.vin ≠ []) (wrote : self.serializeWithoutWitness = .ok bytes) :
    ReadsBack deserialize bytes { self.parsed with wit := {} } := by
  simp only [serializeWithoutWitness, bind_eq_ok] at wrote
  rcases wrote with ⟨version, first, vin, second, vout, third, nLockTime, fourth, assembled⟩
  cases assembled
  have some : ¬ self.vin.length = 0 := by
    rw [List.length_eq_zero_iff]
    exact inputs
  refine (readsBack_readInt first).bind ((readsBack_vin second).bind ?_)
  rw [if_neg some]
  exact (readsBack_vout third).bind ((readsBack_readInt fourth).last fun nLockTime =>
    ({ version := self.version, vin := self.vin, vout := self.vout, nLockTime } : CTransaction))

/-- Without the witness, the bytes determine everything else. -/
theorem serializeWithoutWitness_injective {self other : CTransaction} {bytes : Bytes}
    (inputs : self.vin ≠ []) (inputs' : other.vin ≠ [])
    (wrote : self.serializeWithoutWitness = .ok bytes)
    (wrote' : other.serializeWithoutWitness = .ok bytes) :
    self.version = other.version ∧ self.vin = other.vin ∧ self.vout = other.vout ∧
      self.nLockTime = other.nLockTime := by
  have same := (readsBack_withoutWitness inputs wrote).value_unique
    (readsBack_withoutWitness inputs' wrote')
  rcases CTransaction.mk.inj same with ⟨version, vin, vout, -, nLockTime, -, -⟩
  exact ⟨version, vin, vout, nLockTime⟩

/-- Every transaction with at least one input survives its own format, with or
without the segwit marker. -/
theorem readsBack_deserialize {self : CTransaction} {bytes : Bytes}
    (inputs : self.vin ≠ []) (wrote : self.serializeWithWitness = .ok bytes) :
    ReadsBack deserialize bytes self.parsed := by
  unfold serializeWithWitness at wrote
  by_cases null : self.wit.isNull = true
  · rw [if_pos null] at wrote
    have read := readsBack_withoutWitness inputs wrote
    have same : { self.parsed with wit := {} } = self.parsed := by
      simp only [parsed, if_pos null]
    rwa [same] at read
  · rw [if_neg null] at wrote
    simp only [bind_eq_ok] at wrote
    rcases wrote with ⟨version, first, dummy, empty, flags, marker, vin, second, vout, third,
      wit, fourth, nLockTime, fifth, assembled⟩
    cases assembled
    have witness := CTxWitness.readsBack_deserialize fourth
    rw [length_paddedWitness] at witness
    refine (readsBack_readInt first).bind ((readsBack_vin empty).bind ?_)
    rw [if_pos List.length_nil]
    refine (readsBack_readInt marker).bind ?_
    rw [if_pos (by decide)]
    refine (readsBack_vin second).bind ((readsBack_vout third).bind (witness.bind ?_))
    have last := (readsBack_readInt fifth).last fun nLockTime =>
      ({ self.parsed with wit := self.paddedWitness, nLockTime } : CTransaction)
    have same : { self.parsed with wit := self.paddedWitness } = self.parsed := by
      simp only [parsed, if_neg null]
    exact same ▸ last

end CTransaction

end Messages
end MutinyNet
