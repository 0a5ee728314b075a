import MutinyNet.Codec.Accepted
import MutinyNet.Codec.Layout
import MutinyNet.Messages.Truncation

namespace MutinyNet
namespace Messages

open Codec Python

/-!
# The fields of a serialized block

Every structure in a block as the list of fields it is serialized to, and for every
reader which cuts it does not notice.  Counts and amounts are numbers; a script or a
witness item stands for itself behind its size.
-/

/-- A cut field is read from the bytes that are left of it. -/
theorem run_readInt_take {width : Nat} (signed : Bool) {bytes : Bytes} {count : Nat}
    (length : bytes.length = width) :
    (readInt width signed : Stream Int).run (bytes.take count) =
      .ok (intFromBytes signed (bytes.take count), []) := by
  have short : (bytes.take count).length ≤ width := by
    rw [List.length_take]
    omega
  change Except.ok (intFromBytes signed ((bytes.take count).take width),
    (bytes.take count).drop width) = _
  rw [List.take_of_length_le short, List.drop_eq_nil_iff.mpr short]

theorem laid_readInt {width : Nat} {value : Int} {bytes : Bytes}
    (wrote : intToBytes width false value = .ok bytes) :
    Laid (readInt width false : Stream Int) [.number width value.toNat] bytes value := by
  have length := length_of_intToBytes wrote
  have read := readsBack_readInt wrote
  unfold intToBytes at wrote
  rw [if_neg Bool.false_ne_true] at wrote
  split at wrote
  · next fits =>
      cases wrote
      refine ⟨List.append_nil _, fun count behind => ⟨?_, trivial⟩, read, fun count inside =>
        ⟨_, run_readInt_take false length, ?_⟩⟩
      · rw [length] at behind
        have bound : value.toNat < 256 ^ width := by omega
        exact bound.trans_le (Nat.pow_le_pow_right (by decide) behind)
      · rw [length] at inside
        change ((fromLittleEndian ((littleEndian width value.toNat).take count) : Nat) : Int) =
          value <-> value.toNat < 256 ^ count ∧ True
        rw [and_true, ← fromLittleEndian_take_iff inside.le]
        omega
  · cases wrote

theorem laid_readInt_signed {width : Nat} {value : Int} {bytes : Bytes}
    (wrote : intToBytes width true value = .ok bytes) :
    Laid (readInt width true : Stream Int) [.signed width value] bytes value := by
  have length := length_of_intToBytes wrote
  have read := readsBack_readInt wrote
  unfold intToBytes at wrote
  rw [if_pos rfl] at wrote
  split at wrote
  · next fits =>
      cases wrote
      refine ⟨List.append_nil _, fun count behind => ⟨?_, trivial⟩, read, fun count inside =>
        ⟨_, run_readInt_take true length, ?_⟩⟩
      · rw [length] at behind
        have wider : 256 ^ width ≤ 256 ^ count := Nat.pow_le_pow_right (by decide) behind
        unfold SignedFits at fits
        exact ⟨by omega, by omega⟩
      · rw [length] at inside
        change twosComplement ((littleEndian width (signedPattern width value)).take count).length
          (fromLittleEndian ((littleEndian width (signedPattern width value)).take count)) =
            value <-> SignedFits count value ∧ True
        rw [List.length_take, length, min_eq_left inside.le, and_true,
          twosComplement_take_iff inside.le]
  · cases wrote

/-! ## Sizes, strings and vectors -/

/-- A compact size: the number, or a marker and the number. -/
def sizeFields (l : Nat) : List Field :=
  if l < 253 then [.number 1 l]
  else if l < 0x10000 then [.number 1 253, .number 2 l]
  else if l < 0x100000000 then [.number 1 254, .number 4 l]
  else [.number 1 255, .number 8 l]

def stringFields (s : Bytes) : List Field :=
  sizeFields s.length ++ [.exactly s]

def vectorFields {A : Type} (fieldsOf : A -> List Field) (l : List A) : List Field :=
  sizeFields l.length ++ l.flatMap fieldsOf

/-- Behind the first byte of a size the end of the stream is a number, too. -/
theorem run_compactTail_nil (nit : Int) : Exists fun size =>
    (deserCompactTail nit >>= fun nit => pure nit.toNat : Stream Nat).run [] = .ok (size, []) := by
  unfold deserCompactTail
  split
  · exact ⟨0, rfl⟩
  · split
    · exact ⟨0, rfl⟩
    · split
      · exact ⟨0, rfl⟩
      · exact ⟨nit.toNat, rfl⟩

/-- In front of the first byte of a size the stream reads as zero. -/
theorem zero_of_run_take {size : Bytes} {count : Nat} {other : Int} (single : size.length = 1)
    (inside : count < size.length)
    (run : (readInt 1 false : Stream Int).run (size.take count) = .ok (other, [])) :
    other = 0 := by
  rw [show count = 0 by omega, List.take_zero] at run
  exact (congrArg Prod.fst (Except.ok.inj run)).symm

/-- A marker and the number behind it. -/
theorem laid_marked {l : Nat} {marker width : Nat} {byte : UInt8} {field : Bytes}
    (large : 253 ≤ l) (marked : intToBytes 1 false marker = .ok [byte])
    (selected : deserCompactTail marker = readInt width false)
    (wrote : intToBytes width false l = .ok field) :
    Laid deserCompactSize [.number 1 marker, .number width l] (byte :: field) l := by
  have second : Laid (deserCompactTail marker >>= fun nit => pure nit.toNat : Stream Nat)
      [.number width l] field l := by
    rw [selected]
    exact (laid_readInt wrote).last Int.toNat fun other same => by
      rw [Int.toNat_natCast] at same
      omega
  have read : Laid deserCompactSize ([.number 1 marker] ++ [.number width l])
      ([byte] ++ field) l := by
    refine (laid_readInt marked).bind second run_compactTail_nil ?_
    intro count other inside run misled
    rw [zero_of_run_take rfl inside run] at misled
    have zero : 0 = l := congrArg Prod.fst (Except.ok.inj misled)
    omega
  exact read

theorem laid_deserCompactSize {l : Nat} {size : Bytes} (wrote : serCompactSize l = .ok size) :
    Laid deserCompactSize (sizeFields l) size l := by
  unfold serCompactSize at wrote
  unfold sizeFields
  split
  · next small =>
      rw [if_pos small] at wrote
      have direct : (deserCompactTail l >>= fun nit => pure nit.toNat : Stream Nat) = pure l := by
        rw [deserCompactTail, if_neg (by omega), if_neg (by omega), if_neg (by omega), pure_bind,
          Int.toNat_natCast]
      have second : Laid (deserCompactTail l >>= fun nit => pure nit.toNat : Stream Nat) []
          [] l := by
        rw [direct]
        exact laid_pure l
      have read : Laid deserCompactSize ([.number 1 l] ++ []) (size ++ []) l := by
        refine (laid_readInt wrote).bind second run_compactTail_nil ?_
        intro count other inside run misled
        have zero := zero_of_run_take (length_of_intToBytes wrote) inside run
        rw [zero] at misled
        have same : 0 = l := congrArg Prod.fst (Except.ok.inj misled)
        rw [zero, ← same]
        rfl
      rwa [List.append_nil, List.append_nil] at read
  · next large =>
      rw [if_neg large] at wrote
      split
      · next small =>
          rw [if_pos small] at wrote
          rcases bind_eq_ok.mp wrote with ⟨field, written, assembled⟩
          cases assembled
          exact laid_marked (by omega) rfl rfl written
      · next larger =>
          rw [if_neg larger] at wrote
          split
          · next small =>
              rw [if_pos small] at wrote
              rcases bind_eq_ok.mp wrote with ⟨field, written, assembled⟩
              cases assembled
              exact laid_marked (by omega) rfl rfl written
          · next largest =>
              rw [if_neg largest] at wrote
              rcases bind_eq_ok.mp wrote with ⟨field, written, assembled⟩
              cases assembled
              exact laid_marked (by omega) rfl rfl written

/-- A string is read as it is from all of its bytes, or if it is empty. -/
theorem laid_deserString {s bytes : Bytes} (wrote : serString s = .ok bytes) :
    Laid deserString (stringFields s) bytes s := by
  have length := length_serString wrote
  have read := readsBack_deserString wrote
  rcases bind_eq_ok.mp wrote with ⟨size, sized, assembled⟩
  cases assembled
  have laid := laid_deserCompactSize sized
  have offset : (fieldBytes (sizeFields s.length)).length = compactLength s.length := by
    rw [laid.bytes, length_serCompactSize sized]
  have spared : forall count, Spared (stringFields s) count <->
      Spared (sizeFields s.length) count ∧ s.length ≤ count - compactLength s.length := by
    intro count
    rw [stringFields, spared_append, offset]
    exact and_congr_right fun _ => and_iff_left trivial
  refine ⟨?_, fun count behind => ?_, read, fun count inside => ?_⟩
  · rw [stringFields, fieldBytes_append, laid.bytes]
    exact congrArg (size ++ ·) (List.append_nil s)
  · rw [length, stringLength] at behind
    rw [spared]
    refine ⟨laid.full count ?_, by omega⟩
    rw [length_serCompactSize sized]
    omega
  · refine ⟨cutString s count, deserString_take wrote inside.le, ?_⟩
    rw [spared, cutString, List.take_eq_self_iff]
    refine ⟨fun enough => ⟨?_, enough⟩, And.right⟩
    by_cases some : s.length = 0
    · rw [some]
      exact ⟨show 0 < 256 ^ count by positivity, trivial⟩
    · apply laid.full
      rw [length_serCompactSize sized]
      omega

theorem laid_deserVector {A : Type} {serialize : A -> Except PyError Bytes}
    {deserialize : Stream A} {fieldsOf : A -> List Field} {normal : A -> A} {blank : A}
    {l : List A} {bytes : Bytes} (empty : deserialize.run [] = .ok (blank, []))
    (each : forall value, value ∈ l -> forall written, serialize value = .ok written ->
      Laid deserialize (fieldsOf value) written (normal value))
    (wrote : serVector serialize l = .ok bytes) :
    Laid (deserVector deserialize) (vectorFields fieldsOf l) bytes (l.map normal) := by
  rcases serVector_eq_ok.mp wrote with ⟨size, items, sized, written, assembled⟩
  rw [assembled]
  refine (laid_deserCompactSize sized).bind (Laid.many empty each written)
    (fun other => ⟨_, run_readMany_nil empty other⟩) ?_
  intro _ other _ _ run
  rw [run_readMany_nil empty] at run
  have same := congrArg List.length (congrArg Prod.fst (Except.ok.inj run))
  rwa [List.length_replicate, List.length_map] at same

theorem laid_deserStringVector {l : List Bytes} {bytes : Bytes}
    (wrote : serStringVector l = .ok bytes) :
    Laid deserStringVector (vectorFields stringFields l) bytes l := by
  have each : forall value, value ∈ l -> forall written, serString value = .ok written ->
      Laid deserString (stringFields value) written (id value) :=
    fun _ _ _ written => laid_deserString written
  have laid := laid_deserVector deserString_nil each wrote
  rwa [List.map_id] at laid

/-! ## Transactions -/

def COutPoint.fields (self : COutPoint) : List Field :=
  [.number 32 self.hash.toNat, .number 4 self.n.toNat]

theorem COutPoint.laid_deserialize {self : COutPoint} {bytes : Bytes}
    (wrote : self.serialize = .ok bytes) : Laid deserialize self.fields bytes self := by
  simp only [serialize, bind_eq_ok] at wrote
  rcases wrote with ⟨hash, first, n, second, assembled⟩
  cases assembled
  refine (laid_readInt first).bind ((laid_readInt second).last (COutPoint.mk self.hash) ?_)
    (fun other => ⟨_, rfl⟩) ?_
  · intro other same
    exact congrArg COutPoint.n same
  · intro _ other _ _ run
    exact congrArg COutPoint.hash (congrArg Prod.fst (Except.ok.inj run))

def CTxIn.fields (self : CTxIn) : List Field :=
  self.prevout.fields ++ (stringFields self.scriptSig ++ [Field.number 4 self.nSequence.toNat])

theorem CTxIn.laid_deserialize {self : CTxIn} {bytes : Bytes}
    (wrote : self.serialize = .ok bytes) : Laid deserialize self.fields bytes self := by
  simp only [serialize, bind_eq_ok] at wrote
  rcases wrote with ⟨prevout, first, scriptSig, second, nSequence, third, assembled⟩
  cases assembled
  refine (COutPoint.laid_deserialize first).bind ((laid_deserString second).bind
    ((laid_readInt third).last (CTxIn.mk self.prevout self.scriptSig) ?_)
      (fun other => ⟨_, rfl⟩) ?_) (fun other => ⟨_, rfl⟩) ?_
  · intro other same
    exact congrArg CTxIn.nSequence same
  · intro _ other _ _ run
    exact congrArg CTxIn.scriptSig (congrArg Prod.fst (Except.ok.inj run))
  · intro _ other _ _ run
    exact congrArg CTxIn.prevout (congrArg Prod.fst (Except.ok.inj run))

def CTxOut.fields (self : CTxOut) : List Field :=
  .signed 8 self.nValue :: stringFields self.scriptPubKey

theorem CTxOut.laid_deserialize {self : CTxOut} {bytes : Bytes}
    (wrote : self.serialize = .ok bytes) : Laid deserialize self.fields bytes self := by
  simp only [serialize, bind_eq_ok] at wrote
  rcases wrote with ⟨nValue, first, scriptPubKey, second, assembled⟩
  cases assembled
  refine (laid_readInt_signed first).bind ((laid_deserString second).last
    (CTxOut.mk self.nValue) ?_) (fun other => ⟨_, rfl⟩) ?_
  · intro other same
    exact congrArg CTxOut.scriptPubKey same
  · intro _ other _ _ run
    exact congrArg CTxOut.nValue (congrArg Prod.fst (Except.ok.inj run))

def CTxInWitness.fields (self : CTxInWitness) : List Field :=
  vectorFields stringFields self.scriptWitness.stack

theorem CTxInWitness.laid_deserialize {self : CTxInWitness} {bytes : Bytes}
    (wrote : self.serialize = .ok bytes) : Laid deserialize self.fields bytes self := by
  refine (laid_deserStringVector wrote).last
    (fun stack => ({ scriptWitness := { stack } } : CTxInWitness)) ?_
  intro other same
  exact congrArg (fun witness : CTxInWitness => witness.scriptWitness.stack) same

def CTxWitness.fields (self : CTxWitness) : List Field :=
  self.vtxinwit.flatMap CTxInWitness.fields

theorem CTxWitness.laid_deserialize {self : CTxWitness} {bytes : Bytes}
    (wrote : self.serialize = .ok bytes) :
    Laid (deserialize self.vtxinwit.length) self.fields bytes self := by
  have each : forall value, value ∈ self.vtxinwit -> forall written,
      CTxInWitness.serialize value = .ok written ->
        Laid CTxInWitness.deserialize value.fields written (id value) :=
    fun _ _ _ written => CTxInWitness.laid_deserialize written
  have laid := Laid.many (rfl : CTxInWitness.deserialize.run [] = .ok ({}, [])) each wrote
  rw [List.map_id] at laid
  refine laid.last CTxWitness.mk ?_
  intro other same
  exact congrArg CTxWitness.vtxinwit same

theorem laid_vin {l : List CTxIn} {bytes : Bytes}
    (wrote : serVector CTxIn.serialize l = .ok bytes) :
    Laid (deserVector CTxIn.deserialize) (vectorFields CTxIn.fields l) bytes l := by
  have each : forall value, value ∈ l -> forall written, CTxIn.serialize value = .ok written ->
      Laid CTxIn.deserialize value.fields written (id value) :=
    fun _ _ _ written => CTxIn.laid_deserialize written
  have laid := laid_deserVector (rfl : CTxIn.deserialize.run [] =
    .ok ({ prevout := { hash := 0, n := 0 }, scriptSig := [], nSequence := 0 }, [])) each wrote
  rwa [List.map_id] at laid

theorem laid_vout {l : List CTxOut} {bytes : Bytes}
    (wrote : serVector CTxOut.serialize l = .ok bytes) :
    Laid (deserVector CTxOut.deserialize) (vectorFields CTxOut.fields l) bytes l := by
  have each : forall value, value ∈ l -> forall written, CTxOut.serialize value = .ok written ->
      Laid CTxOut.deserialize value.fields written (id value) :=
    fun _ _ _ written => CTxOut.laid_deserialize written
  have laid := laid_deserVector (rfl : CTxOut.deserialize.run [] =
    .ok ({ nValue := 0, scriptPubKey := [] }, [])) each wrote
  rwa [List.map_id] at laid

namespace CTransaction

/-- The fields of the format without a witness. -/
def bareFields (self : CTransaction) : List Field :=
  .number 4 self.version.toNat :: (vectorFields CTxIn.fields self.vin ++
    (vectorFields CTxOut.fields self.vout ++ [Field.number 4 self.nLockTime.toNat]))

/-- A witness comes with a marker, which reads as no inputs, and a flag in front of the
inputs. -/
def fields (self : CTransaction) : List Field :=
  if self.wit.isNull then self.bareFields
  else
    .number 4 self.version.toNat :: (vectorFields CTxIn.fields [] ++ (.number 1 1 ::
      (vectorFields CTxIn.fields self.vin ++ (vectorFields CTxOut.fields self.vout ++
        (self.paddedWitness.fields ++ [Field.number 4 self.nLockTime.toNat])))))

/-- Behind the inputs the end of the stream is a transaction without outputs. -/
theorem run_inputs_nil (version : Int) (vin : List CTxIn) :
    (if vin.length = 0 then do
        let flags ← readInt 1 false
        if flags ≠ 0 then do
          let vin ← deserVector CTxIn.deserialize
          let vout ← deserVector CTxOut.deserialize
          let wit ← CTxWitness.deserialize vin.length
          let nLockTime ← readInt 4 false
          pure { version, vin, vout, wit, nLockTime }
        else do
          let nLockTime ← readInt 4 false
          pure { version, vin, nLockTime }
      else do
        let vout ← deserVector CTxOut.deserialize
        let nLockTime ← readInt 4 false
        pure { version, vin, vout, nLockTime } : Stream CTransaction).run [] =
      .ok ({ version, vin, nLockTime := 0 }, []) := by
  split <;> rfl

/-- Behind the flag it is one without inputs. -/
theorem run_flags_nil (version flags : Int) (vin : List CTxIn) (none : vin = []) :
    (if flags ≠ 0 then do
        let vin ← deserVector CTxIn.deserialize
        let vout ← deserVector CTxOut.deserialize
        let wit ← CTxWitness.deserialize vin.length
        let nLockTime ← readInt 4 false
        pure { version, vin, vout, wit, nLockTime }
      else do
        let nLockTime ← readInt 4 false
        pure { version, vin, nLockTime } : Stream CTransaction).run [] =
      .ok ({ version, nLockTime := 0 }, []) := by
  subst none
  split <;> rfl

/-- Behind the outputs it is one with empty stacks. -/
theorem run_outputs_nil (version : Int) (vin : List CTxIn) (vout : List CTxOut) (count : Nat) :
    (do
        let wit ← CTxWitness.deserialize count
        let nLockTime ← readInt 4 false
        pure { version, vin, vout, wit, nLockTime } : Stream CTransaction).run [] =
      .ok ({ version, vin, vout, wit := { vtxinwit := List.replicate count {} }
             nLockTime := 0 }, []) := by
  rw [CTxWitness.deserialize, bind_assoc, StateT.run_bind,
    run_readMany_nil (rfl : CTxInWitness.deserialize.run [] = .ok ({}, []))]
  rfl

/-- A transaction with inputs and without a witness is misread behind every cut,
unless all that is missing is the end of a number. -/
theorem laid_withoutWitness {self : CTransaction} {bytes : Bytes} (inputs : self.vin ≠ [])
    (wrote : self.serializeWithoutWitness = .ok bytes) :
    Laid deserialize self.bareFields bytes { self.parsed with wit := {} } := by
  simp only [serializeWithoutWitness, bind_eq_ok] at wrote
  rcases wrote with ⟨version, first, vin, second, vout, third, nLockTime, fourth, assembled⟩
  cases assembled
  have some : ¬ self.vin.length = 0 := by
    rw [List.length_eq_zero_iff]
    exact inputs
  refine (laid_readInt first).bind ((laid_vin second).bind ?_
    (fun other => ⟨_, run_inputs_nil _ other⟩) ?_) (fun other => ⟨_, rfl⟩) ?_
  · rw [if_neg some]
    refine (laid_vout third).bind ((laid_readInt fourth).last (fun nLockTime =>
      ({ version := self.version, vin := self.vin, vout := self.vout, nLockTime } :
        CTransaction)) ?_) (fun other => ⟨_, rfl⟩) ?_
    · intro other same
      exact congrArg CTransaction.nLockTime same
    · intro _ other _ _ run
      exact congrArg CTransaction.vout (congrArg Prod.fst (Except.ok.inj run))
  · intro _ other _ _ run
    rw [run_inputs_nil] at run
    exact congrArg CTransaction.vin (congrArg Prod.fst (Except.ok.inj run))
  · intro _ other _ _ run
    exact congrArg CTransaction.version (congrArg Prod.fst (Except.ok.inj run))

/-- What is behind the flag of the format with a witness. -/
theorem laid_behindFlag {self : CTransaction} {vin vout wit nLockTime : Bytes}
    (first : serVector CTxIn.serialize self.vin = .ok vin)
    (second : serVector CTxOut.serialize self.vout = .ok vout)
    (third : self.paddedWitness.serialize = .ok wit)
    (fourth : intToBytes 4 false self.nLockTime = .ok nLockTime) :
    Laid (do
        let vin ← deserVector CTxIn.deserialize
        let vout ← deserVector CTxOut.deserialize
        let wit ← CTxWitness.deserialize vin.length
        let nLockTime ← readInt 4 false
        pure { version := self.version, vin, vout, wit, nLockTime } : Stream CTransaction)
      (vectorFields CTxIn.fields self.vin ++ (vectorFields CTxOut.fields self.vout ++
        (self.paddedWitness.fields ++ [.number 4 self.nLockTime.toNat])))
      (vin ++ (vout ++ (wit ++ nLockTime)))
      { version := self.version, vin := self.vin, vout := self.vout
        wit := self.paddedWitness, nLockTime := self.nLockTime } := by
  have witness := CTxWitness.laid_deserialize third
  rw [length_paddedWitness] at witness
  refine (laid_vin first).bind ((laid_vout second).bind (witness.bind
    ((laid_readInt fourth).last (fun nLockTime =>
      ({ version := self.version, vin := self.vin, vout := self.vout
         wit := self.paddedWitness, nLockTime } : CTransaction)) ?_)
    (fun other => ⟨_, rfl⟩) ?_) (fun other => ⟨_, run_outputs_nil _ _ other _⟩) ?_)
    (fun other => ⟨_, run_outputs_nil _ other [] _⟩) ?_
  · intro other same
    exact congrArg CTransaction.nLockTime same
  · intro _ other _ _ run
    exact congrArg CTransaction.wit (congrArg Prod.fst (Except.ok.inj run))
  · intro _ other _ _ run
    rw [run_outputs_nil] at run
    exact congrArg CTransaction.vout (congrArg Prod.fst (Except.ok.inj run))
  · intro _ other _ _ run
    have same := (run_outputs_nil self.version other [] other.length).symm.trans run
    exact congrArg CTransaction.vin (congrArg Prod.fst (Except.ok.inj same))

/-- The same in both formats.  Without the flag there are no inputs, and so no cut in
front of them is missed. -/
theorem laid_deserialize {self : CTransaction} {bytes : Bytes} (inputs : self.vin ≠ [])
    (wrote : self.serializeWithWitness = .ok bytes) :
    Laid deserialize self.fields bytes self.parsed := by
  unfold serializeWithWitness at wrote
  unfold fields
  by_cases null : self.wit.isNull = true
  · rw [if_pos null] at wrote ⊢
    have laid := laid_withoutWitness inputs wrote
    have same : { self.parsed with wit := {} } = self.parsed := by
      simp only [parsed, if_pos null]
    rwa [same] at laid
  · rw [if_neg null] at wrote ⊢
    simp only [bind_eq_ok] at wrote
    rcases wrote with ⟨version, first, dummy, empty, flags, marker, vin, second, vout, third,
      wit, fourth, nLockTime, fifth, assembled⟩
    cases assembled
    rw [parsed, if_neg null]
    refine (laid_readInt first).bind ((laid_vin empty).bind ?_
      (fun other => ⟨_, run_inputs_nil _ other⟩) ?_) (fun other => ⟨_, rfl⟩) ?_
    · rw [if_pos List.length_nil]
      refine (laid_readInt marker).bind ?_ (fun other => ⟨_, run_flags_nil _ other _ rfl⟩) ?_
      · rw [if_pos (by decide)]
        exact laid_behindFlag second third fourth fifth
      · intro _ other _ _ run
        rw [run_flags_nil _ other _ rfl] at run
        exact absurd (congrArg CTransaction.vin (congrArg Prod.fst (Except.ok.inj run))).symm inputs
    · intro count other inside run _
      cases empty
      rw [show count = 0 from Nat.lt_one_iff.mp inside, List.take_zero] at run
      exact (congrArg Prod.fst (Except.ok.inj run)).symm
    · intro _ other _ _ run
      exact congrArg CTransaction.version (congrArg Prod.fst (Except.ok.inj run))

/-- Where the inputs of the format without a witness end, and the count of the outputs
begins. -/
def inputsEnd (self : CTransaction) : Nat :=
  4 + (fieldBytes (vectorFields CTxIn.fields self.vin)).length

/-- The first bytes of a transaction of one input and one output are a transaction, and
again one of this kind if they hold the count of the outputs. -/
theorem single_of_cut {self : CTransaction} {bytes : Bytes} (vin : self.vin.length = 1)
    (vout : self.vout.length = 1) (wrote : self.serializeWithoutWitness = .ok bytes) {count : Nat}
    (within : count ≤ bytes.length) :
    Exists fun tx => fromBinary deserialize (bytes.take count) = .ok tx ∧
      (tx.vin.length = 1 ∧ tx.vout.length = 1 <-> self.inputsEnd < count) := by
  have inputs : self.vin ≠ [] := by
    intro none
    rw [none] at vin
    cases vin
  rcases (laid_withoutWitness inputs wrote).run_take within with ⟨tx, run, -⟩
  refine ⟨tx, fromBinary_eq_ok.mpr run, ?_⟩
  simp only [serializeWithoutWitness, bind_eq_ok] at wrote
  rcases wrote with ⟨version, first, ins, second, outs, third, nLockTime, fourth, assembled⟩
  cases assembled
  have versionLength := length_of_intToBytes first
  have stop : self.inputsEnd = 4 + ins.length := by
    rw [inputsEnd, (laid_vin second).bytes]
  by_cases short : count ≤ 4
  · -- There are no inputs behind a cut version.
    rcases (laid_readInt first).run_take (show count ≤ version.length by omega)
      with ⟨other, read, -⟩
    rw [List.take_append_of_le_length (by omega), deserialize, StateT.run_bind, read] at run
    rw [ok_bind] at run
    have same := (run_inputs_nil other []).symm.trans run
    cases same
    exact iff_of_false (fun one => absurd one.1 Nat.zero_ne_one) (by omega)
  · rw [List.take_append, List.take_of_length_le (by omega), versionLength, deserialize,
      StateT.run_bind, readsBack_readInt first, ok_bind, StateT.run_bind] at run
    by_cases inside : count - 4 ≤ ins.length
    · rcases (laid_vin second).run_take inside with ⟨other, read, -⟩
      rw [List.take_append_of_le_length inside, read, ok_bind, run_inputs_nil] at run
      cases run
      exact iff_of_false (fun one => absurd one.2 Nat.zero_ne_one) (by omega)
    · -- The count of the outputs is left.
      rw [List.take_append, List.take_of_length_le (by omega), readsBack_vin second, ok_bind,
        if_neg (by rw [vin]; decide), run_bind_eq_ok] at run
      rcases run with ⟨outputs, behind, read, rest⟩
      rcases run_bind_eq_ok.mp rest with ⟨lock, _, -, assembled⟩
      rw [(run_pure_eq_ok.mp assembled).1]
      refine iff_of_true ⟨vin, ?_⟩ (by omega)
      rcases serVector_eq_ok.mp third with ⟨size, items, sized, -, same⟩
      rw [vout] at sized
      have one : [1] = size := Except.ok.inj sized
      rcases Nat.exists_eq_add_of_lt (show 0 < count - 4 - ins.length by omega) with ⟨more, left⟩
      rw [zero_add] at left
      rw [same, ← one, left] at read
      dsimp only at read
      have counted : deserCompactSize.run ([1] ++ (items ++ nLockTime).take more) =
          .ok (1, (items ++ nLockTime).take more) :=
        readsBack_deserCompactSize (rfl : serCompactSize 1 = .ok [1]) _
      have shape : (([1] ++ items) ++ nLockTime).take (more + 1) =
          [1] ++ (items ++ nLockTime).take more := rfl
      rw [shape, deserVector, StateT.run_bind, counted, ok_bind, run_readMany_one_eq_ok] at read
      rcases read with ⟨output, -, single⟩
      rw [single]
      rfl

end CTransaction

/-! ## Blocks -/

def CBlockHeader.fields (self : CBlockHeader) : List Field :=
  [.signed 4 self.nVersion, .number 32 self.hashPrevBlock.toNat,
    .number 32 self.hashMerkleRoot.toNat, .number 4 self.nTime.toNat, .number 4 self.nBits.toNat,
    .number 4 self.nNonce.toNat]

theorem CBlockHeader.laid_deserialize {self : CBlockHeader} {bytes : Bytes}
    (wrote : self.serialize = .ok bytes) : Laid deserialize self.fields bytes self.uncached := by
  simp only [serialize, bind_eq_ok] at wrote
  rcases wrote with ⟨nVersion, first, hashPrevBlock, second, hashMerkleRoot, third, nTime, fourth,
    nBits, fifth, nNonce, sixth, assembled⟩
  cases assembled
  refine (laid_readInt_signed first).bind ((laid_readInt second).bind ((laid_readInt third).bind
    ((laid_readInt fourth).bind ((laid_readInt fifth).bind ((laid_readInt sixth).last
      (fun nNonce => ({ self.uncached with nNonce } : CBlockHeader)) ?_)
      (fun other => ⟨_, rfl⟩) ?_) (fun other => ⟨_, rfl⟩) ?_) (fun other => ⟨_, rfl⟩) ?_)
      (fun other => ⟨_, rfl⟩) ?_) (fun other => ⟨_, rfl⟩) ?_
  · intro other same
    exact congrArg CBlockHeader.nNonce same
  · intro _ other _ _ run
    exact congrArg CBlockHeader.nBits (congrArg Prod.fst (Except.ok.inj run))
  · intro _ other _ _ run
    exact congrArg CBlockHeader.nTime (congrArg Prod.fst (Except.ok.inj run))
  · intro _ other _ _ run
    exact congrArg CBlockHeader.hashMerkleRoot (congrArg Prod.fst (Except.ok.inj run))
  · intro _ other _ _ run
    exact congrArg CBlockHeader.hashPrevBlock (congrArg Prod.fst (Except.ok.inj run))
  · intro _ other _ _ run
    exact congrArg CBlockHeader.nVersion (congrArg Prod.fst (Except.ok.inj run))

def CBlock.fields (self : CBlock) : List Field :=
  self.toCBlockHeader.fields ++ vectorFields CTransaction.fields self.vtx

/-- A block that was cut is misread, unless all that is missing is the end of a
number. -/
theorem CBlock.laid_deserialize {self : CBlock} {bytes : Bytes} (each : self.Readable)
    (wrote : self.serialize = .ok bytes) : Laid deserialize self.fields bytes self.uncached := by
  rcases serialize_eq_ok.mp wrote with ⟨header, vtx, first, second, assembled⟩
  subst assembled
  have items : forall tx, tx ∈ self.vtx -> forall written,
      CTransaction.serializeWithWitness tx = .ok written ->
        Laid CTransaction.deserialize tx.fields written tx.uncached :=
    fun tx member _ written =>
      (each tx member).2 ▸ CTransaction.laid_deserialize (each tx member).1 written
  refine (CBlockHeader.laid_deserialize first).bind ((laid_deserVector
    (rfl : CTransaction.deserialize.run [] = .ok ({ version := 0 }, [])) items second).last
      (fun vtx => ({ self.toCBlockHeader.uncached with vtx } : CBlock)) ?_)
        (fun other => ⟨_, rfl⟩) ?_
  · intro other same
    exact congrArg CBlock.vtx same
  · intro _ other _ _ run
    exact congrArg CBlock.toCBlockHeader (congrArg Prod.fst (Except.ok.inj run))

end Messages
end MutinyNet
