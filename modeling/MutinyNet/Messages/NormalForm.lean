import MutinyNet.Codec.Accepted
import MutinyNet.Messages.Truncation

namespace MutinyNet
namespace Messages

open Codec Python

/-!
# Normal forms of what the parsers accept

The readers of `messages.py` and `psbt.py` accept more than the writers write.
A string may end early, a size may take nine bytes where one would do, and a
segwit marker may stand before witnesses that are all empty.  Nothing of that
gets into the values they return: every accepted PSBT, and every accepted block
of transactions that have inputs, can be written again, and what is written is
a normal form that is read back as the same and written as itself.

The exception is a transaction without inputs.  Its format puts the count of
outputs where the reader looks for the flags of a segwit transaction, so only
one that has no outputs either is read back.
-/

/-! ## Fields, strings and vectors -/

theorem signedFits_mono {width more : Nat} {value : Int} (within : width ≤ more)
    (fits : SignedFits width value) : SignedFits more value := by
  have powers : ((256 ^ width : Nat) : Int) ≤ ((256 ^ more : Nat) : Int) := by
    exact_mod_cast Nat.pow_le_pow_right (by decide) within
  rcases fits with ⟨low, high⟩
  constructor <;> omega

/-- A string that is too short for a field reads as an integer that fits it. -/
theorem writable_intFromBytes {width : Nat} (signed : Bool) {bytes : Bytes}
    (within : bytes.length ≤ width) :
    Writable (intToBytes width signed) (intFromBytes signed bytes) := by
  have bound := fromLittleEndian_lt bytes
  cases signed with
  | true =>
      have fits := signedFits_mono within (signedFits_twosComplement bound)
      rw [intFromBytes, if_pos rfl]
      exact ⟨_, by rw [intToBytes, if_pos rfl, if_pos fits]⟩
  | false =>
      have powers : 256 ^ bytes.length ≤ 256 ^ width := Nat.pow_le_pow_right (by decide) within
      have fits : 0 ≤ (fromLittleEndian bytes : Int) ∧
          (fromLittleEndian bytes : Int) < ((256 ^ width : Nat) : Int) := by
        constructor <;> omega
      rw [intFromBytes, if_neg (by decide)]
      exact ⟨_, by rw [intToBytes, if_neg (by decide), if_pos fits]⟩

theorem yields_readInt (width : Nat) (signed : Bool) :
    Yields (readInt width signed) (Writable (intToBytes width signed)) :=
  (yields_readUpTo width).last fun _ within => writable_intFromBytes signed within

/-- An unsigned field of at most eight bytes. -/
theorem yields_readInt_toNat {width : Nat} (within : width ≤ 8) :
    Yields (readInt width false) fun value => value.toNat < 256 ^ 8 := by
  refine (yields_readUpTo width).last fun bytes short => ?_
  have bound := fromLittleEndian_lt bytes
  have powers : 256 ^ bytes.length ≤ 256 ^ 8 :=
    Nat.pow_le_pow_right (by decide) (short.trans within)
  rw [intFromBytes, if_neg (by decide)]
  omega

/-- A size that was read can be written, if not always in as many bytes. -/
theorem yields_deserCompactSize : Yields deserCompactSize fun size => size < 256 ^ 8 := by
  refine (yields_readInt_toNat (by decide)).bind fun nit small => ?_
  have tail : Yields (deserCompactTail nit) fun size => size.toNat < 256 ^ 8 := by
    unfold deserCompactTail
    split
    · exact yields_readInt_toNat (by decide)
    · split
      · exact yields_readInt_toNat (by decide)
      · split
        · exact yields_readInt_toNat (by decide)
        · exact yields_pure small
  exact tail.last fun _ bound => bound

theorem yields_deserString : Yields deserString (Writable serString) := by
  refine yields_deserCompactSize.bind fun size bound => (yields_readUpTo size).mono ?_
  intro s short
  rcases exists_serCompactSize_iff.mpr (lt_of_le_of_lt short bound) with ⟨written, sized⟩
  exact ⟨_, bind_eq_ok.mpr ⟨written, sized, rfl⟩⟩

theorem yields_deserVector {A : Type} {deserialize : Stream A} {property : A -> Prop}
    (item : Yields deserialize property) :
    Yields (deserVector deserialize) fun l =>
      l.length < 256 ^ 8 ∧ forall value, value ∈ l -> property value := by
  refine yields_deserCompactSize.bind fun size bound => (item.many size).mono ?_
  rintro values ⟨count, each⟩
  exact ⟨count ▸ bound, each⟩

theorem writable_serVector {A : Type} {serialize : A -> Except PyError Bytes} {l : List A}
    (vector : l.length < 256 ^ 8 ∧ forall value, value ∈ l -> Writable serialize value) :
    Writable (serVector serialize) l := by
  rcases exists_serCompactSize_iff.mpr vector.1 with ⟨written, sized⟩
  rcases writable_many vector.2 with ⟨items, wrote⟩
  exact ⟨_, serVector_eq_ok.mpr ⟨written, items, sized, wrote, rfl⟩⟩

/-! ## Transactions -/

theorem COutPoint.yields_deserialize :
    Yields COutPoint.deserialize (Writable COutPoint.serialize) := by
  refine (yields_readInt 32 false).bind fun hash writableHash => ?_
  refine (yields_readInt 4 false).last fun n writableN => ?_
  rcases writableHash with ⟨_, first⟩
  rcases writableN with ⟨_, second⟩
  exact ⟨_, bind_eq_ok.mpr ⟨_, first, bind_eq_ok.mpr ⟨_, second, rfl⟩⟩⟩

theorem CTxIn.yields_deserialize : Yields CTxIn.deserialize (Writable CTxIn.serialize) := by
  refine COutPoint.yields_deserialize.bind fun prevout writablePrevout => ?_
  refine yields_deserString.bind fun scriptSig writableScript => ?_
  refine (yields_readInt 4 false).last fun nSequence writableSequence => ?_
  rcases writablePrevout with ⟨_, first⟩
  rcases writableScript with ⟨_, second⟩
  rcases writableSequence with ⟨_, third⟩
  exact ⟨_, bind_eq_ok.mpr ⟨_, first, bind_eq_ok.mpr ⟨_, second, bind_eq_ok.mpr ⟨_, third, rfl⟩⟩⟩⟩

theorem CTxOut.yields_deserialize : Yields CTxOut.deserialize (Writable CTxOut.serialize) := by
  refine (yields_readInt 8 true).bind fun nValue writableValue => ?_
  refine yields_deserString.last fun scriptPubKey writableScript => ?_
  rcases writableValue with ⟨_, first⟩
  rcases writableScript with ⟨_, second⟩
  exact ⟨_, bind_eq_ok.mpr ⟨_, first, bind_eq_ok.mpr ⟨_, second, rfl⟩⟩⟩

theorem CTxInWitness.yields_deserialize :
    Yields CTxInWitness.deserialize (Writable CTxInWitness.serialize) :=
  (yields_deserVector yields_deserString).last fun _ vector => writable_serVector vector

theorem CTxWitness.yields_deserialize (count : Nat) :
    Yields (CTxWitness.deserialize count) fun wit =>
      wit.vtxinwit.length = count ∧ Writable CTxWitness.serialize wit :=
  (CTxInWitness.yields_deserialize.many count).last
    fun _ each => ⟨each.1, writable_many each.2⟩

namespace CTransaction

/-- What the parser makes of any bytes: fields that fit, a witness with a stack
for each input or none, and empty caches. -/
structure Accepted (tx : CTransaction) : Prop where
  version : Writable (intToBytes 4 false) tx.version
  vin : Writable (serVector CTxIn.serialize) tx.vin
  vout : Writable (serVector CTxOut.serialize) tx.vout
  wit : tx.wit = {} ∨
    tx.wit.vtxinwit.length = tx.vin.length ∧ Writable CTxWitness.serialize tx.wit
  nLockTime : Writable (intToBytes 4 false) tx.nLockTime
  caches : tx.sha256 = none ∧ tx.hash = none

theorem yields_deserialize : Yields deserialize Accepted := by
  have noOutputs : Writable (serVector CTxOut.serialize) [] := ⟨[0], rfl⟩
  refine (yields_readInt 4 false).bind fun version fits => ?_
  refine (yields_deserVector CTxIn.yields_deserialize).bind fun vin vectorVin => ?_
  split
  · refine (yields_readInt 1 false).bind fun flags _ => ?_
    split
    · refine (yields_deserVector CTxIn.yields_deserialize).bind fun vin vectorVin => ?_
      refine (yields_deserVector CTxOut.yields_deserialize).bind fun vout vectorVout => ?_
      refine (CTxWitness.yields_deserialize vin.length).bind fun wit writableWit => ?_
      exact (yields_readInt 4 false).last fun nLockTime locked =>
        ⟨fits, writable_serVector vectorVin, writable_serVector vectorVout,
          Or.inr writableWit, locked, rfl, rfl⟩
    · exact (yields_readInt 4 false).last fun nLockTime locked =>
        ⟨fits, writable_serVector vectorVin, noOutputs, Or.inl rfl, locked, rfl, rfl⟩
  · refine (yields_deserVector CTxOut.yields_deserialize).bind fun vout vectorVout => ?_
    exact (yields_readInt 4 false).last fun nLockTime locked =>
      ⟨fits, writable_serVector vectorVin, writable_serVector vectorVout, Or.inl rfl, locked, rfl, rfl⟩

namespace Accepted

variable {tx : CTransaction}

theorem paddedWitness (accepted : tx.Accepted) (some : ¬ tx.wit.isNull = true) :
    tx.paddedWitness = tx.wit ∧ Writable CTxWitness.serialize tx.wit := by
  rcases accepted.wit with none | ⟨count, writable⟩
  · rw [none] at some
    exact absurd rfl some
  · refine ⟨?_, writable⟩
    rw [CTransaction.paddedWitness, ← count, Nat.sub_self, List.take_length,
      List.replicate_zero, List.append_nil]

/-- It can be written in both formats. -/
theorem writable (accepted : tx.Accepted) :
    Writable serializeWithoutWitness tx ∧ Writable serializeWithWitness tx := by
  rcases accepted.version with ⟨version, first⟩
  rcases accepted.vin with ⟨vin, second⟩
  rcases accepted.vout with ⟨vout, third⟩
  rcases accepted.nLockTime with ⟨nLockTime, fourth⟩
  have bare : Writable serializeWithoutWitness tx :=
    ⟨_, bind_eq_ok.mpr ⟨_, first, bind_eq_ok.mpr ⟨_, second, bind_eq_ok.mpr ⟨_, third,
      bind_eq_ok.mpr ⟨_, fourth, rfl⟩⟩⟩⟩⟩
  refine ⟨bare, ?_⟩
  by_cases null : tx.wit.isNull = true
  · rcases bare with ⟨bytes, wrote⟩
    exact ⟨bytes, by rw [serializeWithWitness, if_pos null, wrote]⟩
  · rcases accepted.paddedWitness null with ⟨padded, wit, fifth⟩
    have dummy : serVector CTxIn.serialize [] = .ok [0] := rfl
    have flags : intToBytes 1 false 1 = .ok [1] := rfl
    refine ⟨version ++ ([0] ++ ([1] ++ (vin ++ (vout ++ (wit ++ nLockTime))))), ?_⟩
    rw [serializeWithWitness, if_neg null, padded]
    simp only [first, second, third, fourth, fifth, dummy, flags, bind, Except.bind, pure,
      Except.pure]

/-- Its normal form differs from it in a witness that says nothing only. -/
theorem parsed_eq (accepted : tx.Accepted) :
    tx.parsed = { tx with wit := if tx.wit.isNull then {} else tx.wit } := by
  have wit : (if tx.wit.isNull then {} else tx.paddedWitness) =
      if tx.wit.isNull then {} else tx.wit := by
    by_cases null : tx.wit.isNull = true
    · rw [if_pos null, if_pos null]
    · rw [if_neg null, if_neg null, (accepted.paddedWitness null).1]
  simp only [parsed, wit, accepted.caches.1, accepted.caches.2]

/-- The normal form is written as the transaction is. -/
theorem serialize_parsed (accepted : tx.Accepted) :
    tx.parsed.serializeWithoutWitness = tx.serializeWithoutWitness ∧
      tx.parsed.serializeWithWitness = tx.serializeWithWitness := by
  rw [accepted.parsed_eq]
  by_cases null : tx.wit.isNull = true
  · rw [if_pos null]
    exact ⟨rfl, by rw [serializeWithWitness, serializeWithWitness, if_pos null]; rfl⟩
  · rw [if_neg null]
    exact ⟨rfl, rfl⟩

/-- It is read back unless it has outputs and no inputs. -/
theorem readsBack (accepted : tx.Accepted) (shaped : tx.vin ≠ [] ∨ tx.vout = [])
    {bytes : Bytes} (wrote : tx.serializeWithWitness = .ok bytes) :
    ReadsBack deserialize bytes tx.parsed := by
  by_cases inputs : tx.vin = []
  · have outputs : tx.vout = [] := by
      rcases shaped with some | none
      · exact absurd inputs some
      · exact none
    have nothing : tx.wit.vtxinwit = [] := by
      rcases accepted.wit with none | ⟨count, -⟩
      · rw [none]
      · rw [← List.length_eq_zero_iff, count, inputs, List.length_nil]
    have null : tx.wit.isNull = true := by
      rw [CTxWitness.isNull, nothing]
      rfl
    have same : tx.parsed = { version := tx.version, nLockTime := tx.nLockTime } := by
      simp only [parsed, if_pos null, inputs, outputs]
    rw [serializeWithWitness, if_pos null] at wrote
    simp only [serializeWithoutWitness, inputs, outputs, bind_eq_ok] at wrote
    rcases wrote with ⟨version, first, vin, second, vout, third, nLockTime, fourth, assembled⟩
    cases second
    cases third
    cases assembled
    have marker : intToBytes 1 false 0 = .ok [0] := rfl
    rw [same]
    refine (readsBack_readInt first).bind
      ((readsBack_vin (rfl : serVector CTxIn.serialize [] = .ok [0])).bind ?_)
    rw [if_pos List.length_nil]
    refine (readsBack_readInt marker).bind ?_
    rw [if_neg (not_not_intro rfl)]
    exact (readsBack_readInt fourth).last fun nLockTime =>
      ({ version := tx.version, nLockTime } : CTransaction)
  · exact readsBack_deserialize inputs wrote

end Accepted

end CTransaction

/-! ## Blocks -/

section Roots

variable (hash256 : Hash256)

/-- Without a cache the id of a transaction is that of its bytes. -/
theorem serSha256_calcSha256 {tx : CTransaction} (empty : tx.sha256 = none) :
    (tx.calcSha256 hash256 >>= CTransaction.serSha256) = txid hash256 tx := by
  cases wrote : tx.serializeWithoutWitness with
  | error err =>
      rw [txid, CTransaction.calcSha256, wrote]
      rfl
  | ok bytes =>
      have filled : tx.calcSha256 hash256 = .ok { tx with
          sha256 := some (uint256FromStr (hash256 bytes))
          hash := some (CTransaction.displayHash hash256 bytes) } := by
        rw [CTransaction.calcSha256, wrote, empty]
        simp only [bind, Except.bind, pure, Except.pure]
      have leaf : forall full : CTransaction,
          full.sha256 = some (uint256FromStr (hash256 bytes)) ->
            full.serSha256 = .ok (hash256 bytes) := by
        intro full cached
        rw [CTransaction.serSha256, cached]
        simp only [serUint256_uint256FromStr (hash256.length_digest bytes)]
      rw [filled, txid, wrote, ok_bind, ok_bind, leaf _ rfl]
      rfl

theorem txidLeaves_of_uncached {txs : List CTransaction}
    (empty : forall tx, tx ∈ txs -> tx.sha256 = none) :
    (txidLeaves (CTransaction.calcSha256 hash256) txs).map Prod.snd = txids hash256 txs := by
  induction txs with
  | nil => rfl
  | cons tx txs inductionHypothesis =>
      have rest := inductionHypothesis fun other member => empty other (List.mem_cons_of_mem tx member)
      have first := serSha256_calcSha256 hash256 (empty tx List.mem_cons_self)
      rw [txidLeaves, txids, ← rest, ← first]
      cases tx.calcSha256 hash256 with
      | error err => rfl
      | ok refreshed =>
          simp only [bind, Except.bind]
          cases refreshed.serSha256 with
          | error err => rfl
          | ok leaf =>
              cases txidLeaves (CTransaction.calcSha256 hash256) txs <;> rfl

theorem txids_parsed {txs : List CTransaction} (accepted : forall tx, tx ∈ txs -> tx.Accepted) :
    txids hash256 (txs.map CTransaction.parsed) = txids hash256 txs := by
  induction txs with
  | nil => rfl
  | cons tx txs inductionHypothesis =>
      have rest := inductionHypothesis fun other member =>
        accepted other (List.mem_cons_of_mem tx member)
      have same := (accepted tx List.mem_cons_self).serialize_parsed.1
      rw [List.map_cons, txids, txids, rest, txid, txid, same]

theorem witnessLeaves_parsed {txs : List CTransaction}
    (accepted : forall tx, tx ∈ txs -> tx.Accepted) :
    CBlock.witnessLeaves hash256 (txs.map CTransaction.parsed) =
      CBlock.witnessLeaves hash256 txs := by
  induction txs with
  | nil => rfl
  | cons tx txs inductionHypothesis =>
      have rest := inductionHypothesis fun other member =>
        accepted other (List.mem_cons_of_mem tx member)
      have same := (accepted tx List.mem_cons_self).serialize_parsed.2
      rw [List.map_cons, CBlock.witnessLeaves, CBlock.witnessLeaves, rest,
        CTransaction.calcSha256WithWitness, CTransaction.calcSha256WithWitness, same]

end Roots

theorem CBlockHeader.yields_deserialize :
    Yields CBlockHeader.deserialize fun header =>
      Writable CBlockHeader.serialize header ∧ header.uncached = header := by
  refine (yields_readInt 4 true).bind fun nVersion fits => ?_
  refine (yields_readInt 32 false).bind fun hashPrevBlock fits' => ?_
  refine (yields_readInt 32 false).bind fun hashMerkleRoot fits'' => ?_
  refine (yields_readInt 4 false).bind fun nTime timed => ?_
  refine (yields_readInt 4 false).bind fun nBits compact => ?_
  refine (yields_readInt 4 false).last fun nNonce proved => ⟨?_, rfl⟩
  rcases fits with ⟨_, first⟩
  rcases fits' with ⟨_, second⟩
  rcases fits'' with ⟨_, third⟩
  rcases timed with ⟨_, fourth⟩
  rcases compact with ⟨_, fifth⟩
  rcases proved with ⟨_, sixth⟩
  exact ⟨_, bind_eq_ok.mpr ⟨_, first, bind_eq_ok.mpr ⟨_, second, bind_eq_ok.mpr ⟨_, third,
    bind_eq_ok.mpr ⟨_, fourth, bind_eq_ok.mpr ⟨_, fifth, bind_eq_ok.mpr ⟨_, sixth, rfl⟩⟩⟩⟩⟩⟩⟩

namespace CBlock

/-- The block with each transaction as it is read back. -/
def normal (block : CBlock) : CBlock :=
  { block with vtx := block.vtx.map CTransaction.parsed }

/-- What the parser makes of any bytes. -/
structure Accepted (block : CBlock) : Prop where
  header : Writable CBlockHeader.serialize block.toCBlockHeader
  uncached : block.toCBlockHeader.uncached = block.toCBlockHeader
  count : block.vtx.length < 256 ^ 8
  transactions : forall tx, tx ∈ block.vtx -> tx.Accepted

theorem yields_deserialize : Yields deserialize Accepted := by
  refine CBlockHeader.yields_deserialize.bind fun header fits => ?_
  exact (yields_deserVector CTransaction.yields_deserialize).last fun vtx vector =>
    ⟨fits.1, fits.2, vector.1, vector.2⟩

variable {block : CBlock}

/-- The block and its normal form have the same bytes. -/
theorem Accepted.serialize_normal (accepted : block.Accepted) :
    Exists fun bytes => block.serialize = .ok bytes ∧ block.normal.serialize = .ok bytes := by
  have written : forall tx, tx ∈ block.vtx ->
      Writable CTransaction.serializeWithWitness tx :=
    fun tx member => (accepted.transactions tx member).writable.2
  have same := writeMany_map_of_mem fun tx member =>
    (accepted.transactions tx member).serialize_parsed.2
  rcases accepted.header with ⟨header, first⟩
  rcases writable_serVector ⟨accepted.count, written⟩ with ⟨vtx, second⟩
  refine ⟨header ++ vtx, serialize_eq_ok.mpr ⟨header, vtx, first, second, rfl⟩,
    serialize_eq_ok.mpr ⟨header, vtx, first, ?_, rfl⟩⟩
  rw [← second, serVector, serVector, normal, List.length_map, same]

/-- Any bytes that are accepted as a block have a normal form: what the block is
written as, is read back, and written again.  It has the same Merkle roots. -/
theorem normal_of_fromBinary (hash256 : Hash256) {bytes : Bytes}
    (read : fromBinary deserialize bytes = .ok block)
    (shaped : forall tx, tx ∈ block.vtx -> tx.vin ≠ [] ∨ tx.vout = []) :
    (Exists fun written => block.serialize = .ok written ∧
      fromBinary deserialize written = .ok block.normal ∧
      block.normal.serialize = .ok written) ∧
    (block.normal.calcMerkleRoot hash256).map Prod.snd =
      (block.calcMerkleRoot hash256).map Prod.snd ∧
    block.normal.calcWitnessMerkleRoot hash256 = block.calcWitnessMerkleRoot hash256 := by
  have accepted := yields_deserialize bytes block [] (fromBinary_eq_ok.mp read)
  rcases accepted.serialize_normal with ⟨written, wrote, again⟩
  have roots : forall txs : List CTransaction, (forall tx, tx ∈ txs -> tx.sha256 = none) ->
      forall header : CBlockHeader,
        (({ header with vtx := txs } : CBlock).calcMerkleRoot hash256).map Prod.snd =
          txids hash256 txs >>= getMerkleRoot hash256 := by
    intro txs empty header
    rw [← txidLeaves_of_uncached hash256 empty, calcMerkleRoot]
    cases txidLeaves (CTransaction.calcSha256 hash256) txs with
    | error err => rfl
    | ok leaves =>
        change Except.map Prod.snd (getMerkleRoot hash256 leaves.2 >>= fun root => _) =
          getMerkleRoot hash256 leaves.2
        cases getMerkleRoot hash256 leaves.2 <;> rfl
  refine ⟨⟨written, wrote, ?_, again⟩, ?_, ?_⟩
  · apply fromBinary_of_readsBack
    rcases serialize_eq_ok.mp wrote with ⟨header, vtx, first, second, assembled⟩
    subst assembled
    refine (CBlockHeader.readsBack_deserialize first).bind ?_
    have read := readsBack_deserVector
      (fun tx member _ wroteTx => (accepted.transactions tx member).readsBack
        (shaped tx member) wroteTx) second
    have last := read.last fun vtx => ({ block.toCBlockHeader.uncached with vtx } : CBlock)
    rw [accepted.uncached] at last ⊢
    exact last
  · have empty : forall tx, tx ∈ block.normal.vtx -> tx.sha256 = none := by
      intro tx member
      rcases List.mem_map.mp member with ⟨other, -, same⟩
      rw [← same]
      rfl
    have first := roots block.normal.vtx empty block.toCBlockHeader
    have second := roots block.vtx (fun tx member => (accepted.transactions tx member).caches.1)
      block.toCBlockHeader
    rw [normal, txids_parsed hash256 accepted.transactions] at first
    exact first.trans second.symm
  · have tail : forall tx, tx ∈ block.vtx.tail -> tx.Accepted :=
      fun tx member => accepted.transactions tx (List.mem_of_mem_tail member)
    rw [calcWitnessMerkleRoot, calcWitnessMerkleRoot, normal]
    simp only [List.map_tail.symm, witnessLeaves_parsed hash256 tail]

/-- A block whose transaction has a witness without items, and ends before its
lock time. -/
def shortBytes : Bytes :=
  List.replicate 80 0 ++ [1, 1, 0, 0, 0, 0, 1, 1] ++ List.replicate 41 0 ++ [0, 0]

def shortBlock : CBlock where
  nVersion := 0
  vtx := [{
    version := 1
    vin := [{ prevout := { hash := 0, n := 0 }, scriptSig := [], nSequence := 0 }]
    wit := { vtxinwit := [{}] } }]

def constantHash : Hash256 where
  digest := fun _ => List.replicate 32 1
  length_digest := fun _ => List.length_replicate

theorem normal_of_fromBinary_sample :
    (Exists fun written => shortBlock.serialize = .ok written ∧
      fromBinary deserialize written = .ok shortBlock.normal ∧
      shortBlock.normal.serialize = .ok written) ∧
    (shortBlock.normal.calcMerkleRoot constantHash).map Prod.snd =
      (shortBlock.calcMerkleRoot constantHash).map Prod.snd ∧
    shortBlock.normal.calcWitnessMerkleRoot constantHash =
      shortBlock.calcWitnessMerkleRoot constantHash := by
  have read : fromBinary deserialize shortBytes = .ok shortBlock := by
    decide +kernel
  refine normal_of_fromBinary constantHash read fun tx member => ?_
  rw [List.mem_singleton.mp member]
  exact Or.inl (List.cons_ne_nil _ _)

end CBlock

/-! ## Partially signed transactions -/

theorem PSBTKey.raw_of_ofRaw {k : Bytes} {key : PSBTKey} (keyed : PSBTKey.ofRaw k = some key) :
    key.raw = k := by
  rcases k with _ | ⟨first, _ | ⟨second, rest⟩⟩
  · cases keyed
  · cases keyed
    rfl
  · cases keyed
    rfl

namespace PSBTMap

theorem writable_of_entries {map : PSBTMap}
    (each : forall entry, entry ∈ map.map -> Writable serializeEntry entry) :
    Writable serialize map := by
  rcases writable_many each with ⟨entries, wrote⟩
  exact ⟨entries ++ [0], bind_eq_ok.mpr ⟨entries, wrote, rfl⟩⟩

theorem yields_deserEntries (fuel : Nat) {before : PSBTMap}
    (each : forall entry, entry ∈ before.map -> Writable serializeEntry entry) :
    Yields (deserEntries fuel before) fun map =>
      forall entry, entry ∈ map.map -> Writable serializeEntry entry := by
  induction fuel generalizing before with
  | zero =>
      intro bytes value rest impossible
      cases impossible
  | succ fuel inductionHypothesis =>
      refine yields_deserString.bind fun k writableKey => ?_
      split
      · exact yields_pure each
      · next key keyed =>
          refine yields_deserString.bind fun v writableValue => ?_
          split
          · apply inductionHypothesis
            intro entry member
            rcases List.mem_append.mp member with earlier | added
            · exact each entry earlier
            · rw [List.mem_singleton.mp added]
              rcases writableKey with ⟨_, first⟩
              rcases writableValue with ⟨_, second⟩
              rw [← PSBTKey.raw_of_ofRaw keyed] at first
              exact ⟨_, bind_eq_ok.mpr ⟨_, first, bind_eq_ok.mpr ⟨_, second, rfl⟩⟩⟩
          · intro bytes value rest impossible
            cases impossible

theorem yields_deserialize : Yields deserialize (Writable serialize) := by
  intro bytes map rest read
  have none : forall entry, entry ∈ ({} : PSBTMap).map -> Writable serializeEntry entry := by
    intro entry impossible
    cases impossible
  exact writable_of_entries (yields_deserEntries (bytes.length + 1) none bytes map rest read)

end PSBTMap

namespace PSBT

/-- Everything that is accepted as a PSBT can be written, and is read back. -/
theorem readsBack_of_run {bytes rest : Bytes} {psbt : PSBT}
    (read : deserialize.run bytes = .ok (psbt, rest)) :
    Exists fun written => psbt.serialize = .ok written ∧ ReadsBack deserialize written psbt := by
  rcases deserialize_run_eq_ok.mp read with ⟨g, i, o, unsigned, tx, behindG, behindI, -, readG,
    found, parsed, readI, readO, whole⟩
  have global := PSBTMap.yields_deserialize _ g behindG readG
  have inputs := PSBTMap.yields_deserialize.many tx.vin.length behindG i behindI readI
  have outputs := PSBTMap.yields_deserialize.many tx.vout.length behindI o rest readO
  have maps : forall map, map ∈ [g] ++ i ++ o -> Writable PSBTMap.serialize map := by
    intro map member
    rcases List.mem_append.mp member with front | back
    · rcases List.mem_append.mp front with first | middle
      · rw [List.mem_singleton.mp first]
        exact global
      · exact inputs.2 map middle
    · exact outputs.2 map back
  rcases writable_many maps with ⟨body, wrote⟩
  have written : psbt.serialize = .ok (psbtMagic ++ body) := by
    rw [whole, serialize, found]
    exact bind_eq_ok.mpr ⟨tx, parsed, bind_eq_ok.mpr ⟨(), assert_eq_ok.mpr (beq_iff_eq.mpr
      inputs.1.symm), bind_eq_ok.mpr ⟨(), assert_eq_ok.mpr (beq_iff_eq.mpr outputs.1.symm),
        bind_eq_ok.mpr ⟨body, wrote, rfl⟩⟩⟩⟩
  refine ⟨psbtMagic ++ body, written, ?_⟩
  rcases readsBack_deserialize written with ⟨unsigned', tx', found', parsed', -, -, readsBack⟩
  rw [whole] at found' readsBack
  rw [found] at found'
  cases found'
  rw [parsed] at parsed'
  cases parsed'
  rw [whole]
  exact readsBack

/-- Every text that is accepted as a PSBT has a normal form: the text that the
PSBT is written as.  The normal form is accepted as the same PSBT, so it is its
own normal form, and two texts have the same one exactly when they are accepted
as the same PSBT. -/
theorem normal_of_fromBase64 {base64 : Base64} {text : String} {psbt : PSBT}
    (read : fromBase64 base64 text = .ok psbt) :
    Exists fun normal => psbt.toBase64 base64 = .ok normal ∧
      fromBase64 base64 normal = .ok psbt ∧
      forall other : String, forall psbt' : PSBT, fromBase64 base64 other = .ok psbt' ->
        (psbt'.toBase64 base64 = .ok normal <-> psbt' = psbt) := by
  rcases bind_eq_ok.mp read with ⟨bytes, -, parsed⟩
  rcases readsBack_of_run (fromBinary_eq_ok.mp parsed) with ⟨written, wrote, back⟩
  have encoded : psbt.toBase64 base64 = .ok (base64.encode written) := by
    rw [toBase64, wrote]
    rfl
  have again := fromBase64_encode base64 back
  refine ⟨base64.encode written, encoded, again, ?_⟩
  intro other psbt' read'
  constructor
  · intro same
    rcases bind_eq_ok.mp read' with ⟨bytes', -, parsed'⟩
    rcases readsBack_of_run (fromBinary_eq_ok.mp parsed') with ⟨written', wrote', back'⟩
    rcases bind_eq_ok.mp same with ⟨_, wrote'', assembled⟩
    rw [wrote'] at wrote''
    cases wrote''
    have again' := fromBase64_encode base64 back'
    rw [Except.ok.inj assembled, again] at again'
    exact (Except.ok.inj again').symm
  · intro same
    rw [same]
    exact encoded

/-- A request with the size of a key in nine bytes, and without its last map. -/
def shortRequest : Bytes :=
  psbtMagic ++ ([1, 0, 60] ++ ([2, 0, 0, 0, 1] ++ List.replicate 41 0 ++ [1] ++
    List.replicate 13 0) ++ [0]) ++ [255, 1, 0, 0, 0, 0, 0, 0, 0, 7, 1, 5, 0]

def shortPsbt : PSBT where
  g := { map := [(psbtGlobalUnsignedTx, [2, 0, 0, 0, 1] ++ List.replicate 41 0 ++ [1] ++
    List.replicate 13 0)] }
  i := [{ map := [(psbtInFinalScriptsig, [5])] }]
  o := [{}]
  tx := some {
    vin := [{ prevout := { hash := 0, n := 0 }, scriptSig := [], nSequence := 0 }]
    vout := [{ nValue := 0, scriptPubKey := [] }] }

def hexText : Base64 where
  encode := toHex
  decode := fromHex
  decode_encode := fromHex_toHex

theorem normal_of_fromBase64_sample :
    Exists fun normal => shortPsbt.toBase64 hexText = .ok normal ∧
      fromBase64 hexText normal = .ok shortPsbt ∧
      forall other : String, forall psbt' : PSBT, fromBase64 hexText other = .ok psbt' ->
        (psbt'.toBase64 hexText = .ok normal <-> psbt' = shortPsbt) := by
  have parsed : fromBinary deserialize shortRequest = .ok shortPsbt := by
    decide +kernel
  have read : fromBase64 hexText (hexText.encode shortRequest) = .ok shortPsbt := by
    rw [fromBase64, hexText.decode_encode, ok_bind, parsed]
  exact normal_of_fromBase64 read

end PSBT

end Messages
end MutinyNet
