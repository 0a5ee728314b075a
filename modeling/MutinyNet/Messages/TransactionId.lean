import MutinyNet.Messages.Transaction
import MutinyNet.Hashing.MerkleTree

namespace MutinyNet
namespace Messages

open Codec Python

/-!
# Transaction ids and their caches

`calc_sha256` fills the cache only when it is empty, so an id can be stale after
the transaction was changed; `rehash` empties it first.  `FreshId` is the
property under which both give the id of the transaction as it is now.
-/

namespace CTransaction

variable (hash256 : Hash256)

/-- The bytes of a digest in display order. -/
def displayHash (bytes : Bytes) : String :=
  toHex (hash256 bytes).reverse

def calcSha256 (self : CTransaction) : Except PyError CTransaction := do
  let bytes ← self.serializeWithoutWitness
  let sha256 := match self.sha256 with
    | some cached => cached
    | none => uint256FromStr (hash256 bytes)
  pure { self with sha256 := some sha256, hash := some (displayHash hash256 bytes) }

/-- `calc_sha256(with_witness=True)`: the result is not cached. -/
def calcSha256WithWitness (self : CTransaction) : Except PyError Int := do
  let bytes ← self.serializeWithWitness
  pure (uint256FromStr (hash256 bytes))

def rehash (self : CTransaction) : Except PyError CTransaction :=
  { self with sha256 := none }.calcSha256 hash256

/-- `ser_uint256(tx.sha256)`; an empty cache is `None` and has no `to_bytes`. -/
def serSha256 (self : CTransaction) : Except PyError Bytes :=
  match self.sha256 with
  | some sha256 => serUint256 sha256
  | none => .error .attributeError

/-- The transaction with empty caches. -/
def uncached (self : CTransaction) : CTransaction :=
  { self with sha256 := none, hash := none }

@[simp] theorem uncached_version (self : CTransaction) : self.uncached.version = self.version := rfl
@[simp] theorem uncached_vin (self : CTransaction) : self.uncached.vin = self.vin := rfl
@[simp] theorem uncached_vout (self : CTransaction) : self.uncached.vout = self.vout := rfl
@[simp] theorem uncached_wit (self : CTransaction) : self.uncached.wit = self.wit := rfl
@[simp] theorem uncached_uncached (self : CTransaction) : self.uncached.uncached = self.uncached := rfl

theorem serializeWithWitness_uncached (self : CTransaction) :
    self.uncached.serializeWithWitness = self.serializeWithWitness := rfl

/-- A transaction parsed back from its own bytes keeps everything but the
caches when its witness has one entry for each input. -/
theorem parsed_eq_uncached {self : CTransaction}
    (full : self.wit.vtxinwit.length = self.vin.length) (visible : self.wit.isNull = false) :
    self.parsed = self.uncached := by
  have padded : self.paddedWitness = self.wit := by
    unfold paddedWitness
    rw [← full, List.take_length, Nat.sub_self, List.replicate_zero, List.append_nil]
  unfold parsed
  rw [if_neg (by rw [visible]; decide), padded]
  rfl

/-- The transaction comes back from its own bytes with empty caches and nothing
else changed. -/
def Readable (self : CTransaction) : Prop :=
  self.vin ≠ [] ∧ self.parsed = self.uncached

theorem Readable.congr {self other : CTransaction} (readable : self.Readable)
    (same : self.uncached = other.uncached) : other.Readable := by
  have moved : self.uncached.Readable := readable
  rw [same] at moved
  exact moved

/-- An empty cache, or the id of the transaction as it is now. -/
def FreshId (self : CTransaction) : Prop :=
  forall cached, self.sha256 = some cached -> forall bytes,
    self.serializeWithoutWitness = .ok bytes -> cached = uint256FromStr (hash256 bytes)

variable {hash256}

theorem freshId_of_none {self : CTransaction} (empty : self.sha256 = none) :
    self.FreshId hash256 := by
  intro cached found
  rw [empty] at found
  cases found

theorem calcSha256_uncached {self result : CTransaction}
    (run : self.calcSha256 hash256 = .ok result) : result.uncached = self.uncached := by
  rcases bind_eq_ok.mp run with ⟨bytes, -, assembled⟩
  cases assembled
  rfl

theorem calcSha256_spec {self result : CTransaction} (fresh : self.FreshId hash256)
    (run : self.calcSha256 hash256 = .ok result) :
    Exists fun bytes => self.serializeWithoutWitness = .ok bytes ∧
      result = { self with
        sha256 := some (uint256FromStr (hash256 bytes))
        hash := some (displayHash hash256 bytes) } := by
  rcases bind_eq_ok.mp run with ⟨bytes, wrote, assembled⟩
  refine ⟨bytes, wrote, ?_⟩
  cases assembled
  cases cached : self.sha256 with
  | none => rfl
  | some value =>
      have same := fresh value cached bytes wrote
      rw [same]

theorem rehash_uncached {self result : CTransaction} (run : self.rehash hash256 = .ok result) :
    result.uncached = self.uncached := by
  have same := calcSha256_uncached run
  exact same

theorem rehash_spec {self result : CTransaction} (run : self.rehash hash256 = .ok result) :
    Exists fun bytes => self.serializeWithoutWitness = .ok bytes ∧
      result = { self with
        sha256 := some (uint256FromStr (hash256 bytes))
        hash := some (displayHash hash256 bytes) } := by
  have empty : ({ self with sha256 := none } : CTransaction).FreshId hash256 := freshId_of_none rfl
  have spec := calcSha256_spec empty run
  exact spec

theorem freshId_of_rehash {self result : CTransaction} (run : self.rehash hash256 = .ok result) :
    result.FreshId hash256 := by
  rcases rehash_spec run with ⟨bytes, wrote, same⟩
  intro cached found other wrote'
  rw [same] at found wrote'
  change self.serializeWithoutWitness = .ok other at wrote'
  rw [wrote] at wrote'
  cases wrote'
  cases found
  rfl

end CTransaction

/-! ## The leaves of the transaction tree -/

section Leaves

variable (hash256 : Hash256)

/-- The common loop of `signet_txs` and `calc_merkle_root`: refresh each
transaction's id and collect the ids in order. -/
def txidLeaves (refresh : CTransaction -> Except PyError CTransaction) :
    List CTransaction -> Except PyError (List CTransaction × List Bytes)
  | [] => pure ([], [])
  | tx :: txs => do
      let tx ← refresh tx
      let leaf ← tx.serSha256
      let (txs, leaves) ← txidLeaves refresh txs
      pure (tx :: txs, leaf :: leaves)

/-- `leaf` is the id of the transaction as it is now. -/
def IsTxid (tx : CTransaction) (leaf : Bytes) : Prop :=
  Exists fun bytes => tx.serializeWithoutWitness = .ok bytes ∧ leaf = hash256 bytes

variable {hash256}

/-- A refresh that keeps the transaction and gives it its own id. -/
def Refreshes (hash256 : Hash256) (refresh : CTransaction -> Except PyError CTransaction)
    (tx : CTransaction) : Prop :=
  forall result, refresh tx = .ok result ->
    Exists fun bytes => tx.serializeWithoutWitness = .ok bytes ∧
      result = { tx with
        sha256 := some (uint256FromStr (hash256 bytes))
        hash := some (CTransaction.displayHash hash256 bytes) }

theorem refreshes_rehash (tx : CTransaction) :
    Refreshes hash256 (CTransaction.rehash hash256) tx :=
  fun _ run => CTransaction.rehash_spec run

theorem refreshes_calcSha256 {tx : CTransaction} (fresh : tx.FreshId hash256) :
    Refreshes hash256 (CTransaction.calcSha256 hash256) tx :=
  fun _ run => CTransaction.calcSha256_spec fresh run

/-- The loop changes nothing but the caches if each refresh does. -/
theorem txidLeaves_uncached {refresh : CTransaction -> Except PyError CTransaction}
    {txs txs' : List CTransaction} {leaves : List Bytes}
    (each : forall tx result, refresh tx = .ok result -> result.uncached = tx.uncached)
    (run : txidLeaves refresh txs = .ok (txs', leaves)) :
    txs'.map CTransaction.uncached = txs.map CTransaction.uncached := by
  induction txs generalizing txs' leaves with
  | nil =>
      cases run
      rfl
  | cons tx txs inductionHypothesis =>
      simp only [txidLeaves, bind_eq_ok] at run
      rcases run with ⟨tx', refreshed, leaf, -, ⟨later, laterLeaves⟩, rest, assembled⟩
      cases assembled
      rw [List.map_cons, List.map_cons, each tx tx' refreshed, inductionHypothesis rest]

/-- The leaves are the ids of the transactions as they are, and the loop leaves
the caches fresh. -/
theorem txidLeaves_spec {refresh : CTransaction -> Except PyError CTransaction}
    {txs txs' : List CTransaction} {leaves : List Bytes}
    (each : forall tx, tx ∈ txs -> Refreshes hash256 refresh tx)
    (run : txidLeaves refresh txs = .ok (txs', leaves)) :
    List.Forall₂ (IsTxid hash256) txs leaves ∧ forall tx, tx ∈ txs' -> tx.FreshId hash256 := by
  induction txs generalizing txs' leaves with
  | nil =>
      cases run
      exact ⟨.nil, fun _ member => nomatch member⟩
  | cons tx txs inductionHypothesis =>
      simp only [txidLeaves, bind_eq_ok] at run
      rcases run with ⟨tx', refreshed, leaf, serialized, ⟨later, laterLeaves⟩, rest, assembled⟩
      cases assembled
      rcases each tx List.mem_cons_self tx' refreshed with ⟨bytes, wrote, same⟩
      have tail := inductionHypothesis
        (fun other member => each other (List.mem_cons_of_mem tx member)) rest
      rcases tail with ⟨leavesTail, freshTail⟩
      have isLeaf : leaf = hash256 bytes := by
        rw [same] at serialized
        change serUint256 (uint256FromStr (hash256 bytes)) = .ok leaf at serialized
        rw [serUint256_uint256FromStr (hash256.length_digest bytes)] at serialized
        exact (Except.ok.inj serialized).symm
      refine ⟨.cons ⟨bytes, wrote, isLeaf⟩ leavesTail, ?_⟩
      intro other member
      rcases List.mem_cons.mp member with here | there
      · subst here
        intro cached found other' wrote'
        rw [same] at found wrote'
        change tx.serializeWithoutWitness = .ok other' at wrote'
        rw [wrote] at wrote'
        cases wrote'
        cases found
        rfl
      · exact freshTail other there

/-! ## Ids without a cache -/

variable (hash256) in
/-- The id of a transaction, from its bytes alone. -/
def txid (tx : CTransaction) : Except PyError Bytes := do
  let bytes ← tx.serializeWithoutWitness
  pure (hash256 bytes)

variable (hash256) in
def txids : List CTransaction -> Except PyError (List Bytes)
  | [] => pure []
  | tx :: txs => do
      let leaf ← txid hash256 tx
      let leaves ← txids txs
      pure (leaf :: leaves)

theorem txids_uncached (txs : List CTransaction) :
    txids hash256 (txs.map CTransaction.uncached) = txids hash256 txs := by
  induction txs with
  | nil => rfl
  | cons tx txs inductionHypothesis =>
      rw [List.map_cons, txids, txids, inductionHypothesis]
      rfl

theorem txids_congr {txs txs' : List CTransaction}
    (same : txs.map CTransaction.uncached = txs'.map CTransaction.uncached) :
    txids hash256 txs = txids hash256 txs' := by
  rw [← txids_uncached, same, txids_uncached]

/-- The ids are the hashes of the transactions' bytes. -/
theorem txids_eq_ok {txs : List CTransaction} {leaves : List Bytes}
    (run : txids hash256 txs = .ok leaves) :
    Exists fun strings => txs.mapM CTransaction.serializeWithoutWitness = .ok strings ∧
      leaves = strings.map hash256 := by
  induction txs generalizing leaves with
  | nil =>
      cases run
      exact ⟨[], rfl, rfl⟩
  | cons tx txs inductionHypothesis =>
      simp only [txids, txid, bind_eq_ok] at run
      rcases run with ⟨leaf, ⟨bytes, wrote, hashed⟩, later, rest, assembled⟩
      cases hashed
      cases assembled
      rcases inductionHypothesis rest with ⟨strings, written, same⟩
      refine ⟨bytes :: strings, ?_, by rw [same, List.map_cons]⟩
      simp only [List.mapM_cons, wrote, written]
      rfl

theorem txids_of_isTxid {txs : List CTransaction} {leaves : List Bytes}
    (each : List.Forall₂ (IsTxid hash256) txs leaves) : txids hash256 txs = .ok leaves := by
  induction each with
  | nil => rfl
  | cons first _ inductionHypothesis =>
      rcases first with ⟨bytes, wrote, same⟩
      rw [txids, txid, wrote, inductionHypothesis, same]
      rfl

end Leaves

end Messages
end MutinyNet
