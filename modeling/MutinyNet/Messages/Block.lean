import MutinyNet.Messages.TransactionId

namespace MutinyNet
namespace Messages

open Codec Python Hashing

/-!
# Block headers, blocks, Merkle roots and proof of work
-/

structure CBlockHeader where
  nVersion : Int := 4
  hashPrevBlock : Int := 0
  hashMerkleRoot : Int := 0
  nTime : Int := 0
  nBits : Int := 0
  nNonce : Int := 0
  sha256 : Option Int := none
  hash : Option String := none
  deriving DecidableEq, Repr

namespace CBlockHeader

def deserialize : Stream CBlockHeader := do
  let nVersion ← readInt 4 true
  let hashPrevBlock ← deserUint256
  let hashMerkleRoot ← deserUint256
  let nTime ← readInt 4 false
  let nBits ← readInt 4 false
  let nNonce ← readInt 4 false
  pure { nVersion, hashPrevBlock, hashMerkleRoot, nTime, nBits, nNonce }

def serialize (self : CBlockHeader) : Except PyError Bytes := do
  let nVersion ← intToBytes 4 true self.nVersion
  let hashPrevBlock ← serUint256 self.hashPrevBlock
  let hashMerkleRoot ← serUint256 self.hashMerkleRoot
  let nTime ← intToBytes 4 false self.nTime
  let nBits ← intToBytes 4 false self.nBits
  let nNonce ← intToBytes 4 false self.nNonce
  pure (nVersion ++ (hashPrevBlock ++ (hashMerkleRoot ++ (nTime ++ (nBits ++ nNonce)))))

def uncached (self : CBlockHeader) : CBlockHeader :=
  { self with sha256 := none, hash := none }

theorem readsBack_deserialize {self : CBlockHeader} {bytes : Bytes}
    (wrote : self.serialize = .ok bytes) : ReadsBack deserialize bytes self.uncached := by
  simp only [serialize, bind_eq_ok] at wrote
  rcases wrote with ⟨nVersion, first, hashPrevBlock, second, hashMerkleRoot, third, nTime, fourth,
    nBits, fifth, nNonce, sixth, assembled⟩
  cases assembled
  exact (readsBack_readInt first).bind ((readsBack_readInt second).bind
    ((readsBack_readInt third).bind ((readsBack_readInt fourth).bind
      ((readsBack_readInt fifth).bind ((readsBack_readInt sixth).last fun nNonce =>
        ({ self.uncached with nNonce } : CBlockHeader))))))

theorem length_serialize {self : CBlockHeader} {bytes : Bytes}
    (wrote : self.serialize = .ok bytes) : bytes.length = 80 := by
  simp only [serialize, bind_eq_ok] at wrote
  rcases wrote with ⟨nVersion, first, hashPrevBlock, second, hashMerkleRoot, third, nTime, fourth,
    nBits, fifth, nNonce, sixth, assembled⟩
  cases assembled
  simp only [List.length_append, length_of_intToBytes first, length_of_intToBytes second,
    length_of_intToBytes third, length_of_intToBytes fourth, length_of_intToBytes fifth,
    length_of_intToBytes sixth]

variable (hash256 : Hash256)

/-- `calc_sha256`: nothing happens when the cache is filled. -/
def calcSha256 (self : CBlockHeader) : Except PyError CBlockHeader :=
  match self.sha256 with
  | some _ => pure self
  | none => do
      let r ← self.serialize
      pure { self with
        sha256 := some (uint256FromStr (hash256 r))
        hash := some (CTransaction.displayHash hash256 r) }

def rehash (self : CBlockHeader) : Except PyError CBlockHeader :=
  { self with sha256 := none }.calcSha256 hash256

variable {hash256}

variable (hash256) in
/-- Both caches hold the hash of the header as it is. -/
def Hashed (self : CBlockHeader) : Prop :=
  Exists fun bytes => self.serialize = .ok bytes ∧
    self.sha256 = some (uint256FromStr (hash256 bytes)) ∧
    self.hash = some (CTransaction.displayHash hash256 bytes)

theorem rehash_spec {self result : CBlockHeader} (run : self.rehash hash256 = .ok result) :
    Exists fun bytes => self.serialize = .ok bytes ∧
      result = { self with
        sha256 := some (uint256FromStr (hash256 bytes))
        hash := some (CTransaction.displayHash hash256 bytes) } := by
  rcases bind_eq_ok.mp run with ⟨bytes, wrote, assembled⟩
  cases assembled
  exact ⟨bytes, wrote, rfl⟩

end CBlockHeader

structure CBlock extends CBlockHeader where
  vtx : List CTransaction := []
  deriving DecidableEq, Repr

/-- `get_merkle_root`; an empty list has no first hash to return. -/
def getMerkleRoot (hash256 : Hash256) (hashes : List Bytes) : Except PyError Int :=
  match MerkleTree.root (MerkleTree.joined hash256) hashes with
  | some root => .ok (uint256FromStr root)
  | none => .error .indexError

/-- Equal roots over equally many hashes come from equal hashes, or from a
collision among the strings hashed on the way. -/
theorem getMerkleRoot_binding {hash256 : Hash256} {leaves leaves' : List Bytes} {root : Int}
    (lengths : leaves.length = leaves'.length)
    (full : forall leaf, leaf ∈ leaves -> leaf.length = 32)
    (full' : forall leaf, leaf ∈ leaves' -> leaf.length = 32)
    (first : getMerkleRoot hash256 leaves = .ok root)
    (second : getMerkleRoot hash256 leaves' = .ok root) :
    leaves = leaves' ∨ Collision hash256 (MerkleTree.strings hash256 leaves)
      (MerkleTree.strings hash256 leaves') := by
  unfold getMerkleRoot at first second
  split at first
  · next value found =>
      split at second
      · next value' found' =>
          have kept : forall left right, (MerkleTree.joined hash256 left right).length = 32 :=
            fun left right => hash256.length_digest (left ++ right)
          have wide := MerkleTree.root_kind kept full found
          have wide' := MerkleTree.root_kind kept full' found'
          cases first
          have same := uint256FromStr_injective wide' wide (Except.ok.inj second)
          rw [same] at found'
          exact MerkleTree.strings_binding hash256.length_digest lengths full full' found found'
      · cases second
  · cases first

/-- `uint256_from_compact`; Python refuses to shift by a negative count. -/
def uint256FromCompact (c : Int) : Except PyError Int :=
  let nbytes := (c / 2 ^ 24) % 256
  if nbytes < 3 then .error (.valueError "negative shift count")
  else .ok ((c % 2 ^ 24) * 2 ^ (8 * (nbytes - 3)).toNat)

namespace CBlock

def deserialize : Stream CBlock := do
  let header ← CBlockHeader.deserialize
  let vtx ← deserVector CTransaction.deserialize
  pure { header with vtx }

/-- `serialize(with_witness=True)`. -/
def serialize (self : CBlock) : Except PyError Bytes := do
  let header ← self.toCBlockHeader.serialize
  let vtx ← serVector CTransaction.serializeWithWitness self.vtx
  pure (header ++ vtx)

def uncached (self : CBlock) : CBlock :=
  { self.toCBlockHeader.uncached with vtx := self.vtx.map CTransaction.uncached }

theorem uncached_uncached (self : CBlock) : self.uncached.uncached = self.uncached := by
  have transactions : (self.vtx.map CTransaction.uncached).map CTransaction.uncached =
      self.vtx.map CTransaction.uncached := by
    rw [List.map_map]
    rfl
  rw [uncached, uncached, transactions]
  rfl

theorem serialize_eq_ok {self : CBlock} {bytes : Bytes} :
    self.serialize = .ok bytes <->
      Exists fun header => Exists fun vtx => self.toCBlockHeader.serialize = .ok header ∧
        serVector CTransaction.serializeWithWitness self.vtx = .ok vtx ∧
        bytes = header ++ vtx := by
  unfold serialize
  simp only [bind_eq_ok]
  constructor
  · rintro ⟨header, first, vtx, second, assembled⟩
    cases assembled
    exact ⟨header, vtx, first, second, rfl⟩
  · rintro ⟨header, vtx, first, second, assembled⟩
    exact ⟨header, first, vtx, second, assembled ▸ rfl⟩

theorem serialize_uncached (self : CBlock) : self.uncached.serialize = self.serialize := by
  have transactions := writeMany_map CTransaction.serializeWithWitness_uncached self.vtx
  simp only [serialize, serVector, uncached, List.length_map, transactions]
  rfl

/-- The format of a block does not look at any cache. -/
theorem serialize_congr {self other : CBlock} (same : self.uncached = other.uncached) :
    self.serialize = other.serialize := by
  rw [← serialize_uncached, same, serialize_uncached]

def Readable (self : CBlock) : Prop :=
  forall tx, tx ∈ self.vtx -> tx.Readable

theorem Readable.congr {self other : CBlock} (readable : self.Readable)
    (same : self.uncached = other.uncached) : other.Readable := by
  intro tx member
  have inside : tx.uncached ∈ self.uncached.vtx := by
    rw [same]
    exact List.mem_map_of_mem member
  rcases List.mem_map.mp inside with ⟨tx', member', sameTx⟩
  exact (readable tx' member').congr sameTx

/-- A block of transactions that survive their own format is read back with
empty caches and nothing else changed. -/
theorem readsBack_deserialize {self : CBlock} {bytes : Bytes}
    (each : self.Readable) (wrote : self.serialize = .ok bytes) : ReadsBack deserialize bytes self.uncached := by
  rcases serialize_eq_ok.mp wrote with ⟨header, vtx, first, second, assembled⟩
  subst assembled
  refine (CBlockHeader.readsBack_deserialize first).bind ?_
  have items : forall tx, tx ∈ self.vtx -> forall written,
      CTransaction.serializeWithWitness tx = .ok written ->
        ReadsBack CTransaction.deserialize written tx.uncached :=
    fun tx member _ written =>
      (each tx member).2 ▸ CTransaction.readsBack_deserialize (each tx member).1 written
  have read := readsBack_deserVector items second
  exact read.last fun vtx => ({ self.toCBlockHeader.uncached with vtx } : CBlock)

/-- Whatever the transactions are, a parsed block starts with the header that
was written. -/
theorem header_of_run {header rest left : Bytes} {self : CBlockHeader} {block : CBlock}
    (wrote : self.serialize = .ok header)
    (run : deserialize.run (header ++ rest) = .ok (block, left)) :
    block.toCBlockHeader = self.uncached := by
  have parsed := CBlockHeader.readsBack_deserialize wrote rest
  rw [deserialize, StateT.run_bind, parsed] at run
  change ((deserVector CTransaction.deserialize).run rest >>= fun result =>
    Except.ok (({ self.uncached with vtx := result.1 } : CBlock), result.2)) = _ at run
  rcases bind_eq_ok.mp run with ⟨result, -, assembled⟩
  cases assembled
  rfl

/-- The first 80 bytes of a serialized block are its header. -/
theorem serialize_header {self : CBlock} {bytes : Bytes} (wrote : self.serialize = .ok bytes) :
    self.toCBlockHeader.serialize = .ok (bytes.take 80) := by
  rcases serialize_eq_ok.mp wrote with ⟨header, vtx, first, second, assembled⟩
  rw [assembled, List.take_append_of_le_length (by rw [CBlockHeader.length_serialize first]),
    List.take_of_length_le (by rw [CBlockHeader.length_serialize first])]
  exact first

variable (hash256 : Hash256)

def rehash (self : CBlock) : Except PyError CBlock := do
  let header ← self.toCBlockHeader.rehash hash256
  pure { header with vtx := self.vtx }

/-- `calc_merkle_root`, with the caches it fills on the way. -/
def calcMerkleRoot (self : CBlock) : Except PyError (CBlock × Int) := do
  let (vtx, hashes) ← txidLeaves (CTransaction.calcSha256 hash256) self.vtx
  let root ← getMerkleRoot hash256 hashes
  pure ({ self with vtx }, root)

/-- The hashes of the transactions with their witnesses. -/
def witnessLeaves : List CTransaction -> Except PyError (List Bytes)
  | [] => pure []
  | tx :: txs => do
      let sha256 ← tx.calcSha256WithWitness hash256
      let leaf ← serUint256 sha256
      let leaves ← witnessLeaves txs
      pure (leaf :: leaves)

/-- The hashes are those of the transactions' bytes. -/
theorem witnessLeaves_eq_ok {txs : List CTransaction} {leaves : List Bytes}
    (run : witnessLeaves hash256 txs = .ok leaves) :
    Exists fun strings => txs.mapM CTransaction.serializeWithWitness = .ok strings ∧
      leaves = strings.map hash256 := by
  induction txs generalizing leaves with
  | nil =>
      cases run
      exact ⟨[], rfl, rfl⟩
  | cons tx txs inductionHypothesis =>
      simp only [witnessLeaves, CTransaction.calcSha256WithWitness, bind_eq_ok] at run
      rcases run with ⟨sha256, ⟨bytes, wrote, hashed⟩, leaf, written, later, rest, assembled⟩
      cases hashed
      cases assembled
      rw [serUint256_uint256FromStr (hash256.length_digest bytes)] at written
      cases written
      rcases inductionHypothesis rest with ⟨strings, writtenAll, same⟩
      refine ⟨bytes :: strings, ?_, by rw [same, List.map_cons]⟩
      simp only [List.mapM_cons, wrote, writtenAll]
      rfl

theorem witnessLeaves_uncached (txs : List CTransaction) :
    witnessLeaves hash256 (txs.map CTransaction.uncached) = witnessLeaves hash256 txs := by
  induction txs with
  | nil => rfl
  | cons tx txs inductionHypothesis =>
      rw [List.map_cons, witnessLeaves, witnessLeaves, inductionHypothesis]
      rfl

/-- `calc_witness_merkle_root`: the coinbase counts as zero. -/
def calcWitnessMerkleRoot (self : CBlock) : Except PyError Int := do
  let coinbase ← serUint256 0
  let hashes ← witnessLeaves hash256 self.vtx.tail
  getMerkleRoot hash256 (coinbase :: hashes)

/-- The witness root looks at the transactions behind the coinbase only, and not
at their caches. -/
theorem calcWitnessMerkleRoot_congr {self other : CBlock}
    (same : self.vtx.tail.map CTransaction.uncached = other.vtx.tail.map CTransaction.uncached) :
    self.calcWitnessMerkleRoot hash256 = other.calcWitnessMerkleRoot hash256 := by
  rw [calcWitnessMerkleRoot, calcWitnessMerkleRoot, ← witnessLeaves_uncached, same,
    witnessLeaves_uncached]

/-- The search loop of `solve`.  A nonce of 2^32 does not serialize, so the
loop ends by an exception at the latest there. -/
def solveLoop (target : Int) : Nat -> CBlock -> Except PyError CBlock
  | 0, _ => .error .overflowError
  | fuel + 1, self =>
      match self.sha256 with
      | none => .error .typeError
      | some sha256 =>
          if sha256 > target then do
            let next ← { self with nNonce := self.nNonce + 1 }.rehash hash256
            solveLoop target fuel next
          else pure self

def solve (self : CBlock) : Except PyError CBlock := do
  let self ← self.rehash hash256
  let target ← uint256FromCompact self.nBits
  self.solveLoop hash256 target ((2 ^ 32 - self.nNonce).toNat + 1)

variable {hash256}

/-- `result` is `self` up to the nonce and the cached hashes. -/
def SameButProof (self result : CBlock) : Prop :=
  Exists fun nNonce => Exists fun sha256 => Exists fun hash =>
    result = { self with nNonce, sha256, hash }

theorem SameButProof.trans {self middle result : CBlock} (first : SameButProof self middle)
    (second : SameButProof middle result) : SameButProof self result := by
  rcases first with ⟨_, _, _, rfl⟩
  rcases second with ⟨nNonce, sha256, hash, rfl⟩
  exact ⟨nNonce, sha256, hash, rfl⟩

theorem rehash_spec {self result : CBlock} (run : self.rehash hash256 = .ok result) :
    result.toCBlockHeader.Hashed hash256 ∧ SameButProof self result := by
  rcases bind_eq_ok.mp run with ⟨header, hashed, assembled⟩
  cases assembled
  rcases CBlockHeader.rehash_spec hashed with ⟨bytes, wrote, same⟩
  rw [same]
  exact ⟨⟨bytes, wrote, rfl, rfl⟩, self.nNonce, _, _, rfl⟩

/-- Trying another nonce changes the proof only. -/
theorem rehash_nonce_spec {self result : CBlock} {nNonce : Int}
    (run : { self with nNonce }.rehash hash256 = .ok result) :
    result.toCBlockHeader.Hashed hash256 ∧ SameButProof self result := by
  have spec := rehash_spec run
  have changed : SameButProof self { self with nNonce } := ⟨nNonce, self.sha256, self.hash, rfl⟩
  exact ⟨spec.1, changed.trans spec.2⟩

/-- The search ends at a hash of the header as it is then, which meets the
target. -/
theorem solveLoop_spec {target : Int} {fuel : Nat} {self result : CBlock}
    (hashed : self.toCBlockHeader.Hashed hash256)
    (run : self.solveLoop hash256 target fuel = .ok result) :
    result.toCBlockHeader.Hashed hash256 ∧ SameButProof self result ∧
      forall sha256, result.sha256 = some sha256 -> sha256 ≤ target := by
  induction fuel generalizing self with
  | zero => cases run
  | succ fuel inductionHypothesis =>
      rcases hashed with ⟨bytes, wrote, cached, displayed⟩
      rw [solveLoop, cached] at run
      dsimp only at run
      split at run
      · rcases bind_eq_ok.mp run with ⟨next, rehashed, rest⟩
        have step := rehash_nonce_spec rehashed
        have later := inductionHypothesis step.1 rest
        exact ⟨later.1, step.2.trans later.2.1, later.2.2⟩
      · next small =>
          have same : self = result := Except.ok.inj run
          rw [← same]
          refine ⟨⟨bytes, wrote, cached, displayed⟩, ⟨self.nNonce, self.sha256, self.hash, rfl⟩, ?_⟩
          intro sha256 found
          rw [cached] at found
          cases found
          omega

theorem solve_spec {self result : CBlock} (run : self.solve hash256 = .ok result) :
    result.toCBlockHeader.Hashed hash256 ∧ SameButProof self result ∧
      Exists fun target => uint256FromCompact self.nBits = .ok target ∧
        forall sha256, result.sha256 = some sha256 -> sha256 ≤ target := by
  simp only [solve, bind_eq_ok] at run
  rcases run with ⟨start, rehashed, target, decoded, rest⟩
  have first := rehash_spec rehashed
  have later := solveLoop_spec first.1 rest
  have bits : start.nBits = self.nBits := by
    rcases first.2 with ⟨_, _, _, rfl⟩
    rfl
  exact ⟨later.1, first.2.trans later.2.1, target, bits ▸ decoded, later.2.2⟩

theorem calcMerkleRoot_uncached {self result : CBlock} {root : Int}
    (run : self.calcMerkleRoot hash256 = .ok (result, root)) :
    result.toCBlockHeader = self.toCBlockHeader ∧ result.uncached = self.uncached := by
  simp only [calcMerkleRoot, bind_eq_ok] at run
  rcases run with ⟨⟨vtx, hashes⟩, hashed, root', -, assembled⟩
  cases assembled
  refine ⟨rfl, ?_⟩
  have unchanged := txidLeaves_uncached
    (fun _ _ refreshed => CTransaction.calcSha256_uncached refreshed) hashed
  simp only [uncached, unchanged]

/-- With fresh caches the root is the one over the ids of the transactions. -/
theorem calcMerkleRoot_spec {self result : CBlock} {root : Int}
    (fresh : forall tx, tx ∈ self.vtx -> tx.FreshId hash256)
    (run : self.calcMerkleRoot hash256 = .ok (result, root)) :
    Exists fun leaves => txids hash256 self.vtx = .ok leaves ∧
      getMerkleRoot hash256 leaves = .ok root := by
  simp only [calcMerkleRoot, bind_eq_ok] at run
  rcases run with ⟨⟨vtx, leaves⟩, hashed, root', rooted, assembled⟩
  cases assembled
  have spec := txidLeaves_spec
    (fun tx member => refreshes_calcSha256 (fresh tx member)) hashed
  exact ⟨leaves, txids_of_isTxid spec.1, rooted⟩

end CBlock

end Messages
end MutinyNet
