import MutinyNet.Messages.Block

namespace MutinyNet
namespace Messages

open Codec Python

/-!
# What `is_valid` checks

A transaction is valid if its amounts are possible amounts of money, and a block
if its hash meets its target, its transactions are valid and its Merkle root is
theirs.  All hashes come from the caches, so a stale cache can make a block look
valid that is not; with fresh ones `is_valid` says what the block itself says.
-/

def coin : Int := 100000000

namespace CTransaction

variable (hash256 : Hash256)

/-- No output has an impossible amount. -/
def InRange (self : CTransaction) : Prop :=
  forall out, out ∈ self.vout -> 0 ≤ out.nValue ∧ out.nValue ≤ 21000000 * coin

instance decidableInRange (self : CTransaction) : Decidable self.InRange :=
  inferInstanceAs (Decidable (forall out, out ∈ self.vout -> _))

/-- `is_valid`, with the cache it fills. -/
def isValid (self : CTransaction) : Except PyError (CTransaction × Bool) := do
  let self ← self.calcSha256 hash256
  pure (self, decide self.InRange)

end CTransaction

namespace CBlock

variable (hash256 : Hash256)

/-- The loop of `is_valid` over the transactions, which stops at the first one
that is not valid. -/
def validTransactions : List CTransaction -> Except PyError (List CTransaction × Bool)
  | [] => pure ([], true)
  | tx :: txs => do
      let (tx, valid) ← tx.isValid hash256
      if valid then do
        let (txs, valid) ← validTransactions txs
        pure (tx :: txs, valid)
      else pure (tx :: txs, false)

/-- `is_valid`, with the caches it fills. -/
def isValid (self : CBlock) : Except PyError (CBlock × Bool) := do
  let header ← self.toCBlockHeader.calcSha256 hash256
  let target ← uint256FromCompact header.nBits
  match header.sha256 with
  | none => .error .typeError
  | some sha256 =>
      if sha256 > target then pure ({ header with vtx := self.vtx }, false)
      else do
        let (vtx, valid) ← validTransactions hash256 self.vtx
        if valid then do
          let (block, root) ← ({ header with vtx } : CBlock).calcMerkleRoot hash256
          pure (block, decide (root = header.hashMerkleRoot))
        else pure ({ header with vtx }, false)

/-- What a block has to be, computed from its bytes alone. -/
structure Valid (block : CBlock) : Prop where
  work : Exists fun bytes => Exists fun target => block.toCBlockHeader.serialize = .ok bytes ∧
    uint256FromCompact block.nBits = .ok target ∧ uint256FromStr (hash256 bytes) ≤ target
  amounts : forall tx, tx ∈ block.vtx -> tx.InRange
  root : Exists fun leaves => txids hash256 block.vtx = .ok leaves ∧
    getMerkleRoot hash256 leaves = .ok block.hashMerkleRoot

/-- No cache of the block holds anything but the hash of what it belongs to. -/
structure Fresh (block : CBlock) : Prop where
  header : block.sha256 = none ∨ block.toCBlockHeader.Hashed hash256
  transactions : forall tx, tx ∈ block.vtx -> tx.FreshId hash256

variable {hash256}

/-! ## The header -/

theorem calcSha256_of_fresh {self : CBlockHeader} {bytes : Bytes}
    (fresh : self.sha256 = none ∨ self.Hashed hash256) (wrote : self.serialize = .ok bytes) :
    self.calcSha256 hash256 = .ok { self with
      sha256 := some (uint256FromStr (hash256 bytes))
      hash := some (CTransaction.displayHash hash256 bytes) } := by
  unfold CBlockHeader.calcSha256
  rcases fresh with empty | ⟨bytes', wrote', cached, shown⟩
  · rw [empty]
    dsimp only
    rw [wrote]
    rfl
  · rw [wrote] at wrote'
    cases wrote'
    rw [cached]
    dsimp only
    rw [← cached, ← shown]
    rfl

theorem serialize_of_calcSha256 {self result : CBlockHeader}
    (fresh : self.sha256 = none ∨ self.Hashed hash256)
    (run : self.calcSha256 hash256 = .ok result) :
    Exists fun bytes => self.serialize = .ok bytes := by
  rcases fresh with empty | ⟨bytes, wrote, -, -⟩
  · unfold CBlockHeader.calcSha256 at run
    rw [empty] at run
    rcases bind_eq_ok.mp run with ⟨bytes, wrote, -⟩
    exact ⟨bytes, wrote⟩
  · exact ⟨bytes, wrote⟩

/-! ## The transactions -/

theorem validTransactions_spec {txs txs' : List CTransaction}
    (fresh : forall tx, tx ∈ txs -> tx.FreshId hash256)
    (run : validTransactions hash256 txs = .ok (txs', true)) :
    (forall tx, tx ∈ txs -> tx.InRange) ∧ (forall tx, tx ∈ txs' -> tx.FreshId hash256) ∧
      txs'.map CTransaction.uncached = txs.map CTransaction.uncached := by
  induction txs generalizing txs' with
  | nil =>
      cases run
      refine ⟨?_, ?_, rfl⟩ <;> intro tx member <;> cases member
  | cons tx txs inductionHypothesis =>
      simp only [validTransactions, CTransaction.isValid, bind_assoc, pure_bind, bind_eq_ok] at run
      rcases run with ⟨hashed, refreshed, rest⟩
      rcases CTransaction.calcSha256_spec (fresh tx List.mem_cons_self) refreshed with
        ⟨bytes, wrote, same⟩
      split at rest
      · next inside =>
          rcases bind_eq_ok.mp rest with ⟨⟨later, valid⟩, behind, assembled⟩
          cases assembled
          have tail := inductionHypothesis
            (fun other member => fresh other (List.mem_cons_of_mem tx member)) behind
          have amounts : hashed.InRange := of_decide_eq_true inside
          refine ⟨?_, ?_, ?_⟩
          · intro other member
            rcases List.mem_cons.mp member with here | there
            · rw [same] at amounts
              rw [here]
              exact amounts
            · exact tail.1 other there
          · intro other member
            rcases List.mem_cons.mp member with here | there
            · rw [here]
              intro cached found bytes' wrote'
              rw [same] at found wrote'
              change tx.serializeWithoutWitness = .ok bytes' at wrote'
              rw [wrote] at wrote'
              cases wrote'
              cases found
              rfl
            · exact tail.2.1 other there
          · rw [List.map_cons, List.map_cons, tail.2.2, CTransaction.calcSha256_uncached refreshed]
      · cases rest

/-- Transactions that have ids are valid if their amounts are. -/
theorem validTransactions_of_inRange {txs : List CTransaction} {leaves : List Bytes}
    (fresh : forall tx, tx ∈ txs -> tx.FreshId hash256)
    (ids : txids hash256 txs = .ok leaves) (inside : forall tx, tx ∈ txs -> tx.InRange) :
    Exists fun txs' => validTransactions hash256 txs = .ok (txs', true) := by
  induction txs generalizing leaves with
  | nil => exact ⟨[], rfl⟩
  | cons tx txs inductionHypothesis =>
      simp only [txids, txid, bind_eq_ok] at ids
      rcases ids with ⟨leaf, ⟨bytes, wrote, -⟩, later, rest, -⟩
      rcases inductionHypothesis
        (fun other member => fresh other (List.mem_cons_of_mem tx member)) rest
        (fun other member => inside other (List.mem_cons_of_mem tx member)) with ⟨txs', run⟩
      have refreshed : Exists fun hashed => tx.calcSha256 hash256 = .ok hashed := by
        unfold CTransaction.calcSha256
        rw [wrote]
        exact ⟨_, rfl⟩
      rcases refreshed with ⟨hashed, refreshed⟩
      rcases CTransaction.calcSha256_spec (fresh tx List.mem_cons_self) refreshed with
        ⟨_, -, same⟩
      have amounts : hashed.InRange := by
        rw [same]
        exact inside tx List.mem_cons_self
      refine ⟨hashed :: txs', ?_⟩
      simp only [validTransactions, CTransaction.isValid, bind, Except.bind, refreshed, pure,
        Except.pure, decide_eq_true amounts, if_true, run]

/-- The loop over the ids finds the ids, if the caches are fresh. -/
theorem txidLeaves_of_txids {txs : List CTransaction} {leaves : List Bytes}
    (fresh : forall tx, tx ∈ txs -> tx.FreshId hash256)
    (ids : txids hash256 txs = .ok leaves) :
    Exists fun txs' => txidLeaves (CTransaction.calcSha256 hash256) txs = .ok (txs', leaves) := by
  induction txs generalizing leaves with
  | nil =>
      cases ids
      exact ⟨[], rfl⟩
  | cons tx txs inductionHypothesis =>
      simp only [txids, txid, bind_eq_ok] at ids
      rcases ids with ⟨leaf, ⟨bytes, wrote, hashed⟩, later, rest, assembled⟩
      cases hashed
      cases assembled
      rcases inductionHypothesis
        (fun other member => fresh other (List.mem_cons_of_mem tx member)) rest with ⟨txs', run⟩
      have refreshed : Exists fun hashed => tx.calcSha256 hash256 = .ok hashed := by
        unfold CTransaction.calcSha256
        rw [wrote]
        exact ⟨_, rfl⟩
      rcases refreshed with ⟨hashed, refreshed⟩
      rcases CTransaction.calcSha256_spec (fresh tx List.mem_cons_self) refreshed with
        ⟨bytes', wrote', same⟩
      rw [wrote] at wrote'
      cases wrote'
      have leaf : hashed.serSha256 = .ok (hash256 bytes) := by
        rw [same]
        exact serUint256_uint256FromStr (hash256.length_digest bytes)
      refine ⟨hashed :: txs', ?_⟩
      simp only [txidLeaves, bind, Except.bind, refreshed, leaf, run, pure, Except.pure]

/-! ## The block -/

/-- With fresh caches, `is_valid` returns true exactly for valid blocks. -/
theorem isValid_iff {self : CBlock} (fresh : self.Fresh hash256) :
    (Exists fun result => self.isValid hash256 = .ok (result, true)) <->
      self.Valid hash256 := by
  constructor
  · rintro ⟨result, run⟩
    simp only [isValid, bind_eq_ok] at run
    rcases run with ⟨header, hashed, target, decoded, rest⟩
    rcases serialize_of_calcSha256 fresh.header hashed with ⟨bytes, wrote⟩
    rw [calcSha256_of_fresh fresh.header wrote] at hashed
    cases hashed
    dsimp only at decoded rest
    split at rest
    · cases rest
    · next small =>
        rcases bind_eq_ok.mp rest with ⟨⟨vtx, valid⟩, checked, rest⟩
        dsimp only at rest
        split at rest
        · next all =>
            rw [all] at checked
            have spec := validTransactions_spec fresh.transactions checked
            rcases bind_eq_ok.mp rest with ⟨⟨block, root⟩, merkle, assembled⟩
            rcases calcMerkleRoot_spec spec.2.1 merkle with ⟨leaves, ids, computed⟩
            have same : root = self.hashMerkleRoot :=
              of_decide_eq_true (Prod.mk.inj (Except.ok.inj assembled)).2
            exact
              { work := ⟨bytes, target, wrote, decoded, not_lt.mp small⟩
                amounts := spec.1
                root := ⟨leaves, txids_congr spec.2.2 ▸ ids, same ▸ computed⟩ }
        · cases rest
  · rintro ⟨⟨bytes, target, wrote, decoded, small⟩, amounts, ⟨leaves, ids, computed⟩⟩
    rcases validTransactions_of_inRange fresh.transactions ids amounts with ⟨vtx, checked⟩
    have spec := validTransactions_spec fresh.transactions checked
    rw [← txids_congr spec.2.2] at ids
    rcases txidLeaves_of_txids spec.2.1 ids with ⟨vtx', leavesRun⟩
    simp only [isValid, calcSha256_of_fresh fresh.header wrote, bind, Except.bind, decoded,
      gt_iff_lt, not_lt.mpr small, if_false, checked, if_true, calcMerkleRoot, leavesRun, computed,
      pure, Except.pure, decide_true]
    exact ⟨_, rfl⟩

end CBlock

end Messages
end MutinyNet
