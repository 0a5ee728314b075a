import MutinyNet.Miner.Handoff

namespace MutinyNet
namespace Miner

open Codec Python Messages

/-!
# What a successful finish says about the block

`finishBlock` pushes the signature behind the commitment of the coinbase,
refreshes that transaction's id, recomputes the Merkle root from the cached
ids, and finds a proof of work on one of two paths.  Both paths change the
nonce and the header's own caches and nothing else, so one inversion serves
them both.
-/

variable (hash256 : Hash256)

/-- The values `finishBlock` computes on the way: the coinbase with the
signature, the transactions behind it, and the block before the proof. -/
structure FinishOf (run : RunCommand) (grindCmd : Option String) (block : CBlock)
    (signetSolution : Bytes) (result : CBlock) (signed : CTransaction)
    (rest : List CTransaction) (middle : CBlock) : Prop where
  coinbase : Exists fun coinbase => Exists fun push => block.vtx = coinbase :: rest ∧
    encodeOpPushdata (signetHeader ++ signetSolution) = .ok push ∧
    appendToLastOutput coinbase push = .ok signed
  root : Exists fun hashed => Exists fun rooted => Exists fun root =>
    signed.rehash hash256 = .ok hashed ∧
      { block with vtx := hashed :: rest }.calcMerkleRoot hash256 = .ok (rooted, root) ∧
      middle = { rooted with hashMerkleRoot := root }
  work : proveWork hash256 run grindCmd middle = .ok result

variable {hash256} {run : RunCommand} {block result : CBlock} {signetSolution : Bytes}
  {grindCmd : Option String}

/-- Either path leaves the block as it was, with a hashed header. -/
theorem proveWork_spec (proof : proveWork hash256 run grindCmd block = .ok result) :
    CBlock.SameButProof block result ∧ result.toCBlockHeader.Hashed hash256 := by
  cases grindCmd with
  | none =>
      have spec := CBlock.solve_spec proof
      exact ⟨spec.2.1, spec.1⟩
  | some grindCmd =>
      simp only [proveWork, bind_eq_ok] at proof
      rcases proof with ⟨head, wrote, newheadhex, ran, bytes, decoded, newhead, parsed, rehashed⟩
      have spec := CBlock.rehash_nonce_spec rehashed
      exact ⟨spec.2, spec.1⟩

theorem finishOf_finishBlock
    (finished : finishBlock hash256 run block signetSolution grindCmd = .ok result) :
    Exists fun signed => Exists fun rest => Exists fun middle =>
      FinishOf hash256 run grindCmd block signetSolution result signed rest middle := by
  unfold finishBlock at finished
  cases shape : block.vtx with
  | nil =>
      rw [shape] at finished
      cases finished
  | cons coinbase rest =>
      rw [shape] at finished
      simp only [bind_eq_ok] at finished
      rcases finished with ⟨push, pushed, signed, appended, hashed, refreshed, ⟨rooted, root⟩,
        merkle, work⟩
      exact ⟨signed, rest, { rooted with hashMerkleRoot := root },
        ⟨coinbase, push, shape, pushed, appended⟩, ⟨hashed, rooted, root, refreshed, merkle, rfl⟩,
        work⟩

variable {signed : CTransaction} {rest : List CTransaction} {middle : CBlock}

theorem FinishOf.proof
    (finish : FinishOf hash256 run grindCmd block signetSolution result signed rest middle) :
    CBlock.SameButProof middle result :=
  (proveWork_spec finish.work).1

/-- The finished block keeps the header fields the signature covers, and the
compact target. -/
theorem FinishOf.header
    (finish : FinishOf hash256 run grindCmd block signetSolution result signed rest middle) :
    result.nVersion = block.nVersion ∧ result.hashPrevBlock = block.hashPrevBlock ∧
      result.nTime = block.nTime ∧ result.nBits = block.nBits := by
  rcases finish.root with ⟨hashed, rooted, root, -, merkle, rfl⟩
  have same := (CBlock.calcMerkleRoot_uncached merkle).1
  rcases finish.proof with ⟨_, _, _, rfl⟩
  change rooted.nVersion = _ ∧ rooted.hashPrevBlock = _ ∧ rooted.nTime = _ ∧ rooted.nBits = _
  rw [same]
  exact ⟨rfl, rfl, rfl, rfl⟩

/-- The finished block has the signed coinbase and the other transactions of
the block. -/
theorem FinishOf.transactions
    (finish : FinishOf hash256 run grindCmd block signetSolution result signed rest middle) :
    result.vtx.map CTransaction.uncached = (signed :: rest).map CTransaction.uncached := by
  rcases finish.root with ⟨hashed, rooted, root, refreshed, merkle, rfl⟩
  have same := congrArg CBlock.vtx (CBlock.calcMerkleRoot_uncached merkle).2
  rcases finish.proof with ⟨_, _, _, rfl⟩
  change rooted.vtx.map CTransaction.uncached = _
  rw [List.map_cons, ← CTransaction.rehash_uncached refreshed]
  exact same

/-! ## The coinbase of an assembled block -/

/-- Neither the caches of a transaction nor those of its result matter to what
is appended. -/
theorem appendToLastOutput_uncached (tx : CTransaction) (suffix : Bytes) :
    appendToLastOutput tx.uncached suffix =
      (appendToLastOutput tx suffix).map CTransaction.uncached := by
  simp only [appendToLastOutput, CTransaction.uncached_vout]
  cases tx.vout.getLast? with
  | none => rfl
  | some out => rfl

theorem appendToLastOutput_congr {tx tx' signed signed' : CTransaction} {suffix : Bytes}
    (same : tx.uncached = tx'.uncached) (appended : appendToLastOutput tx suffix = .ok signed)
    (appended' : appendToLastOutput tx' suffix = .ok signed') :
    signed.uncached = signed'.uncached := by
  have first := appendToLastOutput_uncached tx suffix
  rw [same, appendToLastOutput_uncached, appended, appended'] at first
  exact (Except.ok.inj first).symm

variable {tmpl : BlockTemplate} {rewardSpk : Bytes} {blocktime nversion : Option Int}
  {poolid : Option Bytes} {assembled : CBlock} {draft : Draft}

/-- A block that is the assembled one up to caches, taken apart. -/
theorem DraftOf.vtx_of_same
    (drafted : DraftOf hash256 tmpl rewardSpk blocktime poolid nversion assembled draft)
    (same : block.uncached = assembled.uncached) {coinbase : CTransaction}
    (shape : block.vtx = coinbase :: rest) :
    coinbase.uncached = draft.committed.uncached ∧
      rest.map CTransaction.uncached = draft.txs.map CTransaction.uncached := by
  have lists := congrArg CBlock.vtx same
  rw [drafted.block] at lists
  simp only [CBlock.uncached, shape, List.map_cons] at lists
  exact List.cons.inj lists

/-- The same for its header. -/
theorem DraftOf.header_of_same
    (drafted : DraftOf hash256 tmpl rewardSpk blocktime poolid nversion assembled draft)
    (same : block.uncached = assembled.uncached) :
    block.nVersion = nversion.getD tmpl.version ∧ block.hashPrevBlock = draft.hashPrevBlock ∧
      block.nTime = blockTime tmpl blocktime ∧ block.nBits = draft.nBits := by
  have version := congrArg (fun block : CBlock => block.nVersion) same
  have previous := congrArg (fun block : CBlock => block.hashPrevBlock) same
  have time := congrArg (fun block : CBlock => block.nTime) same
  have bits := congrArg (fun block : CBlock => block.nBits) same
  rw [drafted.block] at version previous time bits
  exact ⟨version, previous, time, bits⟩

/-- The finished coinbase is the committed one with the signature pushed behind
the commitment. -/
theorem FinishOf.coinbase_uncached
    (finish : FinishOf hash256 run grindCmd block signetSolution result signed rest middle)
    (drafted : DraftOf hash256 tmpl rewardSpk blocktime poolid nversion assembled draft)
    (same : block.uncached = assembled.uncached) :
    Exists fun push => encodeOpPushdata (signetHeader ++ signetSolution) = .ok push ∧
      signed.uncached =
        (withCommitment draft.coinbase zeroNonce (draft.script ++ push)).uncached := by
  rcases finish.coinbase with ⟨coinbase, push, shape, pushed, appended⟩
  have first := (drafted.vtx_of_same same shape).1
  exact ⟨push, pushed, appendToLastOutput_congr first appended
    (appendToLastOutput_withCommitment draft.coinbase zeroNonce draft.script push)⟩

/-- The command runner of a sample without a grind command. -/
def noCommand : RunCommand := fun _ => .error .calledProcessError

end Miner
end MutinyNet
