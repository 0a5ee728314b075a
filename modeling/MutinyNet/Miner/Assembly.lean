import MutinyNet.Miner.Template

namespace MutinyNet
namespace Miner

open Codec Python Messages

/-!
# What a successful assembly says about the block

`assembleBlock` and `signetTxs` are straight sequences of steps that may raise.
Each is inverted once here: a block that came out of `assembleBlock` has a
`Draft` with every intermediate value, and a pair that came out of `signetTxs`
was built from the coinbase with the signet header pushed behind it.  Nothing
later unfolds the two functions again.
-/

/-- The witness nonce, as it stands in the coinbase and under the commitment. -/
def zeroNonce : Bytes := List.replicate 32 0

theorem serUint256_zero : serUint256 0 = .ok zeroNonce := by
  decide +kernel

/-- The values `assembleBlock` computes on the way to the block. -/
structure Draft where
  scriptSig : Bytes
  coinbase : CTransaction
  hashPrevBlock : Int
  nBits : Int
  txs : List CTransaction
  witroot : Int
  script : Bytes

namespace Draft

/-- The block whose witness root is taken: the coinbase has no commitment yet. -/
def uncommitted (draft : Draft) (tmpl : BlockTemplate) (blocktime nversion : Option Int) :
    CBlock where
  nVersion := nversion.getD tmpl.version
  hashPrevBlock := draft.hashPrevBlock
  nTime := blockTime tmpl blocktime
  nBits := draft.nBits
  nNonce := 0
  vtx := draft.coinbase :: draft.txs

/-- The coinbase with its witness and the output that commits to the root. -/
def committed (draft : Draft) : CTransaction :=
  withCommitment draft.coinbase zeroNonce draft.script

end Draft

variable (hash256 : Hash256)

/-- The draft of a block that was assembled successfully. -/
structure DraftOf (tmpl : BlockTemplate) (rewardSpk : Bytes) (blocktime : Option Int)
    (poolid : Option Bytes) (nversion : Option Int) (block : CBlock) (draft : Draft) : Prop where
  scriptSig : coinbaseScriptSig tmpl.height poolid = .ok draft.scriptSig
  coinbase : (rewardCoinbase tmpl rewardSpk draft.scriptSig).rehash hash256 = .ok draft.coinbase
  hashPrevBlock : intFromHex tmpl.previousblockhash = .ok draft.hashPrevBlock
  nBits : intFromHex tmpl.bits = .ok draft.nBits
  txs : tmpl.transactions.mapM txFromHex = .ok draft.txs
  witroot : (draft.uncommitted tmpl blocktime nversion).calcWitnessMerkleRoot hash256 =
    .ok draft.witroot
  script : getWitnessScript hash256 draft.witroot 0 = .ok draft.script
  block : block = { draft.uncommitted tmpl blocktime nversion with
    vtx := draft.committed :: draft.txs }

variable {hash256} {tmpl : BlockTemplate} {rewardSpk : Bytes} {blocktime nversion : Option Int}
  {poolid : Option Bytes} {block : CBlock} {draft : Draft}

theorem draftOf_assembleBlock
    (run : assembleBlock hash256 tmpl rewardSpk blocktime poolid nversion = .ok block) :
    Exists fun draft => DraftOf hash256 tmpl rewardSpk blocktime poolid nversion block draft := by
  simp only [assembleBlock, bind_eq_ok] at run
  rcases run with ⟨scriptSig, scripted, coinbase, hashed, hashPrevBlock, previous, nBits, compact,
    txs, parsed, witroot, rooted, nonce, zero, script, committed, assembled⟩
  rw [serUint256_zero] at zero
  cases zero
  cases assembled
  exact ⟨⟨scriptSig, coinbase, hashPrevBlock, nBits, txs, witroot, script⟩, scripted, hashed,
    previous, compact, parsed, rooted, committed, rfl⟩

theorem blockTime_of_le {nTime : Int} (late : tmpl.mintime ≤ nTime) :
    blockTime tmpl (some nTime) = nTime := by
  have notEarly : ¬ nTime < tmpl.mintime := not_lt.mpr late
  simp only [blockTime, Option.getD_some, if_neg notEarly]

/-! ## The coinbase -/

/-- The coinbase before its commitment is the one the template and the reward
describe; only its caches were filled. -/
theorem DraftOf.coinbase_uncached
    (drafted : DraftOf hash256 tmpl rewardSpk blocktime poolid nversion block draft) :
    draft.coinbase.uncached = rewardCoinbase tmpl rewardSpk draft.scriptSig := by
  rcases CTransaction.rehash_spec drafted.coinbase with ⟨bytes, -, same⟩
  rw [same]
  rfl

/-- What is appended to the last output of a committed coinbase extends the
commitment script. -/
theorem appendToLastOutput_withCommitment (cbtx : CTransaction) (nonce script suffix : Bytes) :
    appendToLastOutput (withCommitment cbtx nonce script) suffix =
      .ok (withCommitment cbtx nonce (script ++ suffix)) := by
  have last : (withCommitment cbtx nonce script).vout.getLast? =
      some { nValue := 0, scriptPubKey := script } := List.getLast?_concat
  have front : (withCommitment cbtx nonce script).vout.dropLast = cbtx.vout :=
    List.dropLast_concat
  rw [appendToLastOutput, last]
  simp only [front]
  rfl

/-- A coinbase with a commitment is read back from its own bytes whole. -/
theorem parsed_withCommitment {cbtx : CTransaction} (single : cbtx.vin.length = 1)
    (nonce script : Bytes) :
    (withCommitment cbtx nonce script).parsed = (withCommitment cbtx nonce script).uncached :=
  CTransaction.parsed_eq_uncached single.symm rfl

theorem DraftOf.coinbase_single
    (drafted : DraftOf hash256 tmpl rewardSpk blocktime poolid nversion block draft) :
    draft.coinbase.vin.length = 1 := by
  rw [← CTransaction.uncached_vin, drafted.coinbase_uncached]
  rfl

theorem DraftOf.coinbase_inputs
    (drafted : DraftOf hash256 tmpl rewardSpk blocktime poolid nversion block draft) :
    draft.coinbase.vin ≠ [] := by
  have single := drafted.coinbase_single
  intro empty
  rw [empty] at single
  cases single

/-- A commitment script determines the hash it commits to. -/
theorem getWitnessScript_spec {root : Int} {script : Bytes}
    (wrote : getWitnessScript hash256 root 0 = .ok script) :
    Exists fun bytes => Exists fun push => serUint256 root = .ok bytes ∧
      encodeOpPushdata (witnessCommitmentHeader ++ hash256 (bytes ++ zeroNonce)) = .ok push ∧
      script = opReturn :: push := by
  simp only [getWitnessScript, serUint256_zero, bind_eq_ok] at wrote
  rcases wrote with ⟨bytes, rooted, nonce, zero, commitment, committed, push, pushed, assembled⟩
  cases zero
  cases assembled
  rw [serUint256_uint256FromStr (hash256.length_digest _)] at committed
  cases committed
  exact ⟨bytes, push, rooted, pushed, rfl⟩

/-! ## The transactions of the template -/

/-- A transaction string the miner's format has exactly one reading of: parsing
takes all of it, and the parsed transaction is written as the same string. -/
def Canonical (bytes : Bytes) : Prop :=
  Exists fun tx : CTransaction => CTransaction.deserialize.run bytes = .ok (tx, []) ∧
    tx.vin ≠ [] ∧ tx.serialize = .ok bytes

/-- What the parser returns has no cached ids. -/
theorem Canonical.parsed_eq {bytes : Bytes} {tx : CTransaction} {rest : Bytes}
    (canonical : Canonical bytes) (run : CTransaction.deserialize.run bytes = .ok (tx, rest)) :
    tx.vin ≠ [] ∧ tx.serialize = .ok bytes ∧ tx.parsed = tx ∧ tx.uncached = tx := by
  rcases canonical with ⟨other, parsed, inputs, wrote⟩
  rw [parsed] at run
  cases run
  have again := (CTransaction.readsBack_deserialize inputs wrote).run_exact
  rw [parsed] at again
  have same : tx = tx.parsed := congrArg Prod.fst (Except.ok.inj again)
  refine ⟨inputs, wrote, same.symm, ?_⟩
  rw [same]
  rfl

/-- The data of every transaction of the template is canonical. -/
def CanonicalTransactions (tmpl : BlockTemplate) : Prop :=
  forall hexString, hexString ∈ tmpl.transactions ->
    Exists fun bytes => fromHex hexString = .ok bytes ∧ Canonical bytes

/-- The block's transactions are the template's: each is written as the data it
was read from. -/
theorem txs_spec {transactions : List String} {txs : List CTransaction}
    (canonical : forall hexString, hexString ∈ transactions ->
      Exists fun bytes => fromHex hexString = .ok bytes ∧ Canonical bytes)
    (run : transactions.mapM txFromHex = .ok txs) :
    (Exists fun originals => transactions.mapM fromHex = .ok originals ∧
      List.Forall₂ (fun tx bytes => CTransaction.serialize tx = .ok bytes) txs originals) ∧
    forall tx, tx ∈ txs -> tx.vin ≠ [] ∧ tx.parsed = tx ∧ tx.uncached = tx := by
  induction transactions generalizing txs with
  | nil =>
      cases run
      exact ⟨⟨[], rfl, .nil⟩, fun _ member => nomatch member⟩
  | cons hexString transactions inductionHypothesis =>
      simp only [List.mapM_cons, bind_eq_ok] at run
      rcases run with ⟨tx, first, later, second, assembled⟩
      cases assembled
      rcases canonical hexString List.mem_cons_self with ⟨bytes, decoded, one⟩
      simp only [txFromHex, bind_eq_ok] at first
      rcases first with ⟨bytes', decoded', ⟨tx', rest⟩, parsed, same⟩
      rw [decoded] at decoded'
      cases decoded'
      cases same
      have spec := one.parsed_eq parsed
      rcases inductionHypothesis (fun other member =>
        canonical other (List.mem_cons_of_mem hexString member)) second with
        ⟨⟨originals, decodedAll, each⟩, readable⟩
      refine ⟨⟨bytes :: originals, ?_, .cons spec.2.1 each⟩, ?_⟩
      · simp only [List.mapM_cons, decoded, decodedAll]
        rfl
      · intro other member
        rcases List.mem_cons.mp member with here | there
        · subst here
          exact ⟨spec.1, spec.2.2⟩
        · exact readable other there

/-! ## The signing pair -/

/-- The push of the bare signet header. -/
def headerPush : Bytes := 0x04 :: signetHeader

theorem encodeOpPushdata_signetHeader : encodeOpPushdata signetHeader = .ok headerPush := rfl

variable (hash256) in
/-- The values `signetTxs` computes on the way to the pair. -/
structure SignedPartsOf (block : CBlock) (challenge : Bytes) (spend toSpend : CTransaction)
    (block' : CBlock) (signed : CTransaction) (rest : List CTransaction) (hashes : List Bytes)
    (mroot : Int) : Prop where
  coinbase : Exists fun coinbase => block.vtx = coinbase :: rest ∧
    appendToLastOutput coinbase headerPush = .ok signed
  leaves : Exists fun txs =>
    txidLeaves (CTransaction.rehash hash256) (signed :: rest) = .ok (txs, hashes) ∧
      block' = { block with vtx := block.vtx.take 1 ++ txs.tail }
  root : getMerkleRoot hash256 hashes = .ok mroot
  pair : signetPair hash256 block.nVersion block.hashPrevBlock mroot block.nTime challenge =
    .ok (spend, toSpend)

theorem signedPartsOf_signetTxs {challenge : Bytes} {spend toSpend : CTransaction}
    {block' : CBlock}
    (run : signetTxs hash256 block challenge = .ok ((spend, toSpend), block')) :
    Exists fun signed => Exists fun rest => Exists fun hashes => Exists fun mroot =>
      SignedPartsOf hash256 block challenge spend toSpend block' signed rest hashes
        mroot := by
  unfold signetTxs at run
  cases shape : block.vtx with
  | nil =>
      rw [shape] at run
      cases run
  | cons coinbase rest =>
      rw [shape] at run
      simp only [encodeOpPushdata_signetHeader, bind_eq_ok] at run
      rcases run with ⟨push, pushed, signed, appended, ⟨txs, hashes⟩, hashed, mroot, root, pair,
        paired, assembled⟩
      cases pushed
      cases assembled
      exact ⟨signed, rest, hashes, mroot, ⟨coinbase, shape, appended⟩,
        ⟨txs, hashed, by rw [shape]; rfl⟩, root, paired⟩

/-- Building the pair changes nothing in the block but cached ids. -/
theorem SignedPartsOf.uncached {challenge : Bytes} {spend toSpend : CTransaction}
    {block' : CBlock} {signed : CTransaction} {rest : List CTransaction} {hashes : List Bytes}
    {mroot : Int}
    (parts : SignedPartsOf hash256 block challenge spend toSpend block' signed rest
      hashes mroot) : block'.uncached = block.uncached := by
  rcases parts.coinbase with ⟨coinbase, shape, -⟩
  rcases parts.leaves with ⟨txs, hashed, same⟩
  have unchanged := txidLeaves_uncached (fun _ _ run => CTransaction.rehash_uncached run) hashed
  have tails : txs.tail.map CTransaction.uncached = rest.map CTransaction.uncached := by
    rw [List.map_tail, unchanged]
    rfl
  rw [same]
  simp only [CBlock.uncached, shape, List.take_succ_cons, List.take_zero, List.cons_append,
    List.nil_append, List.map_cons, tails]

end Miner
end MutinyNet
