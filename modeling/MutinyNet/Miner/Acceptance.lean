import MutinyNet.Messages.Truncation
import MutinyNet.Messages.Validity
import MutinyNet.Miner.CoinbaseScript
import MutinyNet.Miner.Consistency
import MutinyNet.Miner.Verification
import MutinyNet.Miner.Program
import MutinyNet.Miner.RunSafety

namespace MutinyNet
namespace Miner

open Codec Python Messages Transition

/-!
# What a node makes of a submitted block

The miner hands a block to the node as hexadecimal digits, and the node knows
nothing of the objects behind them: it parses the block, recomputes what the
block says about itself, takes the signature out of the coinbase and has its
script interpreter check it.  Here every stage of the miner is composed with
that reader.  The wallet, the grinder and the interpreter stay parameters: the
wallet signs what it is asked to sign, and the grinder meets the target of the
header it is given.
-/

/-- A script interpreter: whether a solution satisfies the challenge in the
output of the second transaction for the first one. -/
abbrev Verifier := Bytes -> CTransaction × CTransaction -> Prop

/-- What a node reads out of the text that is passed to `submitblock`. -/
def receive (text : String) : Except PyError CBlock := do
  let bytes ← fromHex text
  fromBinary CBlock.deserialize bytes

/-- The checks of a signet node on a parsed block that was to be built from a
template under a challenge. -/
structure Accepts (hash256 : Hash256) (verifies : Verifier) (tmpl : BlockTemplate)
    (poolid : Option Bytes) (challenge : Bytes) (block : CBlock) : Prop where
  hashPrevBlock : intFromHex tmpl.previousblockhash = .ok block.hashPrevBlock
  nBits : intFromHex tmpl.bits = .ok block.nBits
  mintime : tmpl.mintime ≤ block.nTime
  merkleRoot : Exists fun leaves => txids hash256 block.vtx = .ok leaves ∧
    getMerkleRoot hash256 leaves = .ok block.hashMerkleRoot
  /-- The coinbase has the script of the height and the pool id, which both are
  read out of it; it carries the witness nonce, pays out what the template
  allows, and commits to the witness root behind the six bytes that mark it. -/
  coinbase : Exists fun coinbase => Exists fun rest => Exists fun input => Exists fun out =>
    Exists fun witroot => Exists fun root => block.vtx = coinbase :: rest ∧
      coinbase.vin = [input] ∧ coinbaseScriptSig tmpl.height poolid = .ok input.scriptSig ∧
      (1 ≤ tmpl.height -> tmpl.height < 2 ^ 31 ->
        Decodable tmpl.height poolid input.scriptSig) ∧
      coinbase.wit.vtxinwit.map (fun wit => wit.scriptWitness.stack) = [[zeroNonce]] ∧
      (coinbase.vout.map fun out => out.nValue).sum = tmpl.coinbasevalue ∧
      coinbase.vout.getLast? = some out ∧ block.calcWitnessMerkleRoot hash256 = .ok witroot ∧
      serUint256 witroot = .ok root ∧
      out.scriptPubKey.take 6 = [0x6a, 0x24, 0xaa, 0x21, 0xa9, 0xed] ∧
      (out.scriptPubKey.drop 6).take 32 = hash256 (root ++ zeroNonce)
  /-- Behind the coinbase stand the transactions of the template, byte by byte. -/
  transactions : Exists fun originals => tmpl.transactions.mapM fromHex = .ok originals ∧
    List.Forall₂ (fun tx bytes => CTransaction.serialize tx = .ok bytes) block.vtx.tail originals
  work : Exists fun header => block.toCBlockHeader.serialize = .ok header ∧
    forall target, uint256FromCompact block.nBits = .ok target ->
      uint256FromStr (hash256 header) ≤ target
  signature : Exists fun solution => Exists fun pair =>
    verifierView hash256 block challenge = .ok (solution, pair) ∧ verifies solution pair

/-! ## The programs behind the miner -/

/-- A signing request is about a pair of transactions: it has one input and one
output, and holds the two as the transaction to be signed and the one it spends. -/
structure Requests (request : PSBT) (pair : CTransaction × CTransaction) : Prop where
  single : request.i.length = 1 ∧ request.o.length = 1
  spend : Exists fun spend => pair.1.serialize = .ok spend ∧
    request.g.get? psbtGlobalUnsignedTx = some spend
  toSpend : Exists fun toSpend => pair.2.serialize = .ok toSpend ∧
    inputField request psbtInNonWitnessUtxo = some toSpend

/-- A wallet whose complete answers are the request with final fields that
satisfy the challenge. -/
def Signs (base64 : Base64) (verifies : Verifier) (wallet : String -> Except PyError SignedPsbt) :
    Prop :=
  forall text answer request pair, wallet text = .ok answer -> answer.complete = true ->
    request.toBase64 base64 = .ok text -> Requests request pair ->
      Exists fun signed => Exists fun bytes => SignedFrom request signed ∧
        signed.serialize = .ok bytes ∧ answer.psbt = base64.encode bytes ∧
        forall script, serString ((inputField signed psbtInFinalScriptsig).getD []) = .ok script ->
          verifies (script ++ (inputField signed psbtInFinalScriptwitness).getD [0x00]) pair

/-- A grind command that changes the nonce of a header only, and meets the target
in the header it gives back. -/
structure Grinds (hash256 : Hash256) (run : RunCommand) (grindCmd : String) : Prop where
  nonce : GrindsNonce run grindCmd
  target : forall head answer : Bytes, forall text, forall header : CBlockHeader, forall target,
    run (splitSpaces grindCmd ++ [toHex head]) = .ok text -> fromHex text = .ok answer ->
      header.serialize = .ok answer -> uint256FromCompact header.nBits = .ok target ->
        uint256FromStr (hash256 answer) ≤ target

/-! ## The block that the node parses -/

section Finished

variable {hash256 : Hash256} {tmpl : BlockTemplate} {rewardSpk challenge signetSolution : Bytes}
  {blocktime nversion : Option Int} {poolid : Option Bytes} {run : RunCommand}
  {grindCmd : Option String} {assembled block finished middle : CBlock} {draft : Draft}
  {signed : CTransaction} {rest : List CTransaction}

/-- The transactions of a finished block: the coinbase with the signature behind
its commitment, and those of the draft. -/
theorem FinishOf.vtx_uncached
    (drafted : DraftOf hash256 tmpl rewardSpk blocktime poolid nversion assembled draft)
    (same : block.uncached = assembled.uncached)
    (finish : FinishOf hash256 run grindCmd block signetSolution finished signed rest middle) :
    Exists fun push => encodeOpPushdata (signetHeader ++ signetSolution) = .ok push ∧
      finished.uncached.vtx =
        (withCommitment draft.coinbase zeroNonce (draft.script ++ push)).uncached ::
          draft.txs.map CTransaction.uncached := by
  rcases finish.coinbase_uncached drafted same with ⟨push, pushed, signedShape⟩
  rcases finish.coinbase with ⟨_, _, blockShape, -, -⟩
  have transactions := finish.transactions
  rw [List.map_cons, signedShape, (drafted.vtx_of_same same blockShape).2] at transactions
  exact ⟨push, pushed, transactions⟩

/-- A finished block comes back from its own bytes. -/
theorem FinishOf.readable (canonical : CanonicalTransactions tmpl)
    (drafted : DraftOf hash256 tmpl rewardSpk blocktime poolid nversion assembled draft)
    (same : block.uncached = assembled.uncached)
    (finish : FinishOf hash256 run grindCmd block signetSolution finished signed rest middle) :
    finished.Readable := by
  rcases finish.vtx_uncached drafted same with ⟨push, -, shape⟩
  intro tx member
  have inside : tx.uncached ∈ finished.uncached.vtx := List.mem_map_of_mem member
  rw [shape] at inside
  rcases List.mem_cons.mp inside with here | there
  · have whole : (withCommitment draft.coinbase zeroNonce (draft.script ++ push)).Readable :=
      ⟨drafted.coinbase_inputs, parsed_withCommitment drafted.coinbase_single zeroNonce _⟩
    exact whole.congr here.symm
  · rcases List.mem_map.mp there with ⟨original, given, sameTx⟩
    have spec := (txs_spec canonical drafted.txs).2 original given
    have whole : original.Readable := ⟨spec.1, spec.2.1.trans spec.2.2.symm⟩
    exact whole.congr sameTx

/-- The verifier's view of the parsed block is the solution and the pair that
was signed. -/
theorem FinishOf.verifierView {spend toSpend bare : CTransaction} {embedded : CBlock}
    {others : List CTransaction} {hashes : List Bytes} {mroot : Int}
    (drafted : DraftOf hash256 tmpl rewardSpk blocktime poolid nversion assembled draft)
    (parts : SignedPartsOf hash256 assembled challenge spend toSpend embedded bare others hashes
      mroot)
    (same : block.uncached = assembled.uncached)
    (finish : FinishOf hash256 run grindCmd block signetSolution finished signed rest middle)
    (nonempty : signetSolution ≠ []) :
    verifierView hash256 finished.uncached challenge =
      .ok (signetSolution, (spend, toSpend)) := by
  rcases finish.vtx_uncached drafted same with ⟨push', pushed', shape⟩
  rcases getWitnessScript_spec drafted.script with ⟨_, push, -, pushed, script⟩
  rcases parts.coinbase with ⟨original, originalShape, appended⟩
  have signedShape := drafted.vtx_of_same rfl originalShape
  have bareShape := appendToLastOutput_congr signedShape.1 appended
    (appendToLastOutput_withCommitment draft.coinbase zeroNonce draft.script headerPush)
  rw [script] at shape bareShape
  have ids := parts.txids
  rw [txids_congr (show (bare :: others).map CTransaction.uncached =
      (withCommitment draft.coinbase zeroNonce (opReturn :: (push ++ headerPush)) ::
        draft.txs.map CTransaction.uncached).map CTransaction.uncached by
    rw [List.map_cons, List.map_cons, bareShape, signedShape.2, List.map_map]
    rfl)] at ids
  have header := finish.header
  have mine := drafted.header_of_same same
  have theirs := drafted.header_of_same (rfl : assembled.uncached = assembled.uncached)
  refine verifierView_of_committed shape rfl pushed pushed' nonempty ids parts.root ?_
  change signetPair hash256 finished.nVersion finished.hashPrevBlock mroot finished.nTime
    challenge = _
  rw [header.1, mine.1, ← theirs.1, header.2.1, mine.2.1, ← theirs.2.1, header.2.2.1, mine.2.2.1,
    ← theirs.2.2.1]
  exact parts.pair

/-- The header of a finished block meets its target. -/
theorem FinishOf.meets
    (finish : FinishOf hash256 run grindCmd block signetSolution finished signed rest middle)
    (grinds : forall cmd, grindCmd = some cmd -> Grinds hash256 run cmd) :
    Exists fun header => finished.toCBlockHeader.serialize = .ok header ∧
      forall target, uint256FromCompact finished.nBits = .ok target ->
        uint256FromStr (hash256 header) ≤ target := by
  rcases (proveWork_spec finish.work).2 with ⟨bytes, wrote, cached, -⟩
  have proven := proveWork_proven finish.work
  refine ⟨bytes, wrote, fun target decoded => ?_⟩
  cases grindCmd with
  | none =>
      rcases proven with ⟨target', decoded', small⟩
      rw [decoded] at decoded'
      cases decoded'
      exact small _ cached
  | some cmd =>
      have grind := grinds cmd rfl
      rcases proven grind.nonce with ⟨head, text, answer, ran, answered, written⟩
      rw [wrote] at written
      cases written
      exact grind.target head bytes text finished.toCBlockHeader target ran answered wrote decoded

/-- What the node checks of the block it parses. -/
theorem FinishOf.accepts {verifies : Verifier} {spend toSpend bare : CTransaction}
    {embedded : CBlock} {others : List CTransaction} {hashes : List Bytes} {mroot : Int}
    (canonical : CanonicalTransactions tmpl)
    (drafted : DraftOf hash256 tmpl rewardSpk blocktime poolid nversion assembled draft)
    (parts : SignedPartsOf hash256 assembled challenge spend toSpend embedded bare others hashes
      mroot)
    (same : block.uncached = assembled.uncached)
    (finish : FinishOf hash256 run grindCmd block signetSolution finished signed rest middle)
    (fresh : forall tx, tx ∈ rest -> tx.FreshId hash256)
    (grinds : forall cmd, grindCmd = some cmd -> Grinds hash256 run cmd)
    (nonempty : signetSolution ≠ []) (satisfied : verifies signetSolution (spend, toSpend)) :
    Accepts hash256 verifies tmpl poolid challenge finished.uncached := by
  rcases finish.vtx_uncached drafted same with ⟨push', -, shape⟩
  rcases getWitnessScript_spec drafted.script with ⟨root, push, wroteRoot, pushed, script⟩
  have header := finish.header
  have mine := drafted.header_of_same same
  have vin := congrArg CTransaction.vin drafted.coinbase_uncached
  have vout := congrArg CTransaction.vout drafted.coinbase_uncached
  rw [CTransaction.uncached_vout] at vout
  have outputs := vout_withCommitment
    (rfl : (withCommitment draft.coinbase zeroNonce (draft.script ++ push')).uncached = _)
  constructor
  · exact drafted.hashPrevBlock.trans
      (congrArg Except.ok (mine.2.1.symm.trans header.2.1.symm))
  · exact drafted.nBits.trans
      (congrArg Except.ok (mine.2.2.2.symm.trans header.2.2.2.symm))
  · change tmpl.mintime ≤ finished.nTime
    rw [header.2.2.1, mine.2.2.1, blockTime_eq_max]
    exact le_max_right _ _
  · rcases finish.merkleRoot fresh with ⟨leaves, ids, computed⟩
    exact ⟨leaves, (txids_uncached finished.vtx).trans ids, computed⟩
  · refine ⟨_, _, _, { nValue := 0, scriptPubKey := draft.script ++ push' }, draft.witroot, root,
      shape, vin, drafted.scriptSig,
      fun low high => decodable_of_coinbaseScriptSig low high drafted.scriptSig, rfl, ?_,
      outputs.1, ?_, wroteRoot, ?_, ?_⟩
    · change ((draft.coinbase.vout ++ _).map fun out : CTxOut => out.nValue).sum = _
      rw [vout]
      simp [rewardCoinbase]
    · rw [← drafted.witroot]
      refine CBlock.calcWitnessMerkleRoot_congr hash256 ?_
      rw [shape, List.tail_cons, List.map_map]
      rfl
    · rw [script]
      exact take_marker pushed
    · rw [script]
      exact take_commitment pushed
  · rcases (txs_spec canonical drafted.txs).1 with ⟨originals, decoded, each⟩
    refine ⟨originals, decoded, ?_⟩
    rw [shape, List.tail_cons, List.forall₂_map_left_iff]
    exact each
  · exact finish.meets grinds
  · exact ⟨signetSolution, (spend, toSpend), finish.verifierView drafted parts same nonempty,
      satisfied⟩

/-- A block that came back without caches has no stale ones behind its coinbase. -/
theorem FinishOf.fresh_of_uncached {sent : CBlock} (empty : block = sent.uncached)
    (finish : FinishOf hash256 run grindCmd block signetSolution finished signed rest middle) :
    forall tx, tx ∈ rest -> tx.FreshId hash256 := by
  intro tx member
  rcases finish.coinbase with ⟨coinbase, _, shape, -, -⟩
  have inside : tx ∈ block.vtx := by
    rw [shape]
    exact List.mem_cons_of_mem coinbase member
  rw [empty] at inside
  rcases List.mem_map.mp inside with ⟨original, -, rfl⟩
  exact CTransaction.freshId_of_none rfl

/-- The caches of a finished block hold what belongs into them. -/
theorem FinishOf.fresh
    (finish : FinishOf hash256 run grindCmd block signetSolution finished signed rest middle)
    (fresh : forall tx, tx ∈ rest -> tx.FreshId hash256) : finished.Fresh hash256 := by
  refine ⟨Or.inr (proveWork_spec finish.work).2, ?_⟩
  rcases finish.root with ⟨hashed, rooted, root, refreshed, merkle, rfl⟩
  have freshAll : forall tx, tx ∈ hashed :: rest -> tx.FreshId hash256 := by
    intro tx member
    rcases List.mem_cons.mp member with here | there
    · rw [here]
      exact CTransaction.freshId_of_rehash refreshed
    · exact fresh tx there
  simp only [CBlock.calcMerkleRoot, bind_eq_ok] at merkle
  rcases merkle with ⟨⟨vtx, leaves⟩, hashes, _, -, assembled⟩
  cases assembled
  have spec := txidLeaves_spec (fun tx member => refreshes_calcSha256 (freshAll tx member)) hashes
  rcases finish.proof with ⟨_, _, _, rfl⟩
  exact spec.2

/-- The amounts of a finished block are the reward and those of the template. -/
theorem FinishOf.inRange_iff
    (drafted : DraftOf hash256 tmpl rewardSpk blocktime poolid nversion assembled draft)
    (same : block.uncached = assembled.uncached)
    (finish : FinishOf hash256 run grindCmd block signetSolution finished signed rest middle) :
    (forall tx, tx ∈ finished.vtx -> tx.InRange) <->
      (0 ≤ tmpl.coinbasevalue ∧ tmpl.coinbasevalue ≤ 21000000 * coin) ∧
        forall tx, tx ∈ draft.txs -> tx.InRange := by
  rcases finish.vtx_uncached drafted same with ⟨push, -, shape⟩
  have vout := congrArg CTransaction.vout drafted.coinbase_uncached
  rw [CTransaction.uncached_vout] at vout
  have parsed : (forall tx, tx ∈ finished.vtx -> tx.InRange) <->
      forall tx, tx ∈ finished.uncached.vtx -> tx.InRange := by
    constructor
    · intro all tx member
      rcases List.mem_map.mp member with ⟨original, given, rfl⟩
      exact all original given
    · intro all tx member
      exact all tx.uncached (List.mem_map_of_mem member)
  have coinbase : (withCommitment draft.coinbase zeroNonce (draft.script ++ push)).InRange <->
      0 ≤ tmpl.coinbasevalue ∧ tmpl.coinbasevalue ≤ 21000000 * coin := by
    unfold CTransaction.InRange withCommitment
    simp [vout, rewardCoinbase, coin]
  rw [parsed, shape, List.forall_mem_cons, List.forall_mem_map]
  exact and_congr coinbase Iff.rfl

end Finished

/-! ## From a template to the node -/

section Signing

variable {hash256 : Hash256} {base64 : Base64} {verifies : Verifier} {tmpl : BlockTemplate}
  {rewardSpk signetSolution : Bytes} {blocktime nversion : Option Int} {poolid : Option Bytes}
  {run : RunCommand} {grindCmd : Option String} {block finished : CBlock}

/-- A request that was generated, with everything that went into it. -/
theorem requests_of_generatePsbt {text : String}
    (requested : generatePsbt hash256 base64 tmpl rewardSpk blocktime poolid nversion = .ok text) :
    Exists fun request => Exists fun challenge => Exists fun spend => Exists fun toSpend =>
      Exists fun assembled => Exists fun sent => Exists fun embedded =>
        request.toBase64 base64 = .ok text ∧ Requests request (spend, toSpend) ∧
        fromHex tmpl.signetChallenge = .ok challenge ∧
        assembleBlock hash256 tmpl rewardSpk blocktime poolid nversion = .ok assembled ∧
        signetTxs hash256 assembled challenge = .ok ((spend, toSpend), sent) ∧
        Embeds hash256 tmpl rewardSpk blocktime poolid nversion request sent embedded := by
  rcases bind_eq_ok.mp requested with ⟨request, built, encoded⟩
  simp only [signingPsbt, bind_eq_ok] at built
  rcases built with ⟨challenge, decoded, assembled, built, ⟨⟨spend, toSpend⟩, sent⟩, paired,
    signme, wroteSpend, embedded, wrote, spendme, wroteToSpend, shape⟩
  cases shape
  exact ⟨_, challenge, spend, toSpend, assembled, sent, embedded, encoded,
    ⟨⟨rfl, rfl⟩, ⟨signme, wroteSpend, rfl⟩, ⟨spendme, wroteToSpend, rfl⟩⟩, decoded, built, paired,
    ⟨⟨challenge, _, assembled, decoded, built, paired⟩, wrote, rfl⟩⟩

/-- What comes back from a signing wallet: the block that was assembled, with
empty caches, and a solution that satisfies the challenge for the pair. -/
theorem stages_of_signed {wallet : String -> Except PyError SignedPsbt} {text : String}
    {answer : SignedPsbt} (signs : Signs base64 verifies wallet)
    (canonical : CanonicalTransactions tmpl)
    (requested : generatePsbt hash256 base64 tmpl rewardSpk blocktime poolid nversion = .ok text)
    (answered : wallet text = .ok answer) (complete : answer.complete = true)
    (decoded : decodePsbt base64 answer.psbt = .ok (block, signetSolution)) :
    Exists fun challenge => Exists fun spend => Exists fun toSpend => Exists fun assembled =>
      Exists fun draft => Exists fun embedded => Exists fun bare => Exists fun others =>
        Exists fun hashes => Exists fun mroot =>
          fromHex tmpl.signetChallenge = .ok challenge ∧
          DraftOf hash256 tmpl rewardSpk blocktime poolid nversion assembled draft ∧
          SignedPartsOf hash256 assembled challenge spend toSpend embedded bare others hashes
            mroot ∧
          block.uncached = assembled.uncached ∧ block = embedded.uncached ∧
          signetSolution ≠ [] ∧ verifies signetSolution (spend, toSpend) := by
  rcases requests_of_generatePsbt requested with ⟨request, challenge, spend, toSpend, assembled,
    sent, embedded, encoded, requests, challenged, built, paired, embeds⟩
  rcases signs text answer request _ answered complete encoded requests with
    ⟨signed, written, signedFrom, wroteSigned, given, satisfied⟩
  rcases decodePsbt_embedded canonical embeds signedFrom wroteSigned with ⟨script, scripted, back⟩
  rw [given, back] at decoded
  cases decoded
  rcases draftOf_assembleBlock built with ⟨draft, drafted⟩
  rcases signedPartsOf_signetTxs paired with ⟨bare, others, hashes, mroot, parts⟩
  have nonempty : script ++ (inputField signed psbtInFinalScriptwitness).getD [0x00] ≠ [] := by
    intro empty
    have none := congrArg List.length (List.append_eq_nil_iff.mp empty).1
    have some := compactLength_pos ((inputField signed psbtInFinalScriptsig).getD []).length
    rw [length_serString scripted, stringLength, List.length_nil] at none
    omega
  exact ⟨challenge, spend, toSpend, assembled, draft, sent, bare, others, hashes, mroot,
    challenged, drafted, parts, sent.uncached_uncached.trans parts.uncached, rfl, nonempty,
    satisfied script scripted⟩

/-- A block whose request went to a signing wallet is accepted, wherever the
request came from and however the proof of work was found. -/
theorem accepts_of_signed {wallet : String -> Except PyError SignedPsbt} {text : String}
    {answer : SignedPsbt} {bytes : Bytes} (signs : Signs base64 verifies wallet)
    (canonical : CanonicalTransactions tmpl)
    (grinds : forall cmd, grindCmd = some cmd -> Grinds hash256 run cmd)
    (requested : generatePsbt hash256 base64 tmpl rewardSpk blocktime poolid nversion = .ok text)
    (answered : wallet text = .ok answer) (complete : answer.complete = true)
    (decoded : decodePsbt base64 answer.psbt = .ok (block, signetSolution))
    (finish : finishBlock hash256 run block signetSolution grindCmd = .ok finished)
    (wrote : finished.serialize = .ok bytes) :
    Exists fun challenge => Exists fun parsed => fromHex tmpl.signetChallenge = .ok challenge ∧
      receive (toHex bytes) = .ok parsed ∧
      Accepts hash256 verifies tmpl poolid challenge parsed := by
  rcases stages_of_signed signs canonical requested answered complete decoded with
    ⟨challenge, spend, toSpend, assembled, draft, embedded, bare, others, hashes, mroot, challenged,
      drafted, parts, same, empty, nonempty, satisfied⟩
  rcases finishOf_finishBlock finish with ⟨full, rest, middle, finishOf⟩
  refine ⟨challenge, finished.uncached, challenged, ?_, finishOf.accepts canonical drafted parts
    same (finishOf.fresh_of_uncached empty) grinds nonempty satisfied⟩
  unfold receive
  rw [fromHex_toHex]
  exact fromBinary_of_readsBack
    (CBlock.readsBack_deserialize (finishOf.readable canonical drafted same) wrote)

/-- The framework's own `is_valid` accepts what the miner makes of a signed request
exactly when the reward and the outputs of the template are amounts of money. -/
theorem isValid_of_signed {wallet : String -> Except PyError SignedPsbt} {text : String}
    {answer : SignedPsbt} {target : Int} (signs : Signs base64 verifies wallet)
    (canonical : CanonicalTransactions tmpl)
    (grinds : forall cmd, grindCmd = some cmd -> Grinds hash256 run cmd)
    (requested : generatePsbt hash256 base64 tmpl rewardSpk blocktime poolid nversion = .ok text)
    (answered : wallet text = .ok answer) (complete : answer.complete = true)
    (decoded : decodePsbt base64 answer.psbt = .ok (block, signetSolution))
    (finish : finishBlock hash256 run block signetSolution grindCmd = .ok finished)
    (compact : uint256FromCompact finished.nBits = .ok target) :
    (Exists fun result => finished.isValid hash256 = .ok (result, true)) <->
      (0 ≤ tmpl.coinbasevalue ∧ tmpl.coinbasevalue ≤ 21000000 * coin) ∧
        Exists fun txs => tmpl.transactions.mapM txFromHex = .ok txs ∧
          forall tx, tx ∈ txs -> tx.InRange := by
  rcases stages_of_signed signs canonical requested answered complete decoded with
    ⟨challenge, spend, toSpend, assembled, draft, embedded, bare, others, hashes, mroot, -, drafted,
      -, same, empty, -⟩
  rcases finishOf_finishBlock finish with ⟨full, rest, middle, finishOf⟩
  have fresh := finishOf.fresh_of_uncached empty
  rw [CBlock.isValid_iff (finishOf.fresh fresh)]
  constructor
  · intro valid
    have inside := (finishOf.inRange_iff drafted same).mp valid.amounts
    exact ⟨inside.1, draft.txs, drafted.txs, inside.2⟩
  · rintro ⟨reward, txs, given, inside⟩
    rw [drafted.txs] at given
    cases given
    rcases finishOf.meets grinds with ⟨header, wrote, small⟩
    exact
      { work := ⟨header, target, wrote, compact, small target compact⟩
        amounts := (finishOf.inRange_iff drafted same).mpr ⟨reward, inside⟩
        root := finishOf.merkleRoot fresh }

end Signing

/-! ## The main loop -/

theorem mine_eq_some {session : Session} {answers : Answers} {schedule : Schedule}
    {tmpl : BlockTemplate} {rewardSpk : Bytes} {block : CBlock}
    (run : session.mine answers schedule tmpl rewardSpk = .ok (some block)) :
    Exists fun text => Exists fun answer => Exists fun decoded => Exists fun solution =>
      generatePsbt session.hash256 session.base64 tmpl rewardSpk (some schedule.mineTime)
        session.gen.poolid session.gen.nversion = .ok text ∧
      answers.walletprocesspsbt text = .ok answer ∧ answer.complete = true ∧
      decodePsbt session.base64 answer.psbt = .ok (decoded, solution) ∧
      finishBlock session.hash256 answers.run decoded solution session.grindCmd = .ok block := by
  simp only [Session.mine, bind_eq_ok] at run
  rcases run with ⟨text, requested, answer, answered, rest⟩
  split at rest
  · cases rest
  · next complete =>
      simp only [bind_eq_ok] at rest
      rcases rest with ⟨⟨decoded, solution⟩, back, finished, finish, assembled⟩
      cases assembled
      exact ⟨text, answer, decoded, solution, requested, answered, by simpa using complete, back,
        finish⟩

/-- A block that is submitted was written. -/
theorem wrote_of_submitted {session : Session} {state : LoopState} {answers : Answers}
    {submission : Submission} (submitted : (session.iterate state answers).1 = some submission) :
    Exists fun bytes => submission.block.serialize = .ok bytes := by
  rw [Session.iterate_eq] at submitted
  split at submitted
  · cases submitted
  · cases submitted
  · split at submitted
    · cases submitted
    · cases submitted
    · unfold Session.submit at submitted
      split at submitted
      · cases submitted
      · next bytes wrote =>
          cases submitted
          exact ⟨bytes, wrote⟩

/-- The session of a run has the hash, the base64, the grind command and the pool
id that it was started with. -/
theorem session_of_startSession {hash256 : Hash256} {base64 : Base64}
    {delta : Generate -> Int -> String -> Except PyError ℚ} {args : GenerateArgs} {clock : ℚ}
    {session : Session} {reward : RewardState}
    (started : startSession hash256 base64 delta args clock = .ok (.passed (session, reward))) :
    session.hash256 = hash256 ∧ session.base64 = base64 ∧ session.grindCmd = args.grindCmd ∧
      getPoolid args = .ok session.gen.poolid := by
  rcases bind_eq_ok.mp started with ⟨checked, setup, rest⟩
  cases checked with
  | refused message => cases rest
  | passed value =>
      cases rest
      exact ⟨rfl, rfl, rfl, (readyOf_setupGenerate setup).poolid⟩

/-- Whatever a run of `generate` submits, with a wallet that signs and a grinder
that grinds, is a text that the node parses to a block on the tip it reported
itself, and accepts. -/
theorem accepts_of_run {hash256 : Hash256} {base64 : Base64} {verifies : Verifier}
    {delta : Generate -> Int -> String -> Except PyError ℚ} {args : GenerateArgs} {clock : ℚ}
    {session : Session} {reward : RewardState}
    (started : startSession hash256 base64 delta args clock = .ok (.passed (session, reward)))
    {told : List Answers}
    (signs : forall answers, answers ∈ told -> Signs base64 verifies answers.walletprocesspsbt)
    (canonical : forall answers, answers ∈ told -> forall tmpl,
      answers.getblocktemplate = .ok tmpl -> CanonicalTransactions tmpl)
    (grinds : forall answers, answers ∈ told -> forall cmd, args.grindCmd = some cmd ->
      Grinds hash256 answers.run cmd) :
    forall visit, visit ∈ session.run reward told -> forall submission,
      (session.iterate visit.1 visit.2).1 = some submission ->
        Exists fun tmpl => Exists fun challenge => Exists fun bytes => Exists fun parsed =>
          visit.2.getblockchaininfo = .ok tmpl.previousblockhash ∧
          visit.2.getblocktemplate = .ok tmpl ∧ fromHex tmpl.signetChallenge = .ok challenge ∧
          submission.block.serialize = .ok bytes ∧ receive (toHex bytes) = .ok parsed ∧
          Exists fun poolid => getPoolid args = .ok poolid ∧
            Accepts hash256 verifies tmpl poolid challenge parsed := by
  intro visit member submission submitted
  have inside := (@visits_invariant _ _ session.nextState (fun _ => True) _ _
    (fun _ _ => trivial) (fun _ _ _ _ _ _ => trivial) visit member).2
  rcases session_of_startSession started with ⟨sameHash, sameBase, sameGrind, samePool⟩
  rcases iterate_spec submitted with ⟨state', state'', planned, mined⟩
  rcases plan_spec planned with ⟨seen, -, -, asked, -, -⟩
  rcases observe_spec seen with ⟨reported, -, -, -⟩
  rcases gbt_spec asked with ⟨given, builds, -, -⟩
  simp only [Session.mineAttempt, bind_eq_ok] at mined
  rcases mined with ⟨⟨⟨_, rewardSpk⟩, _⟩, -, block, mined, assembled⟩
  cases assembled
  rcases mine_eq_some mined with ⟨text, answer, decoded, solution, requested, answered, complete,
    back, finish⟩
  rw [sameHash, sameBase] at requested
  rw [sameBase] at back
  rw [sameHash, sameGrind] at finish
  rcases wrote_of_submitted submitted with ⟨bytes, wrote⟩
  rcases accepts_of_signed (signs visit.2 inside) (canonical visit.2 inside _ given)
    (grinds visit.2 inside) requested answered complete back finish wrote with
    ⟨challenge, parsed, challenged, received, accepts⟩
  exact ⟨_, challenge, bytes, parsed, builds ▸ reported, given, challenged, wrote, received, _,
    samePool, accepts⟩

/-! ## The two commands in a pipe -/

/-- What `do_genpsbt` prints. -/
def genpsbtText (env : Environment) (args : GenpsbtArgs) : Except PyError String := do
  let poolid ← getPoolid { poolid := args.poolid, poolnum := args.poolnum }
  let tmpl ← env.stdinTemplate
  let state : RewardState := { address := args.address, descriptor := args.descriptor }
  let ((_, rewardSpk), _) ← state.getRewardAddrSpk env.reward tmpl.height
  let nversion ← parseNversion args.nversion
  generatePsbt env.hash256 env.base64 tmpl rewardSpk none poolid nversion

/-- What `do_solvepsbt` prints. -/
def solvepsbtText (env : Environment) (grindCmd : Option String) : Except PyError String := do
  let (block, signetSolution) ← decodePsbt env.base64 env.stdinText
  let block ← finishBlock env.hash256 env.run block signetSolution grindCmd
  let bytes ← block.serialize
  pure (toHex bytes)

theorem doGenpsbt_eq (env : Environment) (args : GenpsbtArgs) :
    doGenpsbt env args = genpsbtText env args >>= fun _ => pure none := by
  simp only [doGenpsbt, genpsbtText, bind_assoc]

theorem doSolvepsbt_eq (env : Environment) (grindCmd : Option String) :
    doSolvepsbt env grindCmd = solvepsbtText env grindCmd >>= fun _ => pure none := by
  simp only [doSolvepsbt, solvepsbtText, bind_assoc, pure_bind]

/-- Texts with the same bytes are the same PSBT. -/
theorem decodePsbt_congr {base64 : Base64} {text text' : String}
    (same : base64.decode text = base64.decode text') :
    decodePsbt base64 text = decodePsbt base64 text' := by
  unfold decodePsbt PSBT.fromBase64
  rw [same]

/-- What `solvepsbt` prints about a signed request of `genpsbt` is a text that
the node accepts.  The two commands may run on different machines, and the text
between them may have got line breaks, as far as base64 does not look at them. -/
theorem accepts_of_pipe {env env' : Environment} {verifies : Verifier} {args : GenpsbtArgs}
    {grindCmd : Option String} {wallet : String -> Except PyError SignedPsbt}
    {tmpl : BlockTemplate} {text printed : String} {answer : SignedPsbt}
    (sameHash : env'.hash256 = env.hash256) (sameBase : env'.base64 = env.base64)
    (signs : Signs env.base64 verifies wallet) (given : env.stdinTemplate = .ok tmpl)
    (canonical : CanonicalTransactions tmpl)
    (grinds : forall cmd, grindCmd = some cmd -> Grinds env.hash256 env'.run cmd)
    (requested : genpsbtText env args = .ok text) (answered : wallet text = .ok answer)
    (complete : answer.complete = true)
    (piped : env.base64.decode env'.stdinText = env.base64.decode answer.psbt)
    (solved : solvepsbtText env' grindCmd = .ok printed) :
    Exists fun challenge => Exists fun parsed => fromHex tmpl.signetChallenge = .ok challenge ∧
      receive printed = .ok parsed ∧
      Exists fun poolid =>
        getPoolid { poolid := args.poolid, poolnum := args.poolnum } = .ok poolid ∧
          Accepts env.hash256 verifies tmpl poolid challenge parsed := by
  simp only [genpsbtText, given, bind_eq_ok] at requested
  rcases requested with ⟨poolid, pool, _, same, ⟨⟨_, rewardSpk⟩, _⟩, -, nversion, -, requested⟩
  cases same
  simp only [solvepsbtText, bind_eq_ok] at solved
  rcases solved with ⟨⟨block, solution⟩, decoded, finished, finish, bytes, wrote, assembled⟩
  cases assembled
  rw [sameBase, decodePsbt_congr piped] at decoded
  rw [sameHash] at finish
  rcases accepts_of_signed signs canonical grinds requested answered complete decoded finish wrote
    with ⟨challenge, parsed, challenged, received, accepts⟩
  exact ⟨challenge, parsed, challenged, received, poolid, pool, accepts⟩

/-! ## A challenge that everybody meets -/

/-- A wallet that knows one request. -/
def sampleWallet (psbt : String) : Except PyError SignedPsbt :=
  .ok { complete := psbt == "known", psbt }

/-- The empty solution, which satisfies the challenge of the sample template. -/
def sampleVerifier : Verifier := fun solution _ => solution = [0x00, 0x00]

def signingAnswers : Answers :=
  { sampleAnswers with walletprocesspsbt := sampleWallet }

theorem serialize_sampleKnown :
    Exists fun signme => Exists fun embedded => Exists fun spendme =>
      (blockPsbt signme embedded spendme).serialize = .ok sampleKnown := by
  have success : (signingPsbt zeroHash sampleTemplate [0x51] (some 1700000000) none none >>=
      PSBT.serialize).isOk = true := by
    decide +kernel
  rcases exists_of_isOk success with ⟨bytes, ran⟩
  have known : sampleKnown = bytes := by
    rw [sampleKnown, ran]
    rfl
  rcases bind_eq_ok.mp ran with ⟨psbt, built, wrote⟩
  simp only [signingPsbt, bind_eq_ok] at built
  rcases built with ⟨_, -, _, -, _, -, signme, -, embedded, -, spendme, -, shape⟩
  cases shape
  exact ⟨signme, embedded, spendme, known ▸ wrote⟩

theorem signs_sampleWallet : Signs (shortBase64 sampleKnown) sampleVerifier sampleWallet := by
  intro text answer request pair answered complete encoded requests
  cases answered
  have known : text = "known" := eq_of_beq complete
  subst known
  rcases bind_eq_ok.mp encoded with ⟨bytes, wrote, same⟩
  have whole : bytes = sampleKnown := by
    by_contra other
    have shown : (shortBase64 sampleKnown).encode bytes = "known" := Except.ok.inj same
    rw [shortBase64] at shown
    dsimp only at shown
    rw [if_neg other] at shown
    exact toHex_ne_known bytes shown
  rw [whole] at wrote same
  rcases serialize_sampleKnown with ⟨signme, embedded, spendme, written⟩
  have encoded' : (blockPsbt signme embedded spendme).toBase64 (shortBase64 sampleKnown) =
      .ok "known" := bind_eq_ok.mpr ⟨sampleKnown, written, same⟩
  have fields := (PSBT.toBase64_injective encoded encoded').2.1
  rcases List.length_eq_one_iff.mp requests.single.1 with ⟨input, one⟩
  refine ⟨request, sampleKnown, ⟨List.Perm.refl _, ⟨input, input, one, one, fun _ => id⟩,
    requests.single.2⟩, wrote, (Except.ok.inj same).symm, fun script scripted => ?_⟩
  have unsigned : forall key, key ≠ psbtInNonWitnessUtxo -> inputField request key = none := by
    intro key other
    rw [inputField, fields]
    change [(psbtInNonWitnessUtxo, spendme)].lookup key = none
    rw [List.lookup_cons, beq_eq_false_iff_ne.mpr other, List.lookup_nil]
  rw [unsigned _ (by decide)] at scripted ⊢
  have empty : ([0x00] : Bytes) = script := Except.ok.inj scripted
  rw [← empty]
  rfl

theorem isValid_of_signed_sample :
    Exists fun finished : CBlock =>
      (Exists fun result => finished.isValid zeroHash = .ok (result, true)) <->
        (0 ≤ sampleTemplate.coinbasevalue ∧ sampleTemplate.coinbasevalue ≤ 21000000 * coin) ∧
          Exists fun txs => sampleTemplate.transactions.mapM txFromHex = .ok txs ∧
            forall tx, tx ∈ txs -> tx.InRange := by
  have requested : generatePsbt zeroHash (shortBase64 sampleKnown) sampleTemplate [0x51]
      (some 1700000000) none none = .ok "known" := by
    decide +kernel
  have success : (decodePsbt (shortBase64 sampleKnown) "known" >>= fun decoded =>
      finishBlock zeroHash noCommand decoded.1 decoded.2 none >>= fun finished =>
      uint256FromCompact finished.nBits).isOk = true := by
    decide +kernel
  rcases exists_of_isOk success with ⟨target, ran⟩
  simp only [bind_eq_ok] at ran
  rcases ran with ⟨⟨block, solution⟩, decoded, finished, finish, compact⟩
  have none : forall cmd, (none : Option String) = some cmd -> Grinds zeroHash noCommand cmd := by
    intro cmd impossible
    cases impossible
  exact ⟨finished, @isValid_of_signed _ _ _ _ _ _ _ _ _ _ _ _ _ sampleWallet "known"
    { complete := true, psbt := "known" } target signs_sampleWallet
    canonicalTransactions_sampleTemplate none requested rfl rfl decoded finish compact⟩

theorem accepts_of_run_sample :
    Exists fun submission =>
      (sampleSession.iterate { reward := sampleReward } signingAnswers).1 = some submission ∧
      Exists fun tmpl => Exists fun challenge => Exists fun bytes => Exists fun parsed =>
        signingAnswers.getblockchaininfo = .ok tmpl.previousblockhash ∧
        signingAnswers.getblocktemplate = .ok tmpl ∧
        fromHex tmpl.signetChallenge = .ok challenge ∧
        submission.block.serialize = .ok bytes ∧ receive (toHex bytes) = .ok parsed ∧
        Exists fun poolid => getPoolid sampleArgs = .ok poolid ∧
          Accepts zeroHash sampleVerifier tmpl poolid challenge parsed := by
  have submits :
      (sampleSession.iterate { reward := sampleReward } signingAnswers).1.isSome = true := by
    decide +kernel
  rcases Option.isSome_iff_exists.mp submits with ⟨submission, submitted⟩
  refine ⟨submission, submitted, @accepts_of_run _ _ _ _ _ _ _ _ startSession_sample
    [signingAnswers] ?_ ?_ ?_ ({ reward := sampleReward }, signingAnswers) List.mem_cons_self
    submission submitted⟩
  · intro answers inside
    rw [List.mem_singleton.mp inside]
    exact signs_sampleWallet
  · intro answers inside tmpl given
    rw [List.mem_singleton.mp inside] at given
    cases given
    exact canonicalTransactions_sampleTemplate
  · intro answers inside cmd impossible
    cases impossible

/-- A template on the standard input of the first command, and the signed
request on that of the second. -/
def pipeEnvironment : Environment :=
  { sampleEnvironment with
    base64 := shortBase64 sampleKnown
    stdinTemplate := .ok sampleTemplate
    stdinText := "known"
    reward := sampleAnswers.reward }

theorem accepts_of_pipe_sample :
    Exists fun printed => Exists fun challenge => Exists fun parsed =>
      genpsbtText pipeEnvironment { address := some "address" } = .ok "known" ∧
      solvepsbtText pipeEnvironment none = .ok printed ∧
      fromHex sampleTemplate.signetChallenge = .ok challenge ∧ receive printed = .ok parsed ∧
      Exists fun poolid => getPoolid { poolid := none, poolnum := none } = .ok poolid ∧
        Accepts zeroHash sampleVerifier sampleTemplate poolid challenge parsed := by
  have requested : genpsbtText pipeEnvironment { address := some "address" } = .ok "known" := by
    decide +kernel
  have success : (solvepsbtText pipeEnvironment none).isOk = true := by
    decide +kernel
  rcases exists_of_isOk success with ⟨printed, solved⟩
  have none : forall cmd, (none : Option String) = some cmd -> Grinds zeroHash noCommand cmd := by
    intro cmd impossible
    cases impossible
  rcases @accepts_of_pipe pipeEnvironment pipeEnvironment sampleVerifier
    { address := some "address" } Option.none sampleWallet _ _ _
    { complete := true, psbt := "known" } rfl rfl signs_sampleWallet rfl
    canonicalTransactions_sampleTemplate none requested rfl rfl rfl solved with
    ⟨challenge, parsed, challenged, received, pool⟩
  exact ⟨printed, challenge, parsed, requested, solved, challenged, received, pool⟩

end Miner
end MutinyNet
