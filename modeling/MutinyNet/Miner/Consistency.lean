import MutinyNet.Miner.Finish

namespace MutinyNet
namespace Miner

open Codec Python Messages

/-!
# The finished block as a whole

Ids and hashes are cached in the transactions and the header and emptied by
hand, and the coinbase is changed twice after something was computed from it.
What a node checks is computed from the finished block alone, and this module
compares the two: everything the block says about itself is what a fresh
computation over its final transactions and header gives.
-/

variable (hash256 : Hash256)

/-- The properties of a finished block that was built from a template. -/
structure Consistent (tmpl : BlockTemplate) (rewardSpk : Bytes)
    (blocktime nversion : Option Int) (block : CBlock) : Prop where
  /-- The Merkle root is over the ids of the transactions as they are. -/
  merkleRoot : Exists fun leaves => txids hash256 block.vtx = .ok leaves ∧
    getMerkleRoot hash256 leaves = .ok block.hashMerkleRoot
  /-- Behind six bytes, the last output of the coinbase holds the hash of the
  witness root and the nonce. -/
  commitment : Exists fun coinbase => Exists fun rest => Exists fun out => Exists fun witroot =>
    Exists fun root => block.vtx = coinbase :: rest ∧ coinbase.vout.getLast? = some out ∧
      block.calcWitnessMerkleRoot hash256 = .ok witroot ∧ serUint256 witroot = .ok root ∧
      (out.scriptPubKey.drop 6).take 32 = hash256 (root ++ List.replicate 32 0)
  coinbase : Exists fun coinbase => Exists fun rest => Exists fun input => Exists fun out =>
    block.vtx = coinbase :: rest ∧ coinbase.vin = [input] ∧
      coinbase.wit.vtxinwit.map (fun wit => wit.scriptWitness.stack) = [[List.replicate 32 0]] ∧
      coinbase.vout = [{ nValue := tmpl.coinbasevalue, scriptPubKey := rewardSpk }, out]
  nVersion : block.nVersion = nversion.getD tmpl.version
  hashPrevBlock : intFromHex tmpl.previousblockhash = .ok block.hashPrevBlock
  nBits : intFromHex tmpl.bits = .ok block.nBits
  nTime : block.nTime = max (blocktime.getD tmpl.curtime) tmpl.mintime
  /-- The cached hash is the one of the header as it is. -/
  hashed : block.toCBlockHeader.Hashed hash256

/-- A grind command that changes nothing but the nonce of the header it is given. -/
def GrindsNonce (run : RunCommand) (grindCmd : String) : Prop :=
  forall head answer : Bytes, forall text, head.length = 80 ->
    run (splitSpaces grindCmd ++ [toHex head]) = .ok text -> fromHex text = .ok answer ->
      answer.length = 80 ∧ answer.take 76 = head.take 76

/-- What the header of a finished block owes to the proof of work: without a
command its hash meets the target, with one it is the header the command gave
back. -/
def Proven (run : RunCommand) (grindCmd : Option String) (block : CBlock) : Prop :=
  match grindCmd with
  | none => Exists fun target => uint256FromCompact block.nBits = .ok target ∧
      forall sha256, block.sha256 = some sha256 -> sha256 ≤ target
  | some grindCmd => GrindsNonce run grindCmd ->
      Exists fun head => Exists fun text => Exists fun answer =>
        run (splitSpaces grindCmd ++ [toHex head]) = .ok text ∧ fromHex text = .ok answer ∧
          block.toCBlockHeader.serialize = .ok answer

variable {hash256}

/-! ## The two proof-of-work paths -/

/-- A header with the last four bytes of a string as its nonce. -/
theorem serialize_withNonce {header : CBlockHeader} {head nonce : Bytes}
    (wrote : header.serialize = .ok head) (four : nonce.length = 4) :
    { header with nNonce := intFromBytes false nonce }.serialize = .ok (head.take 76 ++ nonce) := by
  simp only [CBlockHeader.serialize, bind_eq_ok] at wrote
  rcases wrote with ⟨nVersion, first, hashPrevBlock, second, hashMerkleRoot, third, nTime, fourth,
    nBits, fifth, nNonce, sixth, assembled⟩
  cases assembled
  have front : (nVersion ++ (hashPrevBlock ++ (hashMerkleRoot ++ (nTime ++ (nBits ++ nNonce))))).take
      76 = nVersion ++ (hashPrevBlock ++ (hashMerkleRoot ++ (nTime ++ nBits))) := by
    have length : (nVersion ++ (hashPrevBlock ++ (hashMerkleRoot ++ (nTime ++ nBits)))).length =
        76 := by
      simp only [List.length_append, length_of_intToBytes first, length_of_intToBytes second,
        length_of_intToBytes third, length_of_intToBytes fourth, length_of_intToBytes fifth]
    have split : nVersion ++ (hashPrevBlock ++ (hashMerkleRoot ++ (nTime ++ (nBits ++ nNonce)))) =
        nVersion ++ (hashPrevBlock ++ (hashMerkleRoot ++ (nTime ++ nBits))) ++ nNonce := by
      simp only [List.append_assoc]
    rw [split, List.take_left' length]
  have whole : nVersion ++ (hashPrevBlock ++ (hashMerkleRoot ++ (nTime ++ (nBits ++ nonce)))) =
      nVersion ++ (hashPrevBlock ++ (hashMerkleRoot ++ (nTime ++ nBits))) ++ nonce := by
    simp only [List.append_assoc]
  rw [front, ← whole]
  simp only [CBlockHeader.serialize, bind_eq_ok]
  exact ⟨nVersion, first, hashPrevBlock, second, hashMerkleRoot, third, nTime, fourth, nBits, fifth,
    nonce, intToBytes_intFromBytes false four, rfl⟩

theorem proveWork_proven {run : RunCommand} {grindCmd : Option String} {block result : CBlock}
    (proof : proveWork hash256 run grindCmd block = .ok result) : Proven run grindCmd result := by
  cases grindCmd with
  | none =>
      rcases CBlock.solve_spec proof with ⟨-, same, target, compact, small⟩
      rcases same with ⟨nNonce, sha256, hash, rfl⟩
      exact ⟨target, compact, small⟩
  | some grindCmd =>
      intro grinds
      simp only [proveWork, bind_eq_ok] at proof
      rcases proof with ⟨head, wrote, text, ran, answer, decoded, newhead, parsed, rehashed⟩
      have shape := grinds head answer text (CBlockHeader.length_serialize wrote) ran decoded
      have four : (answer.drop 76).length = 4 := by
        rw [List.length_drop, shape.1]
      have whole : head.take 76 ++ answer.drop 76 = answer := by
        rw [← shape.2, List.take_append_drop]
      have written := serialize_withNonce wrote four
      rw [whole] at written
      -- Parsing the answer finds the nonce that stands in its last four bytes.
      have again := (CBlockHeader.readsBack_deserialize written).run_exact
      rw [again] at parsed
      cases parsed
      rcases bind_eq_ok.mp rehashed with ⟨header, hashed, assembled⟩
      cases assembled
      rcases CBlockHeader.rehash_spec hashed with ⟨bytes, -, same⟩
      refine ⟨head, text, answer, ran, decoded, ?_⟩
      rw [same]
      exact written

/-! ## The finished block -/

variable {base64 : Base64} {tmpl : BlockTemplate} {rewardSpk signetSolution : Bytes}
  {blocktime nversion : Option Int} {poolid : Option Bytes} {run : RunCommand}
  {grindCmd : Option String} {assembled block finished middle : CBlock} {signed : CTransaction}
  {rest : List CTransaction} {draft : Draft}

/-- The root of a finished block is over its own ids, if the transactions
behind the coinbase had no stale ones. -/
theorem FinishOf.merkleRoot
    (finish : FinishOf hash256 run grindCmd block signetSolution finished signed rest middle)
    (fresh : forall tx, tx ∈ rest -> tx.FreshId hash256) :
    Exists fun leaves => txids hash256 finished.vtx = .ok leaves ∧
      getMerkleRoot hash256 leaves = .ok finished.hashMerkleRoot := by
  have transactions := finish.transactions
  rcases finish.root with ⟨hashed, rooted, root, refreshed, merkle, rfl⟩
  have freshAll : forall tx, tx ∈ hashed :: rest -> tx.FreshId hash256 := by
    intro tx member
    rcases List.mem_cons.mp member with here | there
    · subst here
      exact CTransaction.freshId_of_rehash refreshed
    · exact fresh tx there
  rcases CBlock.calcMerkleRoot_spec freshAll merkle with ⟨leaves, ids, computed⟩
  have same : (hashed :: rest).map CTransaction.uncached =
      finished.vtx.map CTransaction.uncached := by
    rw [transactions, List.map_cons, List.map_cons, CTransaction.rehash_uncached refreshed]
  refine ⟨leaves, (txids_congr same).symm.trans ids, ?_⟩
  rcases finish.proof with ⟨_, _, _, rfl⟩
  exact computed

/-- The commitment is pushed as its four header bytes and the hash. -/
theorem commitment_push {root push : Bytes}
    (pushed : encodeOpPushdata (witnessCommitmentHeader ++ hash256 (root ++ zeroNonce)) =
      .ok push) :
    push = 0x24 :: (witnessCommitmentHeader ++ hash256 (root ++ zeroNonce)) := by
  have length : (witnessCommitmentHeader ++ hash256 (root ++ zeroNonce)).length = 36 := by
    rw [List.length_append, hash256.length_apply]
    rfl
  rw [encodeOpPushdata, length, if_pos (by decide)] at pushed
  cases pushed
  rfl

/-- The commitment hash stands behind the opcode, the push and the four header
bytes, whatever was appended to the script. -/
theorem take_commitment {root push suffix : Bytes}
    (pushed : encodeOpPushdata (witnessCommitmentHeader ++ hash256 (root ++ zeroNonce)) =
      .ok push) :
    (((opReturn :: push) ++ suffix).drop 6).take 32 = hash256 (root ++ List.replicate 32 0) := by
  rw [commitment_push pushed]
  exact List.take_left' (hash256.length_digest _)

/-- In front of the commitment hash stand the six bytes a node looks for. -/
theorem take_marker {root push suffix : Bytes}
    (pushed : encodeOpPushdata (witnessCommitmentHeader ++ hash256 (root ++ zeroNonce)) =
      .ok push) :
    ((opReturn :: push) ++ suffix).take 6 = [0x6a, 0x24, 0xaa, 0x21, 0xa9, 0xed] := by
  rw [commitment_push pushed]
  rfl

theorem blockTime_eq_max (tmpl : BlockTemplate) (blocktime : Option Int) :
    blockTime tmpl blocktime = max (blocktime.getD tmpl.curtime) tmpl.mintime := by
  unfold blockTime
  dsimp only
  split <;> omega

theorem DraftOf.consistent
    (drafted : DraftOf hash256 tmpl rewardSpk blocktime poolid nversion assembled draft)
    (same : block.uncached = assembled.uncached)
    (finish : FinishOf hash256 run grindCmd block signetSolution finished signed rest middle)
    (fresh : forall tx, tx ∈ rest -> tx.FreshId hash256) :
    Consistent hash256 tmpl rewardSpk blocktime nversion finished := by
  rcases finish.coinbase_uncached drafted same with ⟨push, pushed, signedShape⟩
  rcases finish.coinbase with ⟨_, _, blockShape, -, -⟩
  have transactions := finish.transactions
  rw [List.map_cons, signedShape, (drafted.vtx_of_same same blockShape).2] at transactions
  rcases List.map_eq_cons_iff.mp transactions with ⟨coinbase, rest', shape, sameCoinbase, behind⟩
  have vout : coinbase.vout = draft.coinbase.vout ++
      [{ nValue := 0, scriptPubKey := draft.script ++ push }] :=
    congrArg CTransaction.vout sameCoinbase
  have reward : draft.coinbase.vout =
      [{ nValue := tmpl.coinbasevalue, scriptPubKey := rewardSpk }] :=
    congrArg CTransaction.vout drafted.coinbase_uncached
  have vin := congrArg CTransaction.vin sameCoinbase
  have input := congrArg CTransaction.vin drafted.coinbase_uncached
  have wit : coinbase.wit = { vtxinwit := [{ scriptWitness := { stack := [zeroNonce] } }] } :=
    congrArg CTransaction.wit sameCoinbase
  have witroot : finished.calcWitnessMerkleRoot hash256 = .ok draft.witroot := by
    have tails : finished.vtx.tail.map CTransaction.uncached =
        (draft.uncommitted tmpl blocktime nversion).vtx.tail.map CTransaction.uncached := by
      rw [shape]
      exact behind
    rw [CBlock.calcWitnessMerkleRoot_congr hash256 tails, drafted.witroot]
  rcases getWitnessScript_spec drafted.script with ⟨root, commitPush, wroteRoot, committed, script⟩
  have header := finish.header
  have mine := drafted.header_of_same same
  exact
    { merkleRoot := finish.merkleRoot fresh
      commitment := ⟨coinbase, rest', { nValue := 0, scriptPubKey := draft.script ++ push },
        draft.witroot, root, shape, by rw [vout]; exact List.getLast?_concat, witroot, wroteRoot,
        by rw [script]; exact take_commitment committed⟩
      coinbase := ⟨coinbase, rest', _, { nValue := 0, scriptPubKey := draft.script ++ push }, shape,
        vin.trans input, by rw [wit]; rfl, by rw [vout, reward]; rfl⟩
      nVersion := header.1.trans mine.1
      hashPrevBlock := by rw [header.2.1, mine.2.1, drafted.hashPrevBlock]
      nBits := by rw [header.2.2.2, mine.2.2.2, drafted.nBits]
      nTime := by rw [header.2.2.1, mine.2.2.1, blockTime_eq_max]
      hashed := (proveWork_spec finish.work).2 }

/-- A block that went to the signer, came back and was finished is consistent in
itself and with its template. -/
theorem consistent_finishBlock {text : String} {request signed : PSBT} {bytes : Bytes}
    (canonical : CanonicalTransactions tmpl)
    (requested : generatePsbt hash256 base64 tmpl rewardSpk blocktime poolid nversion = .ok text)
    (encoded : request.toBase64 base64 = .ok text) (signedFrom : SignedFrom request signed)
    (wrote : signed.serialize = .ok bytes)
    (decoded : decodePsbt base64 (base64.encode bytes) = .ok (block, signetSolution))
    (finish : finishBlock hash256 run block signetSolution grindCmd = .ok finished) :
    Consistent hash256 tmpl rewardSpk blocktime nversion finished ∧
      Proven run grindCmd finished := by
  rcases embeds_of_generatePsbt requested encoded with ⟨sent, embedded, embeds⟩
  rcases embeds.drafted with ⟨assembled, draft, same, drafted⟩
  rcases decodePsbt_embedded canonical embeds signedFrom wrote with ⟨script, -, answer⟩
  rw [answer] at decoded
  cases decoded
  rcases finishOf_finishBlock finish with ⟨full, rest, middle, finishOf⟩
  have fresh : forall tx, tx ∈ rest -> tx.FreshId hash256 := by
    intro tx member
    rcases finishOf.coinbase with ⟨coinbase, _, shape, -, -⟩
    have inside : tx ∈ sent.uncached.vtx := by
      rw [shape]
      exact List.mem_cons_of_mem coinbase member
    rcases List.mem_map.mp inside with ⟨original, -, rfl⟩
    exact CTransaction.freshId_of_none rfl
  exact ⟨drafted.consistent (sent.uncached_uncached.trans same) finishOf fresh,
    proveWork_proven finishOf.work⟩

/-- A grind command that gives every header back as it came. -/
def echoCommand : RunCommand := fun cmd =>
  match cmd.getLast? with
  | none => .error .calledProcessError
  | some text => .ok text

theorem grindsNonce_echoCommand (grindCmd : String) : GrindsNonce echoCommand grindCmd := by
  intro head answer text length ran decoded
  rw [echoCommand, List.getLast?_concat] at ran
  cases ran
  rw [fromHex_toHex] at decoded
  cases decoded
  exact ⟨length, rfl⟩

theorem consistent_finishBlock_sample :
    Exists fun bytes => Exists fun decoded => Exists fun finished =>
      sampleSigned.serialize = .ok bytes ∧
      decodePsbt hexBase64 (hexBase64.encode bytes) = .ok decoded ∧
      finishBlock zeroHash echoCommand decoded.1 decoded.2 (some "grind") = .ok finished ∧
      Consistent zeroHash sampleTemplate [0x51] none none finished ∧
      Exists fun head => Exists fun text => Exists fun answer =>
        echoCommand (splitSpaces "grind" ++ [toHex head]) = .ok text ∧ fromHex text = .ok answer ∧
          finished.toCBlockHeader.serialize = .ok answer := by
  rcases generatePsbt_sampleTemplate with ⟨text, requested, encoded⟩
  rcases exists_of_isOk serialize_sampleSigned with ⟨bytes, wrote⟩
  rcases embeds_of_generatePsbt requested encoded with ⟨sent, embedded, embeds⟩
  rcases decodePsbt_embedded canonicalTransactions_sampleTemplate embeds signedFrom_sampleSigned
    wrote with ⟨script, scripted, answer⟩
  rcases embeds.assembled with ⟨challenge, pair, assembled, challenged, built, paired⟩
  have success : (fromHex sampleTemplate.signetChallenge >>= fun challenge =>
      assembleBlock zeroHash sampleTemplate [0x51] none none none >>= fun assembled =>
      signetTxs zeroHash assembled challenge >>= fun request =>
      serString ((inputField sampleSigned psbtInFinalScriptsig).getD []) >>= fun script =>
      finishBlock zeroHash echoCommand request.2.uncached
        (script ++ (inputField sampleSigned psbtInFinalScriptwitness).getD [0x00])
        (some "grind")).isOk = true := by
    decide +kernel
  simp only [challenged, built, paired, scripted, bind, Except.bind] at success
  rcases exists_of_isOk success with ⟨finished, finish⟩
  have both := consistent_finishBlock canonicalTransactions_sampleTemplate requested encoded
    signedFrom_sampleSigned wrote answer finish
  exact ⟨bytes, _, finished, wrote, answer, finish, both.1,
    both.2 (grindsNonce_echoCommand "grind")⟩

end Miner
end MutinyNet
