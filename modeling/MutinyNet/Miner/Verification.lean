import MutinyNet.Miner.Finish

namespace MutinyNet
namespace Miner

open Codec Python Messages

/-!
# The verifier's side of the signature

A node that receives a signet block takes the solution out of the coinbase
again: it parses the script of the last output, cuts the first push that starts
with the signet header back to that header, and builds the signed pair from the
block with the shortened script.  Nothing of this is in the miner, which edits
the script twice in different places and never parses it; so the verifier's
view is defined here on its own, and the theorem says that it comes to the pair
that was signed.
-/

/-- The solution in a push that is longer than the signet header and starts
with it. -/
def solutionOf (data : Bytes) : Option Bytes :=
  if 4 < data.length ∧ data.take 4 = signetHeader then some (data.drop 4) else none

/-- An item as a script builder writes it: data in the shortest push, anything
else by its opcode. -/
def reencode (item : ScriptItem) : Except PyError Bytes :=
  match item.data with
  | none => .ok [item.opcode]
  | some [] => .ok [item.opcode]
  | some data => encodeOpPushdata data

/-- The first solution of a script, and the script with that push cut back to
the signet header. -/
def fetchAndClear : List ScriptItem -> Except PyError (Option Bytes × Bytes)
  | [] => .ok (none, [])
  | item :: items =>
      match item.data.bind solutionOf with
      | some solution => do
          let push ← encodeOpPushdata signetHeader
          let later ← writeMany reencode items
          pure (some solution, push ++ later)
      | none => do
          let written ← reencode item
          let (solution, later) ← fetchAndClear items
          pure (solution, written ++ later)

variable (hash256 : Hash256)

/-- The verifier's view of a block under a challenge: the solution it carries
and the pair of transactions that solution has to satisfy. -/
def verifierView (block : CBlock) (challenge : Bytes) :
    Except PyError (Bytes × (CTransaction × CTransaction)) :=
  match block.vtx with
  | [] => .error .indexError
  | coinbase :: rest =>
      match coinbase.vout.getLast? with
      | none => .error .indexError
      | some out => do
          let items ← rawIter out.scriptPubKey
          let (found, cleared) ← fetchAndClear items
          match found with
          | none => .error .assertionError
          | some solution => do
              let cleared := { coinbase with
                vout := coinbase.vout.dropLast ++ [{ out with scriptPubKey := cleared }] }
              let leaves ← txids hash256 (cleared :: rest)
              let mroot ← getMerkleRoot hash256 leaves
              let pair ← signetPair hash256 block.nVersion block.hashPrevBlock mroot block.nTime
                challenge
              pure (solution, pair)

/-! ## The script of a finished coinbase -/

theorem solutionOf_append {signetSolution : Bytes} (nonempty : signetSolution ≠ []) :
    solutionOf (signetHeader ++ signetSolution) = some signetSolution := by
  have long : 4 < (signetHeader ++ signetSolution).length := by
    have some := List.length_pos_of_ne_nil nonempty
    change 4 < (signetHeader ++ signetSolution).length
    rw [List.length_append]
    change 4 < 4 + signetSolution.length
    omega
  exact if_pos ⟨long, rfl⟩

theorem solutionOf_commitment (commitment : Bytes) :
    solutionOf (witnessCommitmentHeader ++ commitment) = none := by
  have other : ¬ (witnessCommitmentHeader ++ commitment).take 4 = signetHeader := by
    intro same
    have first := congrArg List.head? same
    cases first
  exact if_neg fun both => other both.2

/-- Parsing the finished script finds the opcode, the commitment and the
signature push, whatever forms the pushes take. -/
theorem rawIter_finished {data solution first second : Bytes}
    (pushed : encodeOpPushdata data = .ok first) (pushed' : encodeOpPushdata solution = .ok second) :
    Exists fun opcode => Exists fun opcode' => Exists fun next =>
      rawIter (opReturn :: (first ++ second)) = .ok
        [{ opcode := opReturn, data := none, sopIdx := 0 },
          { opcode, data := some data, sopIdx := 1 },
          { opcode := opcode', data := some solution, sopIdx := next }] := by
  have long := length_encodeOpPushdata pushed
  have long' := length_encodeOpPushdata pushed'
  have steps : Exists fun fuel => (opReturn :: (first ++ second)).length = fuel + 1 + 1 + 1 := by
    refine ⟨(first ++ second).length - 2, ?_⟩
    simp only [List.length_cons, List.length_append]
    omega
  rcases steps with ⟨fuel, enough⟩
  rcases rawIterFrom_push pushed (fuel + 1) 1 second with ⟨opcode, next, parsed⟩
  rcases rawIterFrom_push pushed' fuel next [] with ⟨opcode', last, parsed'⟩
  rw [List.append_nil] at parsed'
  refine ⟨opcode, opcode', next, ?_⟩
  rw [rawIter, enough, rawIterFrom_opcode (by decide), parsed, parsed', rawIterFrom_nil]
  rfl

/-- Behind a commitment script, the verifier finds the solution that was pushed
and leaves the bare header in its place. -/
theorem fetchAndClear_finished {commitment signetSolution push push' : Bytes}
    (pushed : encodeOpPushdata (witnessCommitmentHeader ++ commitment) = .ok push)
    (pushed' : encodeOpPushdata (signetHeader ++ signetSolution) = .ok push')
    (nonempty : signetSolution ≠ []) :
    (rawIter (opReturn :: (push ++ push')) >>= fetchAndClear) =
      .ok (some signetSolution, opReturn :: (push ++ headerPush)) := by
  rcases rawIter_finished pushed pushed' with ⟨opcode, opcode', next, parsed⟩
  have kept : reencode { opcode, data := some (witnessCommitmentHeader ++ commitment), sopIdx := 1 } =
      .ok push := pushed
  rw [parsed]
  simp only [bind, Except.bind, fetchAndClear, Option.bind_none, Option.bind_some,
    solutionOf_commitment, solutionOf_append nonempty, kept, encodeOpPushdata_signetHeader,
    writeMany, pure, Except.pure]
  simp only [reencode, List.append_nil, List.cons_append, List.nil_append]

/-! ## The pair that was signed -/

variable {hash256} {tmpl : BlockTemplate} {rewardSpk challenge signetSolution : Bytes}
  {blocktime nversion : Option Int} {poolid : Option Bytes} {run : RunCommand}
  {grindCmd : Option String} {assembled embedded block finished : CBlock}
  {pair : CTransaction × CTransaction}

/-- The root under the signature is the one over the ids of the transactions
with the bare header behind the commitment. -/
theorem SignedPartsOf.txids {spend toSpend signed : CTransaction} {block' : CBlock}
    {rest : List CTransaction} {hashes : List Bytes} {mroot : Int}
    (parts : SignedPartsOf hash256 block challenge spend toSpend block' signed rest hashes mroot) :
    txids hash256 (signed :: rest) = .ok hashes := by
  rcases parts.leaves with ⟨txs, hashed, -⟩
  exact txids_of_isTxid (txidLeaves_spec (fun tx _ => refreshes_rehash tx) hashed).1

/-- Cutting the script of a committed coinbase back to another script. -/
theorem uncached_withScript {coinbase cbtx : CTransaction} {nonce script : Bytes}
    (same : coinbase.uncached = (withCommitment cbtx nonce script).uncached) (script' : Bytes) :
    CTransaction.uncached { coinbase with
      vout := cbtx.vout ++ [{ nValue := 0, scriptPubKey := script' }] } =
        (withCommitment cbtx nonce script').uncached := by
  have replaced := congrArg (fun tx : CTransaction =>
    ({ tx with vout := cbtx.vout ++ [{ nValue := 0, scriptPubKey := script' }] } : CTransaction))
    same
  exact replaced

/-- The outputs of a coinbase with a commitment. -/
theorem vout_withCommitment {coinbase cbtx : CTransaction} {nonce script : Bytes}
    (same : coinbase.uncached = (withCommitment cbtx nonce script).uncached) :
    coinbase.vout.getLast? = some { nValue := 0, scriptPubKey := script } ∧
      coinbase.vout.dropLast = cbtx.vout := by
  have vout : coinbase.vout = cbtx.vout ++ [{ nValue := 0, scriptPubKey := script }] :=
    congrArg CTransaction.vout same
  rw [vout]
  exact ⟨List.getLast?_concat, List.dropLast_concat⟩

/-- The verifier's view of a block whose coinbase carries a commitment script
and a pushed solution. -/
theorem verifierView_of_committed {coinbase cbtx : CTransaction} {rest : List CTransaction}
    {commitment push push' : Bytes} {leaves : List Bytes} {mroot : Int}
    (shape : finished.vtx = coinbase :: rest)
    (same : coinbase.uncached =
      (withCommitment cbtx zeroNonce (opReturn :: (push ++ push'))).uncached)
    (pushed : encodeOpPushdata (witnessCommitmentHeader ++ commitment) = .ok push)
    (pushed' : encodeOpPushdata (signetHeader ++ signetSolution) = .ok push')
    (nonempty : signetSolution ≠ [])
    (ids : txids hash256 (withCommitment cbtx zeroNonce (opReturn :: (push ++ headerPush)) :: rest) =
      .ok leaves)
    (root : getMerkleRoot hash256 leaves = .ok mroot)
    (paired : signetPair hash256 finished.nVersion finished.hashPrevBlock mroot finished.nTime
      challenge = .ok pair) :
    verifierView hash256 finished challenge = .ok (signetSolution, pair) := by
  have outputs := vout_withCommitment same
  have cleared := fetchAndClear_finished pushed pushed' nonempty
  rcases bind_eq_ok.mp cleared with ⟨items, parsed, fetched⟩
  have cut := uncached_withScript same (opReturn :: (push ++ headerPush))
  have sameIds : txids hash256 ({ coinbase with vout := cbtx.vout ++
      [{ nValue := 0, scriptPubKey := opReturn :: (push ++ headerPush) }] } :: rest) =
        .ok leaves := by
    rw [← ids]
    exact txids_congr (by rw [List.map_cons, List.map_cons, cut])
  rw [verifierView, shape]
  simp only [outputs.1, outputs.2, bind, Except.bind, parsed, fetched, sameIds, root, paired]
  rfl

/-- Whatever nonce was found and however long the solution is, the verifier
reads the solution out of the finished block and comes to the pair that was put
in the signing request. -/
theorem verifierView_finishBlock
    (built : assembleBlock hash256 tmpl rewardSpk blocktime poolid nversion = .ok assembled)
    (signed : signetTxs hash256 assembled challenge = .ok (pair, embedded))
    (same : block.uncached = assembled.uncached) (nonempty : signetSolution ≠ [])
    (finish : finishBlock hash256 run block signetSolution grindCmd = .ok finished) :
    verifierView hash256 finished challenge = .ok (signetSolution, pair) := by
  rcases pair with ⟨spend, toSpend⟩
  rcases draftOf_assembleBlock built with ⟨draft, drafted⟩
  rcases signedPartsOf_signetTxs signed with ⟨bare, others, hashes, mroot, parts⟩
  rcases finishOf_finishBlock finish with ⟨full, rest, middle, finishOf⟩
  rcases finishOf.coinbase_uncached drafted same with ⟨push', pushed', fullShape⟩
  rcases getWitnessScript_spec drafted.script with ⟨_, push, -, pushed, script⟩
  rcases parts.coinbase with ⟨original, originalShape, appended⟩
  rcases finishOf.coinbase with ⟨_, _, blockShape, -, -⟩
  have signedShape := drafted.vtx_of_same rfl originalShape
  have transactions := finishOf.transactions
  rw [List.map_cons, fullShape, (drafted.vtx_of_same same blockShape).2, ← signedShape.2]
    at transactions
  rcases List.map_eq_cons_iff.mp transactions with ⟨coinbase, rest', shape, sameCoinbase, behind⟩
  have bareShape := appendToLastOutput_congr signedShape.1 appended
    (appendToLastOutput_withCommitment draft.coinbase zeroNonce draft.script headerPush)
  rw [script] at sameCoinbase bareShape
  have ids := parts.txids
  rw [txids_congr (show (bare :: others).map CTransaction.uncached =
      (withCommitment draft.coinbase zeroNonce (opReturn :: (push ++ headerPush)) ::
        rest').map CTransaction.uncached by
    rw [List.map_cons, List.map_cons, bareShape, behind]
    rfl)] at ids
  have header := finishOf.header
  have mine := drafted.header_of_same same
  have theirs := drafted.header_of_same (rfl : assembled.uncached = assembled.uncached)
  refine verifierView_of_committed shape sameCoinbase pushed pushed' nonempty ids parts.root ?_
  rw [header.1, mine.1, ← theirs.1, header.2.1, mine.2.1, ← theirs.2.1, header.2.2.1, mine.2.2.1,
    ← theirs.2.2.1]
  exact parts.pair

theorem verifierView_finishBlock_sample :
    Exists fun assembled => Exists fun pair => Exists fun finished =>
      assembleBlock zeroHash sampleTemplate [0x51] none none none = .ok assembled ∧
      finishBlock zeroHash noCommand assembled [0x00, 0x01, 0x00] none = .ok finished ∧
      verifierView zeroHash finished [0x51] = .ok ([0x00, 0x01, 0x00], pair) := by
  have success : (assembleBlock zeroHash sampleTemplate [0x51] none none none >>= fun assembled =>
      signetTxs zeroHash assembled [0x51] >>= fun _ =>
      finishBlock zeroHash noCommand assembled [0x00, 0x01, 0x00] none).isOk = true := by
    decide +kernel
  rcases exists_of_isOk success with ⟨finished, ran⟩
  simp only [bind_eq_ok] at ran
  rcases ran with ⟨assembled, built, ⟨pair, embedded⟩, signed, finish⟩
  exact ⟨assembled, pair, finished, built, finish,
    verifierView_finishBlock built signed rfl (List.cons_ne_nil _ _) finish⟩

end Miner
end MutinyNet
