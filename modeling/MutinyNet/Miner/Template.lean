import MutinyNet.Messages.Psbt
import MutinyNet.Messages.Script

namespace MutinyNet
namespace Miner

open Codec Python Messages

/-!
# From a block template to a block and its signing request

The first half of the `miner` program: `generate_psbt` builds the block and
embeds it in a PSBT, `signet_txs` builds the pair of transactions that stands
for the block in the signature, `decode_psbt` takes block and signature out of
the signed PSBT, and `finish_block` puts the signature into the coinbase and
finds a proof of work.
-/

def signetHeader : Bytes := [0xec, 0xc7, 0xda, 0xa2]

/-- The proprietary global field holding the block being signed: the bytes
252 and 6, and `signetb`. -/
def psbtSignetBlock : PSBTKey :=
  .bytes 0xfc 0x06 [0x73, 0x69, 0x67, 0x6e, 0x65, 0x74, 0x62]

def maxSequenceNonfinal : Int := 0xfffffffe

/-- The fields of a `getblocktemplate` answer that the miner reads;
`transactions` holds the `data` of each entry. -/
structure BlockTemplate where
  signetChallenge : String
  height : Int
  coinbasevalue : Int
  version : Int
  previousblockhash : String
  curtime : Int
  mintime : Int
  bits : String
  transactions : List String
  deriving DecidableEq, Repr

/-- `tx_from_hex`: what follows the transaction is not looked at. -/
def txFromHex (hexString : String) : Except PyError CTransaction := do
  let bytes ← fromHex hexString
  let (tx, _) ← CTransaction.deserialize.run bytes
  pure tx

/-- `tx.vout[-1].scriptPubKey += suffix`. -/
def appendToLastOutput (tx : CTransaction) (suffix : Bytes) : Except PyError CTransaction :=
  match tx.vout.getLast? with
  | none => .error .indexError
  | some out => .ok { tx with
      vout := tx.vout.dropLast ++ [{ out with scriptPubKey := out.scriptPubKey ++ suffix }] }

/-! ## The pair of transactions that is signed -/

/-- The data `to_spend` commits to: version, previous hash, root and time. -/
def signetData (nVersion hashPrevBlock mroot nTime : Int) : Except PyError Bytes := do
  let nVersion ← intToBytes 4 true nVersion
  let hashPrevBlock ← serUint256 hashPrevBlock
  let mroot ← serUint256 mroot
  let nTime ← intToBytes 4 false nTime
  pure (nVersion ++ (hashPrevBlock ++ (mroot ++ nTime)))

/-- The virtual transaction whose output carries the challenge. -/
def toSpendTx (sdPush challenge : Bytes) : CTransaction where
  version := 0
  nLockTime := 0
  vin := [{ prevout := { hash := 0, n := 0xFFFFFFFF }, scriptSig := 0x00 :: sdPush, nSequence := 0 }]
  vout := [{ nValue := 0, scriptPubKey := challenge }]

/-- The virtual transaction that spends it. -/
def spendTx (toSpendSha256 : Int) : CTransaction where
  version := 0
  nLockTime := 0
  vin := [{ prevout := { hash := toSpendSha256, n := 0 }, scriptSig := [], nSequence := 0 }]
  vout := [{ nValue := 0, scriptPubKey := [0x6a] }]

variable (hash256 : Hash256)

/-- The second half of `signet_txs`, from the Merkle root on. -/
def signetPair (nVersion hashPrevBlock mroot nTime : Int) (challenge : Bytes) :
    Except PyError (CTransaction × CTransaction) := do
  let sd ← signetData nVersion hashPrevBlock mroot nTime
  let sdPush ← encodeOpPushdata sd
  let toSpend ← (toSpendTx sdPush challenge).rehash hash256
  match toSpend.sha256 with
  | none => .error .attributeError
  | some sha256 => pure (spendTx sha256, toSpend)

/-- `signet_txs`.  The coinbase is a copy, but the other transactions are the
block's own objects, so their refreshed ids stay in the block. -/
def signetTxs (block : CBlock) (challenge : Bytes) :
    Except PyError ((CTransaction × CTransaction) × CBlock) :=
  match block.vtx with
  | [] => .error .indexError
  | coinbase :: rest => do
      let push ← encodeOpPushdata signetHeader
      let signed ← appendToLastOutput coinbase push
      let (txs, hashes) ← txidLeaves (CTransaction.rehash hash256) (signed :: rest)
      let mroot ← getMerkleRoot hash256 hashes
      let pair ← signetPair hash256 block.nVersion block.hashPrevBlock mroot block.nTime challenge
      pure (pair, { block with vtx := coinbase :: txs.tail })

/-! ## The block and the PSBT around it -/

/-- The coinbase script: the height, and the pool id as one push behind it. -/
def coinbaseScriptSig (height : Int) (poolid : Option Bytes) : Except PyError Bytes := do
  let scriptSig ← scriptBIP34CoinbaseHeight height
  match poolid with
  | none => pure scriptSig
  | some poolid => do
      let push ← encodeOpPushdata poolid
      pure (scriptSig ++ push)

/-- The coinbase before the witness commitment is added. -/
def rewardCoinbase (tmpl : BlockTemplate) (rewardSpk scriptSig : Bytes) : CTransaction where
  vin := [{ prevout := { hash := 0, n := 0xffffffff }, scriptSig, nSequence := maxSequenceNonfinal }]
  vout := [{ nValue := tmpl.coinbasevalue, scriptPubKey := rewardSpk }]
  nLockTime := tmpl.height - 1

/-- The coinbase witness and the output committing to the witness root. -/
def withCommitment (cbtx : CTransaction) (nonce script : Bytes) : CTransaction :=
  { cbtx with
    wit := { vtxinwit := [{ scriptWitness := { stack := [nonce] } }] }
    vout := cbtx.vout ++ [{ nValue := 0, scriptPubKey := script }] }

/-- The block time: at least the template's minimum. -/
def blockTime (tmpl : BlockTemplate) (blocktime : Option Int) : Int :=
  let nTime := blocktime.getD tmpl.curtime
  if nTime < tmpl.mintime then tmpl.mintime else nTime

/-- The part of `generate_psbt` that builds the block. -/
def assembleBlock (tmpl : BlockTemplate) (rewardSpk : Bytes) (blocktime : Option Int)
    (poolid : Option Bytes) (nversion : Option Int) : Except PyError CBlock := do
  let scriptSig ← coinbaseScriptSig tmpl.height poolid
  let cbtx ← (rewardCoinbase tmpl rewardSpk scriptSig).rehash hash256
  let hashPrevBlock ← intFromHex tmpl.previousblockhash
  let nBits ← intFromHex tmpl.bits
  let txs ← tmpl.transactions.mapM txFromHex
  let block : CBlock :=
    { nVersion := nversion.getD tmpl.version
      hashPrevBlock
      nTime := blockTime tmpl blocktime
      nBits
      nNonce := 0
      vtx := cbtx :: txs }
  let witnonce := 0
  let witroot ← block.calcWitnessMerkleRoot hash256
  let nonce ← serUint256 witnonce
  let script ← getWitnessScript hash256 witroot witnonce
  pure { block with vtx := withCommitment cbtx nonce script :: txs }

/-- The PSBT around the two serialized transactions and the serialized block. -/
def blockPsbt (signme embedded spendme : Bytes) : PSBT where
  g :=
    { map := [(psbtGlobalUnsignedTx, signme), (psbtSignetBlock, embedded)]
      nodup := show [psbtGlobalUnsignedTx, psbtSignetBlock].Nodup by decide }
  i :=
    [{ map := [(psbtInNonWitnessUtxo, spendme)]
       nodup := List.nodup_singleton psbtInNonWitnessUtxo }]
  o := [{}]

/-- The PSBT of `generate_psbt`. -/
def signingPsbt (tmpl : BlockTemplate) (rewardSpk : Bytes) (blocktime : Option Int)
    (poolid : Option Bytes) (nversion : Option Int) : Except PyError PSBT := do
  let signetSpkBin ← fromHex tmpl.signetChallenge
  let block ← assembleBlock hash256 tmpl rewardSpk blocktime poolid nversion
  let ((signme, spendme), block) ← signetTxs hash256 block signetSpkBin
  let signme ← signme.serialize
  let embedded ← block.serialize
  let spendme ← spendme.serialize
  pure (blockPsbt signme embedded spendme)

def generatePsbt (base64 : Base64) (tmpl : BlockTemplate) (rewardSpk : Bytes)
    (blocktime : Option Int) (poolid : Option Bytes) (nversion : Option Int) :
    Except PyError String := do
  let psbt ← signingPsbt hash256 tmpl rewardSpk blocktime poolid nversion
  psbt.toBase64 base64

/-! ## The signed PSBT -/

def decodePsbt (base64 : Base64) (b64psbt : String) : Except PyError (CBlock × Bytes) := do
  let psbt ← PSBT.fromBase64 base64 b64psbt
  match psbt.tx with
  | none => .error .attributeError
  | some tx => do
      assert (tx.vin.length == 1)
      assert (tx.vout.length == 1)
      match psbt.g.get? psbtSignetBlock with
      | none => .error .assertionError
      | some embedded =>
          match psbt.i with
          | [] => .error .indexError
          | input :: _ => do
              let scriptSig := (input.get? psbtInFinalScriptsig).getD []
              let scriptWitness := (input.get? psbtInFinalScriptwitness).getD [0x00]
              let block ← fromBinary CBlock.deserialize embedded
              let script ← serString scriptSig
              pure (block, script ++ scriptWitness)

/-- Python's `text.split(" ")`. -/
def splitSpaces (text : String) : List String :=
  (text.toList.splitOn ' ').map String.ofList

/-- `subprocess.run(cmd, ..., check=True).stdout.strip()`, as text. -/
abbrev RunCommand := List String -> Except PyError String

/-- The proof of work at the end of `finish_block`: without a command the block
is solved here, with one only the nonce of the returned header is taken. -/
def proveWork (run : RunCommand) (grindCmd : Option String) (block : CBlock) :
    Except PyError CBlock :=
  match grindCmd with
  | none => block.solve hash256
  | some grindCmd => do
      let head ← block.toCBlockHeader.serialize
      let newheadhex ← run (splitSpaces grindCmd ++ [toHex head])
      let newheadBytes ← fromHex newheadhex
      let (newhead, _) ← CBlockHeader.deserialize.run newheadBytes
      { block with nNonce := newhead.nNonce }.rehash hash256

def finishBlock (run : RunCommand) (block : CBlock) (signetSolution : Bytes)
    (grindCmd : Option String) : Except PyError CBlock :=
  match block.vtx with
  | [] => .error .indexError
  | coinbase :: rest => do
      let push ← encodeOpPushdata (signetHeader ++ signetSolution)
      let coinbase ← appendToLastOutput coinbase push
      let coinbase ← coinbase.rehash hash256
      let (block, root) ← { block with vtx := coinbase :: rest }.calcMerkleRoot hash256
      proveWork hash256 run grindCmd { block with hashMerkleRoot := root }

end Miner
end MutinyNet
