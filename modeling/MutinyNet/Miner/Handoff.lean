import MutinyNet.Miner.Assembly

namespace MutinyNet
namespace Miner

open Codec Python Messages

variable {hash256 : Hash256} {base64 : Base64} {tmpl : BlockTemplate} {rewardSpk : Bytes}
  {blocktime nversion : Option Int} {poolid : Option Bytes}

/-!
# The hand-off through the signer

The miner hands a PSBT to the wallet and gets a PSBT back, with a signature and
possibly more.  What it reads out of the answer must be the block it put into
the request and the signature alone, whatever else the wallet added.  The block
travels as bytes, so every format between the two sides is crossed once in each
direction.
-/

/-- The answer to a signing request: the same global entries, one input map
with everything the request had in it, and one output map. -/
structure SignedFrom (request signed : PSBT) : Prop where
  globals : signed.g.map.Perm request.g.map
  inputs : Exists fun before => Exists fun after => request.i = [before] ∧ signed.i = [after] ∧
    forall entry, entry ∈ before.map -> entry ∈ after.map
  outputs : signed.o.length = 1

/-- A field of the first input map. -/
def inputField (psbt : PSBT) (key : PSBTKey) : Option Bytes :=
  psbt.i.head?.bind fun input => input.get? key

/-- The bytes of a block whose transactions behind the coinbase are written as
`originals`. -/
def CarriesVerbatim (embedded : Bytes) (originals : List Bytes) : Prop :=
  Exists fun header : Bytes => Exists fun size => Exists fun coinbase =>
    header.length = 80 ∧ serCompactSize (originals.length + 1) = .ok size ∧
      embedded = header ++ (size ++ (coinbase ++ originals.flatten))

/-! ## The block inside the request -/

theorem DraftOf.readable {block : CBlock} {draft : Draft} (canonical : CanonicalTransactions tmpl)
    (drafted : DraftOf hash256 tmpl rewardSpk blocktime poolid nversion block draft) :
    block.Readable := by
  intro tx member
  rw [drafted.block] at member
  rcases List.mem_cons.mp member with here | there
  · subst here
    exact ⟨drafted.coinbase_inputs,
      parsed_withCommitment drafted.coinbase_single zeroNonce draft.script⟩
  · have spec := (txs_spec canonical drafted.txs).2 tx there
    exact ⟨spec.1, spec.2.1.trans spec.2.2.symm⟩

/-- The template's transactions stand in the block's bytes as they came. -/
theorem DraftOf.carriesVerbatim {block : CBlock} {draft : Draft} {embedded : Bytes}
    (canonical : CanonicalTransactions tmpl)
    (drafted : DraftOf hash256 tmpl rewardSpk blocktime poolid nversion block draft)
    (wrote : block.serialize = .ok embedded) :
    Exists fun originals => tmpl.transactions.mapM fromHex = .ok originals ∧
      CarriesVerbatim embedded originals := by
  rcases (txs_spec canonical drafted.txs).1 with ⟨originals, decoded, each⟩
  rcases CBlock.serialize_eq_ok.mp wrote with ⟨header, vtx, first, second, assembled⟩
  rcases serVector_eq_ok.mp second with ⟨size, items, sized, written, joined⟩
  rw [drafted.block] at sized written
  rcases writeMany_cons_eq_ok.mp written with ⟨coinbase, later, -, rest, split⟩
  have behind : writeMany CTransaction.serializeWithWitness draft.txs = .ok originals.flatten :=
    writeMany_of_forall₂ each
  rw [behind] at rest
  cases rest
  refine ⟨originals, decoded, header, size, coinbase, CBlockHeader.length_serialize first, ?_, ?_⟩
  · rw [← each.length_eq]
    exact sized
  · rw [assembled, joined, split]

/-- `block` is the block that was built from the template and put into the
request, and `embedded` is how it stands there. -/
structure Embeds (hash256 : Hash256) (tmpl : BlockTemplate) (rewardSpk : Bytes)
    (blocktime : Option Int) (poolid : Option Bytes) (nversion : Option Int) (request : PSBT)
    (block : CBlock) (embedded : Bytes) : Prop where
  assembled : Exists fun challenge => Exists fun pair => Exists fun assembled =>
    fromHex tmpl.signetChallenge = .ok challenge ∧
      assembleBlock hash256 tmpl rewardSpk blocktime poolid nversion = .ok assembled ∧
      signetTxs hash256 assembled challenge = .ok (pair, block)
  wrote : block.serialize = .ok embedded
  entry : request.g.get? psbtSignetBlock = some embedded

/-- A PSBT with the text that `generate_psbt` returns embeds the block. -/
theorem embeds_of_generatePsbt {text : String} {request : PSBT}
    (run : generatePsbt hash256 base64 tmpl rewardSpk blocktime poolid nversion = .ok text)
    (encoded : request.toBase64 base64 = .ok text) :
    Exists fun block => Exists fun embedded =>
      Embeds hash256 tmpl rewardSpk blocktime poolid nversion request block embedded := by
  rcases bind_eq_ok.mp run with ⟨psbt, built, encoded'⟩
  have same := (PSBT.toBase64_injective encoded encoded').1
  simp only [signingPsbt, bind_eq_ok] at built
  rcases built with ⟨challenge, decoded, assembled, built, ⟨⟨signme, spendme⟩, block⟩, paired,
    signmeBytes, -, embedded, wrote, spendmeBytes, -, shape⟩
  cases shape

  refine ⟨block, embedded, ⟨challenge, _, assembled, decoded, built, paired⟩, wrote, ?_⟩
  rw [same]
  rfl

/-- What was embedded is the assembled block, up to cached ids. -/
theorem Embeds.drafted {request : PSBT} {block : CBlock} {embedded : Bytes}
    (embeds : Embeds hash256 tmpl rewardSpk blocktime poolid nversion request block embedded) :
    Exists fun assembled => Exists fun draft => block.uncached = assembled.uncached ∧
      DraftOf hash256 tmpl rewardSpk blocktime poolid nversion assembled draft := by
  rcases embeds.assembled with ⟨challenge, ⟨spend, toSpend⟩, assembled, -, built, paired⟩
  rcases draftOf_assembleBlock built with ⟨draft, drafted⟩
  rcases signedPartsOf_signetTxs paired with ⟨signed, rest, hashes, mroot, parts⟩
  exact ⟨assembled, draft, parts.uncached, drafted⟩

/-! ## Reading the answer -/

/-- What `decode_psbt` needs to find in a PSBT to return the embedded block and
the two signature fields. -/
theorem decodePsbt_of_fields (base64 : Base64) {signed : PSBT} {bytes embedded script : Bytes}
    {input : PSBTMap} {block : CBlock} (wrote : signed.serialize = .ok bytes)
    (found : signed.g.get? psbtSignetBlock = some embedded) (one : signed.i = [input])
    (outputs : signed.o.length = 1)
    (parsed : fromBinary CBlock.deserialize embedded = .ok block)
    (scripted : serString ((inputField signed psbtInFinalScriptsig).getD []) = .ok script) :
    decodePsbt base64 (base64.encode bytes) =
      .ok (block, script ++ (inputField signed psbtInFinalScriptwitness).getD [0x00]) := by
  rcases PSBT.readsBack_deserialize wrote with ⟨unsigned, tx, -, -, inputs, outs, read⟩
  have vin : (tx.vin.length == 1) = true := by
    rw [inputs, one]
    rfl
  have vout : (tx.vout.length == 1) = true := by
    rw [outs, outputs]
    rfl
  have scriptSig : inputField signed psbtInFinalScriptsig = input.get? psbtInFinalScriptsig := by
    rw [inputField, one]
    rfl
  have witness : inputField signed psbtInFinalScriptwitness =
      input.get? psbtInFinalScriptwitness := by
    rw [inputField, one]
    rfl
  rw [scriptSig] at scripted
  rw [decodePsbt, PSBT.fromBase64_encode base64 read, witness]
  simp only [bind, Except.bind, assert, vin, vout, if_true, found, one, parsed, scripted]
  rfl

/-- The signature fields of a serialized answer fit their own length prefix. -/
theorem serString_inputField {signed : PSBT} {bytes : Bytes} (wrote : signed.serialize = .ok bytes)
    (key : PSBTKey) : Exists fun script => serString ((inputField signed key).getD []) = .ok script := by
  cases field : inputField signed key with
  | none => exact ⟨[0], rfl⟩
  | some value =>
      rcases Option.bind_eq_some_iff.mp field with ⟨input, first, found⟩
      have inside : input ∈ [signed.g] ++ signed.i ++ signed.o :=
        List.mem_append_left _ (List.mem_append_right _ (List.mem_of_head? first))
      rcases PSBT.serialize_maps wrote input inside with ⟨written, wroteInput⟩
      exact PSBTMap.serString_of_mem wroteInput (PSBTMap.mem_of_get? found)

/-- Whatever the signer answers to a request, the miner gets back the block it
embedded, with empty caches, and the signature. -/
theorem decodePsbt_embedded {request signed : PSBT} {block : CBlock} {embedded bytes : Bytes}
    (canonical : CanonicalTransactions tmpl)
    (embeds : Embeds hash256 tmpl rewardSpk blocktime poolid nversion request block embedded)
    (signedFrom : SignedFrom request signed) (wrote : signed.serialize = .ok bytes) :
    Exists fun script =>
      serString ((inputField signed psbtInFinalScriptsig).getD []) = .ok script ∧
      decodePsbt base64 (base64.encode bytes) =
        .ok (block.uncached, script ++ (inputField signed psbtInFinalScriptwitness).getD [0x00]) := by
  rcases embeds.drafted with ⟨assembled, draft, same, drafted⟩
  have readable := (drafted.readable canonical).congr same.symm
  have parsed := fromBinary_of_readsBack (CBlock.readsBack_deserialize readable embeds.wrote)
  rcases signedFrom.inputs with ⟨before, after, -, one, -⟩
  have member : (psbtSignetBlock, embedded) ∈ signed.g.map := by
    rw [signedFrom.globals.mem_iff]
    exact PSBTMap.mem_of_get? embeds.entry
  rcases serString_inputField wrote psbtInFinalScriptsig with ⟨script, scripted⟩
  exact ⟨script, scripted, decodePsbt_of_fields base64 wrote (PSBTMap.get?_of_mem member) one
    signedFrom.outputs parsed scripted⟩

/-- The block that comes back has the bytes of the one that was sent, and the
template's transactions in them as they came. -/
theorem decodePsbt_signedFrom {text : String} {request signed : PSBT} {bytes : Bytes}
    (canonical : CanonicalTransactions tmpl)
    (run : generatePsbt hash256 base64 tmpl rewardSpk blocktime poolid nversion = .ok text)
    (encoded : request.toBase64 base64 = .ok text) (signedFrom : SignedFrom request signed)
    (wrote : signed.serialize = .ok bytes) :
    Exists fun block => Exists fun embedded => Exists fun originals => Exists fun block' =>
      Exists fun script =>
        Embeds hash256 tmpl rewardSpk blocktime poolid nversion request block embedded ∧
        tmpl.transactions.mapM fromHex = .ok originals ∧
        serString ((inputField signed psbtInFinalScriptsig).getD []) = .ok script ∧
        decodePsbt base64 (base64.encode bytes) =
          .ok (block', script ++ (inputField signed psbtInFinalScriptwitness).getD [0x00]) ∧
        block'.serialize = block.serialize ∧ block'.serialize = .ok embedded ∧
        CarriesVerbatim embedded originals := by
  rcases embeds_of_generatePsbt run encoded with ⟨block, embedded, embeds⟩
  rcases embeds.drafted with ⟨assembled, draft, same, drafted⟩
  have wroteAssembled : assembled.serialize = .ok embedded := by
    rw [← CBlock.serialize_congr same]
    exact embeds.wrote
  rcases drafted.carriesVerbatim canonical wroteAssembled with ⟨originals, decoded, verbatim⟩
  rcases decodePsbt_embedded canonical embeds signedFrom wrote with ⟨script, scripted, answer⟩
  have unchanged : block.uncached.serialize = block.serialize := block.serialize_uncached
  exact ⟨block, embedded, originals, block.uncached, script, embeds, decoded, scripted, answer,
    unchanged, unchanged.trans embeds.wrote, verbatim⟩

/-! ## A sample round -/

/-- A hash with a single value, and hexadecimal in the place of base64: enough
to run the miner on a fixed template. -/
def zeroHash : Hash256 where
  digest := fun _ => List.replicate 32 0
  length_digest := fun _ => List.length_replicate

def hexBase64 : Base64 where
  encode := toHex
  decode := fromHex
  decode_encode := fromHex_toHex

def sampleTransaction : CTransaction where
  vin := [{ prevout := { hash := 7, n := 1 }, scriptSig := [], nSequence := maxSequenceNonfinal }]
  vout := [{ nValue := 1, scriptPubKey := [0x51] }]

def sampleData : Bytes :=
  sampleTransaction.serialize.toOption.getD []

def sampleTemplate : BlockTemplate where
  signetChallenge := "51"
  height := 300
  coinbasevalue := 5000000000
  version := 0x20000000
  previousblockhash := "0000000000000000000000000000000000000000000000000000000000000a0b"
  curtime := 1700000000
  mintime := 1699999999
  bits := "1e0377ae"
  transactions := [toHex sampleData]

def sampleRequest : PSBT :=
  (signingPsbt zeroHash sampleTemplate [0x51] none none none).toOption.getD {}

/-- The sample request with its global entries in the other order, and a final
witness in its input. -/
def sampleSigned : PSBT where
  g :=
    { map := sampleRequest.g.map.reverse
      nodup := by
        rw [List.map_reverse]
        exact List.nodup_reverse.mpr sampleRequest.g.nodup }
  i := sampleRequest.i.map fun input =>
    if fresh : psbtInFinalScriptwitness ∉ input.keys then
      input.insertNew psbtInFinalScriptwitness [0x01, 0x00] fresh
    else input
  o := sampleRequest.o

theorem canonicalTransactions_sampleTemplate : CanonicalTransactions sampleTemplate := by
  intro hexString member
  rw [List.mem_singleton.mp member]
  exact ⟨sampleData, fromHex_toHex sampleData, sampleTransaction.parsed, by decide +kernel,
    List.cons_ne_nil _ _, by decide +kernel⟩

theorem signingPsbt_sampleTemplate :
    signingPsbt zeroHash sampleTemplate [0x51] none none none = .ok sampleRequest := by
  have success : (signingPsbt zeroHash sampleTemplate [0x51] none none none).isOk = true := by
    decide +kernel
  rcases exists_of_isOk success with ⟨request, built⟩
  rw [sampleRequest, built]
  rfl

theorem generatePsbt_sampleTemplate :
    Exists fun text => generatePsbt zeroHash hexBase64 sampleTemplate [0x51] none none none =
      .ok text ∧ sampleRequest.toBase64 hexBase64 = .ok text := by
  have success : sampleRequest.serialize.isOk = true := by decide +kernel
  rcases exists_of_isOk success with ⟨bytes, wrote⟩
  have encoded : sampleRequest.toBase64 hexBase64 = .ok (hexBase64.encode bytes) :=
    bind_eq_ok.mpr ⟨bytes, wrote, rfl⟩
  exact ⟨hexBase64.encode bytes,
    bind_eq_ok.mpr ⟨sampleRequest, signingPsbt_sampleTemplate, encoded⟩, encoded⟩

theorem signedFrom_sampleSigned : SignedFrom sampleRequest sampleSigned := by
  have built := signingPsbt_sampleTemplate
  simp only [signingPsbt, bind_eq_ok] at built
  rcases built with ⟨_, -, _, -, _, -, signme, -, embedded, -, spendme, -, shape⟩
  have request : sampleRequest = blockPsbt signme embedded spendme := (Except.ok.inj shape).symm
  let input : PSBTMap :=
    { map := [(psbtInNonWitnessUtxo, spendme)], nodup := List.nodup_singleton psbtInNonWitnessUtxo }
  have fresh : psbtInFinalScriptwitness ∉ input.keys := by
    change psbtInFinalScriptwitness ∉ [psbtInNonWitnessUtxo]
    decide
  have one : sampleRequest.i = [input] := by
    rw [request]
    rfl
  have reversed : sampleSigned.g.map = sampleRequest.g.map.reverse := by
    rw [sampleSigned]
  have answered : sampleSigned.i =
      [input.insertNew psbtInFinalScriptwitness [0x01, 0x00] fresh] := by
    rw [sampleSigned, one, List.map_singleton, dif_pos fresh]
  have outputs : sampleSigned.o = sampleRequest.o := by
    rw [sampleSigned]
  constructor
  · rw [reversed]
    exact List.reverse_perm _
  · refine ⟨input, _, one, answered, ?_⟩
    intro entry member
    exact List.mem_append_left _ member
  · rw [outputs, request]
    rfl

theorem serialize_sampleSigned : sampleSigned.serialize.isOk = true := by
  decide +kernel

theorem decodePsbt_signedFrom_sample :
    Exists fun text => Exists fun bytes =>
      generatePsbt zeroHash hexBase64 sampleTemplate [0x51] none none none = .ok text ∧
      sampleSigned.serialize = .ok bytes ∧
      Exists fun block => Exists fun embedded => Exists fun originals => Exists fun block' =>
        Exists fun script =>
          Embeds zeroHash sampleTemplate [0x51] none none none sampleRequest block embedded ∧
          sampleTemplate.transactions.mapM fromHex = .ok originals ∧
          serString ((inputField sampleSigned psbtInFinalScriptsig).getD []) = .ok script ∧
          decodePsbt hexBase64 (hexBase64.encode bytes) = .ok (block', script ++
            (inputField sampleSigned psbtInFinalScriptwitness).getD [0x00]) ∧
          block'.serialize = block.serialize ∧ block'.serialize = .ok embedded ∧
          CarriesVerbatim embedded originals := by
  rcases generatePsbt_sampleTemplate with ⟨text, run, encoded⟩
  rcases exists_of_isOk serialize_sampleSigned with ⟨bytes, wrote⟩
  exact ⟨text, bytes, run, wrote, decodePsbt_signedFrom canonicalTransactions_sampleTemplate run
    encoded signedFrom_sampleSigned wrote⟩

end Miner
end MutinyNet
