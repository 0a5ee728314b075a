import MutinyNet.Miner.Verification

namespace MutinyNet
namespace Miner

open Codec Python Messages Hashing

/-!
# What the signature binds

The signer sees one transaction, `spend`, and that transaction holds one hash.
Everything in the block hangs under it: the data push with the header fields
and the Merkle root, the root over the transaction ids, and in the coinbase the
commitment to a second root, over the hashes with the witnesses.  Two blocks
with the same `spend` agree in all of it, or the strings hashed while building
them contain a collision.  Nothing is assumed about the hash.
-/

/-- The strings that are hashed on the way from a block to its `spend`: the
transactions without their witnesses, with the signet header pushed into the
coinbase; `to_spend`; the transactions behind the coinbase with their
witnesses; and the witness root with the nonce. -/
structure Preimages where
  ids : List Bytes
  toSpend : Bytes
  witnesses : List Bytes
  commitment : Bytes

variable (hash256 : Hash256)

/-- These strings and the concatenations hashed in the two trees. -/
def Preimages.strings (preimages : Preimages) : List Bytes :=
  preimages.toSpend :: preimages.commitment :: (preimages.ids ++ preimages.witnesses ++
    MerkleTree.strings hash256 (preimages.ids.map hash256) ++
    MerkleTree.strings hash256 (zeroNonce :: preimages.witnesses.map hash256))

/-- The strings hashed for a block under a challenge. -/
def preimages (block : CBlock) (challenge : Bytes) : Except PyError Preimages :=
  match block.vtx with
  | [] => .error .indexError
  | coinbase :: rest => do
      let signed ← appendToLastOutput coinbase headerPush
      let ids ← (signed :: rest).mapM CTransaction.serializeWithoutWitness
      let mroot ← getMerkleRoot hash256 (ids.map hash256)
      let sd ← signetData block.nVersion block.hashPrevBlock mroot block.nTime
      let sdPush ← encodeOpPushdata sd
      let toSpend ← (toSpendTx sdPush challenge).serializeWithoutWitness
      let witnesses ← rest.mapM CTransaction.serializeWithWitness
      let witroot ← getMerkleRoot hash256 (zeroNonce :: witnesses.map hash256)
      let root ← serUint256 witroot
      pure { ids, toSpend, witnesses, commitment := root ++ zeroNonce }

/-- Two blocks with the same content under the same challenge. -/
structure SameContent (block block' : CBlock) (challenge challenge' : Bytes) : Prop where
  challenge : challenge = challenge'
  nVersion : block.nVersion = block'.nVersion
  hashPrevBlock : block.hashPrevBlock = block'.hashPrevBlock
  nTime : block.nTime = block'.nTime
  coinbase : block.vtx.head?.map CTransaction.serializeWithoutWitness =
    block'.vtx.head?.map CTransaction.serializeWithoutWitness
  transactions : Exists fun bytes =>
    block.vtx.tail.mapM CTransaction.serializeWithoutWitness = .ok bytes ∧
      block'.vtx.tail.mapM CTransaction.serializeWithoutWitness = .ok bytes
  witnesses : Exists fun bytes =>
    block.vtx.tail.mapM CTransaction.serializeWithWitness = .ok bytes ∧
      block'.vtx.tail.mapM CTransaction.serializeWithWitness = .ok bytes

/-! ## Injective pieces -/

theorem signetData_injective {nVersion nVersion' hashPrevBlock hashPrevBlock' mroot mroot' nTime
    nTime' : Int} {bytes : Bytes} (wrote : signetData nVersion hashPrevBlock mroot nTime = .ok bytes)
    (wrote' : signetData nVersion' hashPrevBlock' mroot' nTime' = .ok bytes) :
    nVersion = nVersion' ∧ hashPrevBlock = hashPrevBlock' ∧ mroot = mroot' ∧ nTime = nTime' := by
  simp only [signetData, bind_eq_ok] at wrote wrote'
  rcases wrote with ⟨a, first, b, second, c, third, d, fourth, assembled⟩
  rcases wrote' with ⟨a', first', b', second', c', third', d', fourth', assembled'⟩
  cases assembled
  have whole := Except.ok.inj assembled'
  have parts := (readsBack_readInt first').frame (readsBack_readInt first) whole
  have parts' := (readsBack_readInt second').frame (readsBack_readInt second) parts.2
  have parts'' := (readsBack_readInt third').frame (readsBack_readInt third) parts'.2
  have last : d' ++ [] = d ++ [] := by rw [parts''.2]
  have time := (readsBack_readInt fourth').frame (readsBack_readInt fourth) last
  exact ⟨parts.1.symm, parts'.1.symm, parts''.1.symm, time.1.symm⟩

theorem toSpendTx_injective {push push' challenge challenge' bytes : Bytes}
    (wrote : (toSpendTx push challenge).serializeWithoutWitness = .ok bytes)
    (wrote' : (toSpendTx push' challenge').serializeWithoutWitness = .ok bytes) :
    push = push' ∧ challenge = challenge' := by
  have same := CTransaction.serializeWithoutWitness_injective (List.cons_ne_nil _ _)
    (List.cons_ne_nil _ _) wrote wrote'
  have scripts := congrArg (List.map CTxIn.scriptSig) same.2.1
  have outputs := congrArg (List.map CTxOut.scriptPubKey) same.2.2.1
  exact ⟨(List.cons.inj (List.cons.inj scripts).1).2, (List.cons.inj outputs).1⟩

/-- The signed coinbase determines the coinbase and its commitment script. -/
theorem withCommitment_injective {cbtx cbtx' : CTransaction} {script script' suffix bytes : Bytes}
    (inputs : cbtx.vin ≠ []) (inputs' : cbtx'.vin ≠ [])
    (wrote : (withCommitment cbtx zeroNonce (script ++ suffix)).serializeWithoutWitness = .ok bytes)
    (wrote' : (withCommitment cbtx' zeroNonce (script' ++ suffix)).serializeWithoutWitness =
      .ok bytes) :
    script = script' ∧ (withCommitment cbtx zeroNonce script).serializeWithoutWitness =
      (withCommitment cbtx' zeroNonce script').serializeWithoutWitness := by
  have first : (withCommitment cbtx zeroNonce (script ++ suffix)).vin ≠ [] := inputs
  have second : (withCommitment cbtx' zeroNonce (script' ++ suffix)).vin ≠ [] := inputs'
  rcases CTransaction.serializeWithoutWitness_injective first second wrote wrote' with
    ⟨version, vin, vout, nLockTime⟩
  have outputs := List.append_inj' vout rfl
  have scripts := congrArg (List.map CTxOut.scriptPubKey) outputs.2
  have equal : script = script' := List.append_cancel_right (List.cons.inj scripts).1
  refine ⟨equal, ?_⟩
  change cbtx.version = cbtx'.version at version
  change cbtx.vin = cbtx'.vin at vin
  change cbtx.nLockTime = cbtx'.nLockTime at nLockTime
  simp only [CTransaction.serializeWithoutWitness, withCommitment, version, vin, outputs.1,
    nLockTime, equal]

variable {hash256}

/-! ## The strings behind a request -/

variable (hash256) in
/-- The strings of a block and how its `spend` and its script come from them. -/
structure PreimagesOf (block : CBlock) (challenge : Bytes) (spend : CTransaction) (draft : Draft)
    (strings : Preimages) : Prop where
  computed : preimages hash256 block challenge = .ok strings
  spend : spend = spendTx (uint256FromStr (hash256 strings.toSpend))
  toSpend : Exists fun mroot => Exists fun sd => Exists fun push =>
    getMerkleRoot hash256 (strings.ids.map hash256) = .ok mroot ∧
      signetData block.nVersion block.hashPrevBlock mroot block.nTime = .ok sd ∧
      encodeOpPushdata sd = .ok push ∧
      (toSpendTx push challenge).serializeWithoutWitness = .ok strings.toSpend
  ids : Exists fun bytes => Exists fun later =>
    (withCommitment draft.coinbase zeroNonce (draft.script ++ headerPush)).serializeWithoutWitness =
      .ok bytes ∧
    draft.txs.mapM CTransaction.serializeWithoutWitness = .ok later ∧ strings.ids = bytes :: later
  witnesses : draft.txs.mapM CTransaction.serializeWithWitness = .ok strings.witnesses
  commitment : Exists fun witroot => Exists fun root => Exists fun push =>
    getMerkleRoot hash256 (zeroNonce :: strings.witnesses.map hash256) = .ok witroot ∧
      serUint256 witroot = .ok root ∧ strings.commitment = root ++ zeroNonce ∧
      encodeOpPushdata (witnessCommitmentHeader ++ hash256 strings.commitment) = .ok push ∧
      draft.script = opReturn :: push

variable {tmpl : BlockTemplate} {rewardSpk challenge : Bytes} {blocktime nversion : Option Int}
  {poolid : Option Bytes} {block : CBlock} {draft : Draft}

/-- `to_spend` and `spend` from the Merkle root on. -/
theorem signetPair_spec {nVersion hashPrevBlock mroot nTime : Int} {spend toSpend : CTransaction}
    (run : signetPair hash256 nVersion hashPrevBlock mroot nTime challenge = .ok (spend, toSpend)) :
    Exists fun sd => Exists fun push => Exists fun bytes =>
      signetData nVersion hashPrevBlock mroot nTime = .ok sd ∧ encodeOpPushdata sd = .ok push ∧
        (toSpendTx push challenge).serializeWithoutWitness = .ok bytes ∧
        spend = spendTx (uint256FromStr (hash256 bytes)) := by
  simp only [signetPair, bind_eq_ok] at run
  rcases run with ⟨sd, data, push, pushed, result, rehashed, assembled⟩
  rcases CTransaction.rehash_spec rehashed with ⟨bytes, wrote, same⟩
  rw [same] at assembled
  cases assembled
  exact ⟨sd, push, bytes, data, pushed, wrote, rfl⟩

theorem preimagesOf_signetTxs {spend toSpend : CTransaction} {block' : CBlock}
    (drafted : DraftOf hash256 tmpl rewardSpk blocktime poolid nversion block draft)
    (signed : signetTxs hash256 block challenge = .ok ((spend, toSpend), block')) :
    Exists fun strings => PreimagesOf hash256 block challenge spend draft strings := by
  rcases signedPartsOf_signetTxs signed with ⟨bare, rest, hashes, mroot, parts⟩
  rcases parts.coinbase with ⟨coinbase, shape, appended⟩
  have vtx : block.vtx = draft.committed :: draft.txs := by rw [drafted.block]
  rw [vtx] at shape
  rcases List.cons.inj shape with ⟨rfl, rfl⟩
  rw [Draft.committed, appendToLastOutput_withCommitment] at appended
  cases appended
  rcases txids_eq_ok parts.txids with ⟨ids, wroteIds, rfl⟩
  have wroteAll := wroteIds
  simp only [List.mapM_cons, bind_eq_ok] at wroteIds
  rcases wroteIds with ⟨bytes, wrote, later, wroteLater, assembled⟩
  cases assembled
  rcases signetPair_spec parts.pair with ⟨sd, push, toSpendBytes, data, pushed, wroteToSpend, rfl⟩
  have witroot := drafted.witroot
  simp only [CBlock.calcWitnessMerkleRoot, serUint256_zero, bind_eq_ok] at witroot
  rcases witroot with ⟨zero, isZero, leaves, hashed, rooted⟩
  cases isZero
  rcases CBlock.witnessLeaves_eq_ok hash256 hashed with ⟨witnesses, wroteWitnesses, rfl⟩
  rcases getWitnessScript_spec drafted.script with ⟨root, commitPush, wroteRoot, committed, script⟩
  have wroteTxs : draft.txs.mapM CTransaction.serializeWithWitness = .ok witnesses := wroteWitnesses
  refine ⟨⟨bytes :: later, toSpendBytes, witnesses, root ++ zeroNonce⟩, ?_, rfl,
    ⟨mroot, sd, push, parts.root, data, pushed, wroteToSpend⟩, ⟨bytes, later, wrote, wroteLater, rfl⟩, wroteTxs,
    ⟨draft.witroot, root, commitPush, rooted, wroteRoot, rfl, committed, script⟩⟩
  rw [preimages, vtx]
  simp only [Draft.committed, appendToLastOutput_withCommitment, wroteAll, parts.root, data, pushed,
    wroteToSpend, wroteTxs, rooted, wroteRoot, bind, Except.bind]
  rfl

/-! ## Binding -/

section Strings

variable {strings : Preimages}

theorem toSpend_mem : strings.toSpend ∈ strings.strings hash256 :=
  List.mem_cons_self

theorem commitment_mem : strings.commitment ∈ strings.strings hash256 :=
  List.mem_cons_of_mem _ List.mem_cons_self

theorem ids_subset : strings.ids ⊆ strings.strings hash256 := by
  intro string member
  simp only [Preimages.strings, List.mem_cons, List.mem_append]
  tauto

theorem witnesses_subset : strings.witnesses ⊆ strings.strings hash256 := by
  intro string member
  simp only [Preimages.strings, List.mem_cons, List.mem_append]
  tauto

theorem idTree_subset :
    MerkleTree.strings hash256 (strings.ids.map hash256) ⊆ strings.strings hash256 := by
  intro string member
  simp only [Preimages.strings, List.mem_cons, List.mem_append]
  tauto

theorem witnessTree_subset :
    MerkleTree.strings hash256 (zeroNonce :: strings.witnesses.map hash256) ⊆
      strings.strings hash256 := by
  intro string member
  simp only [Preimages.strings, List.mem_cons, List.mem_append]
  tauto

end Strings

theorem length_of_mem_map_hash {strings : List Bytes} :
    forall leaf, leaf ∈ strings.map hash256 -> leaf.length = 32 := by
  intro leaf member
  rcases List.mem_map.mp member with ⟨string, -, rfl⟩
  exact hash256.length_digest string

/-- Without a collision, the root over the hashes of equally many strings binds
the strings.  The leaves in `front` are the same on both sides. -/
theorem hashed_binding {front strings strings' left right : List Bytes} {root : Int}
    (none : ¬ Collision hash256 left right) (lengths : strings.length = strings'.length)
    (wide : forall leaf, leaf ∈ front -> leaf.length = 32)
    (rooted : getMerkleRoot hash256 (front ++ strings.map hash256) = .ok root)
    (rooted' : getMerkleRoot hash256 (front ++ strings'.map hash256) = .ok root)
    (inLeft : strings ++ MerkleTree.strings hash256 (front ++ strings.map hash256) ⊆ left)
    (inRight : strings' ++ MerkleTree.strings hash256 (front ++ strings'.map hash256) ⊆ right) :
    strings = strings' := by
  have full : forall strings : List Bytes, forall leaf, leaf ∈ front ++ strings.map hash256 ->
      leaf.length = 32 := by
    intro strings leaf member
    rcases List.mem_append.mp member with fixed | hashed
    · exact wide leaf fixed
    · exact length_of_mem_map_hash leaf hashed
  have sameLength : (front ++ strings.map hash256).length = (front ++ strings'.map hash256).length := by
    simp only [List.length_append, List.length_map, lengths]
  have tree := getMerkleRoot_binding sameLength (full strings) (full strings') rooted rooted'
  have leaves := tree.resolve_right fun collision =>
    none (collision.mono (fun _ member => inLeft (List.mem_append_right _ member))
      (fun _ member => inRight (List.mem_append_right _ member)))
  have hashes := List.append_cancel_left leaves
  exact (map_binding hashes).resolve_right fun collision =>
    none (collision.mono (fun _ member => inLeft (List.mem_append_left _ member))
      (fun _ member => inRight (List.mem_append_left _ member)))

section Pair

variable {tmpl' : BlockTemplate} {rewardSpk' challenge' : Bytes} {blocktime' nversion' : Option Int}
  {poolid' : Option Bytes} {block' : CBlock} {draft' : Draft} {spend : CTransaction}
  {strings strings' : Preimages}

/-- The header half: one `spend` comes from one challenge, one set of header
fields and one list of transaction strings. -/
theorem PreimagesOf.ids_binding
    (first : PreimagesOf hash256 block challenge spend draft strings)
    (second : PreimagesOf hash256 block' challenge' spend draft' strings')
    (none : ¬ Collision hash256 (strings.strings hash256) (strings'.strings hash256))
    (lengths : strings.ids.length = strings'.ids.length) :
    challenge = challenge' ∧ block.nVersion = block'.nVersion ∧
      block.hashPrevBlock = block'.hashPrevBlock ∧ block.nTime = block'.nTime ∧
      strings.ids = strings'.ids := by
  rcases first.toSpend with ⟨mroot, sd, push, root, data, pushed, wrote⟩
  rcases second.toSpend with ⟨mroot', sd', push', root', data', pushed', wrote'⟩
  have spends : spendTx (uint256FromStr (hash256 strings.toSpend)) =
      spendTx (uint256FromStr (hash256 strings'.toSpend)) := first.spend.symm.trans second.spend
  have hashes := congrArg (fun tx : CTransaction => tx.vin.map fun input => input.prevout.hash) spends
  have digests := uint256FromStr_injective (hash256.length_digest _) (hash256.length_digest _)
    (List.cons.inj hashes).1
  have toSpends := (eq_or_collision digests toSpend_mem toSpend_mem).resolve_right none
  rw [← toSpends] at wrote'
  have pushes := toSpendTx_injective wrote wrote'
  rw [← pushes.1] at pushed'
  rw [← encodeOpPushdata_injective pushed pushed'] at data'
  have fields := signetData_injective data data'
  rw [← fields.2.2.1] at root'
  have wide : forall leaf : Bytes, leaf ∈ [] -> leaf.length = 32 := fun _ member => nomatch member
  have ids := hashed_binding none lengths wide root root'
    (List.append_subset.mpr ⟨ids_subset, idTree_subset⟩)
    (List.append_subset.mpr ⟨ids_subset, idTree_subset⟩)
  exact ⟨pushes.2, fields.1, fields.2.1, fields.2.2.2, ids⟩

/-- The witness half: one commitment script comes from one list of transaction
strings with their witnesses. -/
theorem PreimagesOf.witnesses_binding
    (first : PreimagesOf hash256 block challenge spend draft strings)
    (second : PreimagesOf hash256 block' challenge' spend draft' strings')
    (none : ¬ Collision hash256 (strings.strings hash256) (strings'.strings hash256))
    (lengths : strings.witnesses.length = strings'.witnesses.length)
    (scripts : draft.script = draft'.script) : strings.witnesses = strings'.witnesses := by
  rcases first.commitment with ⟨witroot, root, push, rooted, wrote, commitment, pushed, script⟩
  rcases second.commitment with
    ⟨witroot', root', push', rooted', wrote', commitment', pushed', script'⟩
  rw [script, script'] at scripts
  rw [← (List.cons.inj scripts).2] at pushed'
  have digests := List.append_cancel_left (encodeOpPushdata_injective pushed pushed')
  have commitments := (eq_or_collision digests commitment_mem commitment_mem).resolve_right none
  rw [commitment, commitment'] at commitments
  rw [← List.append_cancel_right commitments] at wrote'
  rw [← intToBytes_injective wrote wrote'] at rooted'
  have wide : forall leaf, leaf ∈ [zeroNonce] -> leaf.length = 32 := by
    intro leaf member
    rw [List.mem_singleton.mp member]
    rfl
  exact hashed_binding none lengths wide rooted rooted'
    (List.append_subset.mpr ⟨witnesses_subset, witnessTree_subset⟩)
    (List.append_subset.mpr ⟨witnesses_subset, witnessTree_subset⟩)

/-- Two blocks of the same size whose signing requests are the same transaction
have the same content, or two different strings hashed for them collide. -/
theorem signetTxs_binding {toSpend toSpend' : CTransaction} {signed signed' : CBlock}
    (built : assembleBlock hash256 tmpl rewardSpk blocktime poolid nversion = .ok block)
    (built' : assembleBlock hash256 tmpl' rewardSpk' blocktime' poolid' nversion' = .ok block')
    (sizes : block.vtx.length = block'.vtx.length)
    (request : signetTxs hash256 block challenge = .ok ((spend, toSpend), signed))
    (request' : signetTxs hash256 block' challenge' = .ok ((spend, toSpend'), signed')) :
    Exists fun strings => Exists fun strings' =>
      preimages hash256 block challenge = .ok strings ∧
      preimages hash256 block' challenge' = .ok strings' ∧
      (SameContent block block' challenge challenge' ∨
        Collision hash256 (strings.strings hash256) (strings'.strings hash256)) := by
  rcases draftOf_assembleBlock built with ⟨draft, drafted⟩
  rcases draftOf_assembleBlock built' with ⟨draft', drafted'⟩
  rcases preimagesOf_signetTxs drafted request with ⟨strings, first⟩
  rcases preimagesOf_signetTxs drafted' request' with ⟨strings', second⟩
  refine ⟨strings, strings', first.computed, second.computed, ?_⟩
  by_cases collision : Collision hash256 (strings.strings hash256) (strings'.strings hash256)
  · exact Or.inr collision
  · refine Or.inl ?_
    have vtx : block.vtx = draft.committed :: draft.txs := by rw [drafted.block]
    have vtx' : block'.vtx = draft'.committed :: draft'.txs := by rw [drafted'.block]
    have lengths : draft.txs.length = draft'.txs.length := by
      rw [vtx, vtx'] at sizes
      exact Nat.succ.inj sizes
    rcases first.ids with ⟨bytes, later, wrote, wroteLater, ids⟩
    rcases second.ids with ⟨bytes', later', wrote', wroteLater', ids'⟩
    have idLengths : strings.ids.length = strings'.ids.length := by
      rw [ids, ids', List.length_cons, List.length_cons, length_of_mapM wroteLater,
        length_of_mapM wroteLater', lengths]
    have header := first.ids_binding second collision idLengths
    rw [ids, ids'] at header
    rcases List.cons.inj header.2.2.2.2 with ⟨rfl, rfl⟩
    have coinbase := withCommitment_injective drafted.coinbase_inputs drafted'.coinbase_inputs
      wrote wrote'
    have witnessLengths : strings.witnesses.length = strings'.witnesses.length := by
      rw [length_of_mapM first.witnesses, length_of_mapM second.witnesses, lengths]
    have witnesses := first.witnesses_binding second collision witnessLengths coinbase.1
    have committed := second.witnesses
    rw [← witnesses] at committed
    exact
      { challenge := header.1
        nVersion := header.2.1
        hashPrevBlock := header.2.2.1
        nTime := header.2.2.2.1
        coinbase := by
          rw [vtx, vtx']
          exact congrArg some coinbase.2
        transactions := ⟨later, by rw [vtx]; exact wroteLater, by rw [vtx']; exact wroteLater'⟩
        witnesses := ⟨strings.witnesses, by rw [vtx]; exact first.witnesses,
          by rw [vtx']; exact committed⟩ }

end Pair

/-- Under a hash with a single value, blocks that pay different scripts have the
same `spend`. -/
theorem signetTxs_binding_sample :
    Exists fun block => Exists fun block' => Exists fun strings => Exists fun strings' =>
      assembleBlock zeroHash sampleTemplate [0x51] none none none = .ok block ∧
      assembleBlock zeroHash sampleTemplate [0x52] none none none = .ok block' ∧
      preimages zeroHash block [0x51] = .ok strings ∧
      preimages zeroHash block' [0x51] = .ok strings' ∧
      (SameContent block block' [0x51] [0x51] ∨
        Collision zeroHash (strings.strings zeroHash) (strings'.strings zeroHash)) := by
  have success : (assembleBlock zeroHash sampleTemplate [0x51] none none none >>= fun block =>
      assembleBlock zeroHash sampleTemplate [0x52] none none none >>= fun block' =>
      signetTxs zeroHash block [0x51] >>= fun request =>
      signetTxs zeroHash block' [0x51] >>= fun request' =>
      assert (block.vtx.length == block'.vtx.length) >>= fun _ =>
      assert (request.1.1 == request'.1.1)).isOk = true := by
    decide +kernel
  rcases exists_of_isOk success with ⟨result, ran⟩
  simp only [bind_eq_ok, assert_eq_ok, beq_iff_eq] at ran
  rcases ran with ⟨block, built, block', built', ⟨⟨spend, toSpend⟩, signed⟩, request,
    ⟨⟨spend', toSpend'⟩, signed'⟩, request', -, sizes, same⟩
  cases same
  rcases signetTxs_binding built built' sizes request request' with ⟨strings, strings', bound⟩
  exact ⟨block, block', strings, strings', built, built', bound⟩

end Miner
end MutinyNet
