import MutinyNet.Miner.Finish

namespace MutinyNet
namespace Miner

open Codec Python Messages Hashing

/-!
# The search for a proof of work

`solve` counts the nonce up from where it is and has no bound of its own: a
nonce of 2^32 does not serialize, and the exception ends the loop.  The search
is followed nonce by nonce, so that its result is the first proof there is, and
the fuel of the model is never what ends it.
-/

variable {hash256 : Hash256}

/-! ## Headers with another nonce -/

/-- The field of a header can be written. -/
def Fits (width : Nat) (signed : Bool) (value : Int) : Prop :=
  Exists fun bytes => intToBytes width signed value = .ok bytes

theorem fits_nonce_iff {nonce : Int} : Fits 4 false nonce <-> 0 ≤ nonce ∧ nonce < 2 ^ 32 := by
  unfold Fits intToBytes
  rw [if_neg (by decide)]
  constructor
  · rintro ⟨bytes, wrote⟩
    split at wrote
    · next inside =>
        refine ⟨inside.1, ?_⟩
        have bound := inside.2
        norm_num at bound
        omega
    · cases wrote
  · rintro ⟨lower, upper⟩
    rw [if_pos ⟨lower, by norm_num; omega⟩]
    exact ⟨_, rfl⟩

theorem serialize_isOk_iff (header : CBlockHeader) :
    (Exists fun bytes => header.serialize = .ok bytes) <->
      Fits 4 true header.nVersion ∧ Fits 32 false header.hashPrevBlock ∧
        Fits 32 false header.hashMerkleRoot ∧ Fits 4 false header.nTime ∧
        Fits 4 false header.nBits ∧ Fits 4 false header.nNonce := by
  simp only [CBlockHeader.serialize, bind_eq_ok, serUint256]
  constructor
  · rintro ⟨bytes, nVersion, first, hashPrevBlock, second, hashMerkleRoot, third, nTime, fourth,
      nBits, fifth, nNonce, sixth, -⟩
    exact ⟨⟨_, first⟩, ⟨_, second⟩, ⟨_, third⟩, ⟨_, fourth⟩, ⟨_, fifth⟩, ⟨_, sixth⟩⟩
  · rintro ⟨⟨_, first⟩, ⟨_, second⟩, ⟨_, third⟩, ⟨_, fourth⟩, ⟨_, fifth⟩, ⟨_, sixth⟩⟩
    exact ⟨_, _, first, _, second, _, third, _, fourth, _, fifth, _, sixth, rfl⟩

/-- A header that can be written can be written with every nonce of 32 bits. -/
theorem serialize_nonce {header : CBlockHeader} {bytes : Bytes}
    (wrote : header.serialize = .ok bytes) {nonce : Int} (lower : 0 ≤ nonce)
    (upper : nonce < 2 ^ 32) :
    Exists fun bytes => { header with nNonce := nonce }.serialize = .ok bytes := by
  rcases (serialize_isOk_iff header).mp ⟨bytes, wrote⟩ with ⟨first, second, third, fourth, fifth, -⟩
  exact (serialize_isOk_iff { header with nNonce := nonce }).mpr
    ⟨first, second, third, fourth, fifth, fits_nonce_iff.mpr ⟨lower, upper⟩⟩

/-- The nonce 2^32 overflows. -/
theorem serialize_overflow {header : CBlockHeader} {bytes : Bytes}
    (wrote : header.serialize = .ok bytes) :
    { header with nNonce := 2 ^ 32 }.serialize = .error .overflowError := by
  rcases (serialize_isOk_iff header).mp ⟨bytes, wrote⟩ with ⟨⟨_, first⟩, ⟨_, second⟩, ⟨_, third⟩,
    ⟨_, fourth⟩, ⟨_, fifth⟩, -⟩
  have last : intToBytes 4 false (2 ^ 32) = .error .overflowError := by decide +kernel
  simp only [CBlockHeader.serialize, serUint256, first, second, third, fourth, fifth, last, bind,
    Except.bind]

/-! ## The search -/

/-- The block with a nonce and the hash of its header in the caches. -/
def withProof (hash256 : Hash256) (block : CBlock) (nonce : Int) (bytes : Bytes) : CBlock :=
  { block with
    nNonce := nonce
    sha256 := some (uint256FromStr (hash256 bytes))
    hash := some (CTransaction.displayHash hash256 bytes) }

/-- The header with this nonce can be written and its hash is at most the target. -/
def Meets (hash256 : Hash256) (header : CBlockHeader) (target nonce : Int) : Prop :=
  Exists fun bytes => { header with nNonce := nonce }.serialize = .ok bytes ∧
    uint256FromStr (hash256 bytes) ≤ target

variable (hash256) in
/-- The nonces whose hash the loop of `solve` compares to the target. -/
def triedNonces (target : Int) : Nat -> CBlock -> List Int
  | 0, _ => []
  | fuel + 1, self =>
      match self.sha256 with
      | none => []
      | some sha256 =>
          if sha256 > target then
            match { self with nNonce := self.nNonce + 1 }.rehash hash256 with
            | .error _ => [self.nNonce]
            | .ok next => self.nNonce :: triedNonces target fuel next
          else [self.nNonce]

/-- As many nonces as there are, from the first one on. -/
def noncesFrom (start : Int) (count : Nat) : List Int :=
  (List.range count).map fun index : Nat => start + (index : Int)

theorem noncesFrom_succ (start : Int) (count : Nat) :
    noncesFrom start (count + 1) = start :: noncesFrom (start + 1) count := by
  unfold noncesFrom
  rw [List.range_succ_eq_map, List.map_cons, List.map_map]
  congr 1
  · exact add_zero start
  · apply List.map_congr_left
    intro index _
    rw [Function.comp_apply, Nat.cast_succ]
    ring

theorem rehash_of_serialize {block : CBlock} {bytes : Bytes}
    (wrote : block.toCBlockHeader.serialize = .ok bytes) :
    block.rehash hash256 = .ok (withProof hash256 block block.nNonce bytes) := by
  have serialized : { block.toCBlockHeader with sha256 := none }.serialize = .ok bytes := wrote
  unfold CBlock.rehash CBlockHeader.rehash CBlockHeader.calcSha256
  dsimp only
  rw [serialized]
  rfl

theorem rehash_of_overflow {block : CBlock} {err : PyError}
    (overflows : block.toCBlockHeader.serialize = .error err) :
    block.rehash hash256 = .error err := by
  have serialized : { block.toCBlockHeader with sha256 := none }.serialize = .error err := overflows
  unfold CBlock.rehash CBlockHeader.rehash CBlockHeader.calcSha256
  dsimp only
  rw [serialized]
  rfl

theorem meets_iff {header : CBlockHeader} {target nonce : Int} {bytes : Bytes}
    (wrote : { header with nNonce := nonce }.serialize = .ok bytes) :
    Meets hash256 header target nonce <-> uint256FromStr (hash256 bytes) ≤ target := by
  constructor
  · rintro ⟨other, wrote', small⟩
    rw [wrote] at wrote'
    cases wrote'
    exact small
  · exact fun small => ⟨bytes, wrote, small⟩

section Steps

variable {block : CBlock} {target nonce : Int} {bytes : Bytes}

/-- A hash that meets the target ends the loop. -/
theorem solveLoop_stop (small : uint256FromStr (hash256 bytes) ≤ target) (fuel : Nat) :
    (withProof hash256 block nonce bytes).solveLoop hash256 target (fuel + 1) =
      .ok (withProof hash256 block nonce bytes) := by
  rw [CBlock.solveLoop]
  exact if_neg (not_lt.mpr small)

/-- Another hash makes it go on with the next nonce. -/
theorem solveLoop_next (large : ¬ uint256FromStr (hash256 bytes) ≤ target) (fuel : Nat)
    {next : Bytes}
    (wrote : { block.toCBlockHeader with nNonce := nonce + 1 }.serialize = .ok next) :
    (withProof hash256 block nonce bytes).solveLoop hash256 target (fuel + 1) =
        (withProof hash256 block (nonce + 1) next).solveLoop hash256 target fuel ∧
      triedNonces hash256 target (fuel + 1) (withProof hash256 block nonce bytes) =
        nonce :: triedNonces hash256 target fuel (withProof hash256 block (nonce + 1) next) := by
  have rehashed : ({ withProof hash256 block nonce bytes with
      nNonce := (withProof hash256 block nonce bytes).nNonce + 1 } : CBlock).rehash hash256 =
        .ok (withProof hash256 block (nonce + 1) next) := rehash_of_serialize wrote
  rw [CBlock.solveLoop, triedNonces]
  constructor
  · refine (if_pos (not_le.mp large)).trans ?_
    rw [rehashed]
    rfl
  · refine (if_pos (not_le.mp large)).trans ?_
    rw [rehashed]
    rfl

/-- Behind the last nonce the loop overflows. -/
theorem solveLoop_last (large : ¬ uint256FromStr (hash256 bytes) ≤ target) (fuel : Nat)
    (overflows : { block.toCBlockHeader with nNonce := nonce + 1 }.serialize =
      .error .overflowError) :
    (withProof hash256 block nonce bytes).solveLoop hash256 target (fuel + 1) =
        .error .overflowError ∧
      triedNonces hash256 target (fuel + 1) (withProof hash256 block nonce bytes) = [nonce] := by
  have rehashed : ({ withProof hash256 block nonce bytes with
      nNonce := (withProof hash256 block nonce bytes).nNonce + 1 } : CBlock).rehash hash256 =
        .error .overflowError := rehash_of_overflow overflows
  rw [CBlock.solveLoop, triedNonces]
  constructor
  · refine (if_pos (not_le.mp large)).trans ?_
    rw [rehashed]
    rfl
  · refine (if_pos (not_le.mp large)).trans ?_
    rw [rehashed]
    rfl

end Steps

/-- How the search from a nonce on ends: at the first proof, or by an overflow
when it has tried all nonces. -/
def SearchEnds (hash256 : Hash256) (block : CBlock) (target nonce : Int) (count : Nat)
    (result : Except PyError CBlock) (tried : List Int) : Prop :=
  (Exists fun found => Exists fun bytes =>
    IsLeast {other | nonce ≤ other ∧ Meets hash256 block.toCBlockHeader target other} found ∧
      { block.toCBlockHeader with nNonce := found }.serialize = .ok bytes ∧
      result = .ok (withProof hash256 block found bytes)) ∨
  ((forall other, nonce ≤ other -> ¬ Meets hash256 block.toCBlockHeader target other) ∧
    result = .error .overflowError ∧ tried = noncesFrom nonce count)

/-- A nonce that fails does not change what comes first behind it. -/
theorem SearchEnds.earlier {block : CBlock} {target nonce : Int} {count : Nat}
    {result : Except PyError CBlock} {tried : List Int}
    (fails : ¬ Meets hash256 block.toCBlockHeader target nonce)
    (later : SearchEnds hash256 block target (nonce + 1) count result tried) :
    SearchEnds hash256 block target nonce (count + 1) result (nonce :: tried) := by
  have behind : forall other, nonce ≤ other -> Meets hash256 block.toCBlockHeader target other ->
      nonce + 1 ≤ other := by
    intro other reached meets
    rcases Int.le_iff_lt_or_eq.mp reached with less | same
    · exact less
    · rw [← same] at meets
      exact absurd meets fails
  rcases later with ⟨found, bytes, least, wrote, same⟩ | ⟨none, same, all⟩
  · left
    refine ⟨found, bytes, ⟨⟨by have := least.1.1; omega, least.1.2⟩, ?_⟩, wrote, same⟩
    rintro other ⟨reached, meets⟩
    exact least.2 ⟨behind other reached meets, meets⟩
  · right
    refine ⟨?_, same, ?_⟩
    · intro other reached meets
      exact none other (behind other reached meets) meets
    · rw [noncesFrom_succ, all]

/-- The search from a nonce on, by induction on the number of nonces left. -/
theorem solveLoop_search {block : CBlock} {header : Bytes} {target : Int}
    (fits : block.toCBlockHeader.serialize = .ok header) (count fuel : Nat) (nonce : Int)
    (bytes : Bytes) (left : nonce + (count + 1 : Nat) = 2 ^ 32) (enough : count + 1 < fuel)
    (lower : 0 ≤ nonce)
    (wrote : { block.toCBlockHeader with nNonce := nonce }.serialize = .ok bytes) :
    SearchEnds hash256 block target nonce (count + 1)
      ((withProof hash256 block nonce bytes).solveLoop hash256 target fuel)
      (triedNonces hash256 target fuel (withProof hash256 block nonce bytes)) := by
  induction count generalizing fuel nonce bytes with
  | zero =>
      cases fuel with
      | zero => omega
      | succ fuel =>
          by_cases small : uint256FromStr (hash256 bytes) ≤ target
          · rw [solveLoop_stop small]
            exact Or.inl ⟨nonce, bytes, ⟨⟨le_refl nonce, (meets_iff wrote).mpr small⟩,
              fun other inside => inside.1⟩, wrote, rfl⟩
          · have last : nonce + 1 = 2 ^ 32 := by omega
            have steps := @solveLoop_last hash256 block target nonce bytes small fuel
              (by rw [last]; exact serialize_overflow fits)
            rw [steps.1, steps.2]
            refine SearchEnds.earlier (fun meets => small ((meets_iff wrote).mp meets))
              (Or.inr ⟨?_, rfl, rfl⟩)
            rintro other reached ⟨bytes', written, -⟩
            have inside := ((serialize_isOk_iff _).mp ⟨bytes', written⟩).2.2.2.2.2
            have bound := (fits_nonce_iff.mp inside).2
            dsimp only at bound
            omega
  | succ count inductionHypothesis =>
      cases fuel with
      | zero => omega
      | succ fuel =>
          by_cases small : uint256FromStr (hash256 bytes) ≤ target
          · rw [solveLoop_stop small]
            exact Or.inl ⟨nonce, bytes, ⟨⟨le_refl nonce, (meets_iff wrote).mpr small⟩,
              fun other inside => inside.1⟩, wrote, rfl⟩
          · rcases @serialize_nonce _ _ fits (nonce + 1) (by omega) (by omega) with ⟨next, written⟩
            have steps := @solveLoop_next hash256 block target nonce bytes small fuel next written
            rw [steps.1, steps.2]
            exact (inductionHypothesis fuel (nonce + 1) next (by omega) (by omega) (by omega)
              written).earlier fun meets => small ((meets_iff wrote).mp meets)

/-! ## The whole of `finish_block` -/

variable (hash256) in
/-- `finish_block` up to the proof of work. -/
def sealBlock (block : CBlock) (signetSolution : Bytes) : Except PyError CBlock :=
  match block.vtx with
  | [] => .error .indexError
  | coinbase :: rest => do
      let push ← encodeOpPushdata (signetHeader ++ signetSolution)
      let coinbase ← appendToLastOutput coinbase push
      let coinbase ← coinbase.rehash hash256
      let (block, root) ← { block with vtx := coinbase :: rest }.calcMerkleRoot hash256
      pure { block with hashMerkleRoot := root }

theorem finishBlock_eq (run : RunCommand) (block : CBlock) (signetSolution : Bytes)
    (grindCmd : Option String) :
    finishBlock hash256 run block signetSolution grindCmd =
      sealBlock hash256 block signetSolution >>= proveWork hash256 run grindCmd := by
  unfold finishBlock sealBlock
  cases block.vtx with
  | nil => rfl
  | cons coinbase rest => simp only [bind_assoc, pure_bind]

theorem length_of_txidLeaves {refresh : CTransaction -> Except PyError CTransaction}
    {txs txs' : List CTransaction} {leaves : List Bytes}
    (run : txidLeaves refresh txs = .ok (txs', leaves)) :
    forall leaf, leaf ∈ leaves -> leaf.length = 32 := by
  induction txs generalizing txs' leaves with
  | nil =>
      cases run
      exact fun _ member => nomatch member
  | cons tx txs inductionHypothesis =>
      simp only [txidLeaves, bind_eq_ok] at run
      rcases run with ⟨tx', -, leaf, serialized, ⟨later, laterLeaves⟩, rest, assembled⟩
      cases assembled
      intro other member
      rcases List.mem_cons.mp member with here | there
      · rw [here]
        unfold CTransaction.serSha256 at serialized
        split at serialized
        · exact length_of_intToBytes serialized
        · cases serialized
      · exact inductionHypothesis rest other there

/-- Sealing a block changes its transactions and its Merkle root, and the root
is the value of a hash. -/
theorem sealBlock_spec {block prepared : CBlock} {signetSolution : Bytes}
    (run : sealBlock hash256 block signetSolution = .ok prepared) :
    Exists fun root => Fits 32 false root ∧
      prepared.toCBlockHeader = { block.toCBlockHeader with hashMerkleRoot := root } := by
  unfold sealBlock at run
  cases shape : block.vtx with
  | nil =>
      rw [shape] at run
      cases run
  | cons coinbase rest =>
      rw [shape] at run
      simp only [bind_eq_ok] at run
      rcases run with ⟨push, -, appended, -, hashed, -, ⟨rooted, root⟩, merkle, assembled⟩
      cases assembled
      have header := (CBlock.calcMerkleRoot_uncached merkle).1
      simp only [CBlock.calcMerkleRoot, bind_eq_ok] at merkle
      rcases merkle with ⟨⟨vtx, leaves⟩, ids, value, rootOf, same⟩
      cases same
      refine ⟨root, ?_, ?_⟩
      · unfold getMerkleRoot at rootOf
        split at rootOf
        · next bytes found =>
            cases rootOf
            have wide := MerkleTree.root_kind
              (fun left right => hash256.length_digest (left ++ right))
              (length_of_txidLeaves ids) found
            exact ⟨bytes, serUint256_uint256FromStr wide⟩
        · cases rootOf
      · rfl

/-- Finishing a block without a grind command: the nonce is the first one, from
the block's own on, whose header hash is at most the target, and nothing but
the nonce and the cached hashes differs from the sealed block; or no nonce
meets the target, each was tried once, and the search overflows. -/
theorem searchEnds_finishBlock (run : RunCommand) {block prepared : CBlock} {header : Bytes}
    {signetSolution : Bytes} (fits : block.toCBlockHeader.serialize = .ok header)
    (exponent : 3 ≤ block.nBits / 2 ^ 24)
    (ready : sealBlock hash256 block signetSolution = .ok prepared) :
    Exists fun target => uint256FromCompact block.nBits = .ok target ∧
      Exists fun bytes => prepared.toCBlockHeader.serialize = .ok bytes ∧
        SearchEnds hash256 prepared target block.nNonce (2 ^ 32 - block.nNonce).toNat
          (finishBlock hash256 run block signetSolution none)
          (triedNonces hash256 target ((2 ^ 32 - block.nNonce).toNat + 1)
            (withProof hash256 prepared block.nNonce bytes)) := by
  rcases sealBlock_spec ready with ⟨root, rooted, sealed⟩
  rcases (serialize_isOk_iff block.toCBlockHeader).mp ⟨header, fits⟩ with
    ⟨first, second, -, fourth, fifth, sixth⟩
  have written : Exists fun bytes => prepared.toCBlockHeader.serialize = .ok bytes := by
    rw [sealed]
    exact (serialize_isOk_iff { block.toCBlockHeader with hashMerkleRoot := root }).mpr
      ⟨first, second, rooted, fourth, fifth, sixth⟩
  rcases written with ⟨bytes, wrote⟩
  have nonce : prepared.nNonce = block.nNonce := by
    rw [sealed]
  have bits : prepared.nBits = block.nBits := by
    rw [sealed]
  have range := fits_nonce_iff.mp sixth
  have small := fits_nonce_iff.mp fifth
  have decoded : uint256FromCompact block.nBits =
      .ok (block.nBits % 2 ^ 24 * 2 ^ (8 * (block.nBits / 2 ^ 24 % 256 - 3)).toNat) := by
    unfold uint256FromCompact
    dsimp only
    rw [if_neg (by omega)]
  refine ⟨_, decoded, bytes, wrote, ?_⟩
  have solves : finishBlock hash256 run block signetSolution none =
      (withProof hash256 prepared block.nNonce bytes).solveLoop hash256
        (block.nBits % 2 ^ 24 * 2 ^ (8 * (block.nBits / 2 ^ 24 % 256 - 3)).toNat)
        ((2 ^ 32 - block.nNonce).toNat + 1) := by
    have rehashed := @rehash_of_serialize hash256 _ _ wrote
    rw [finishBlock_eq, ready]
    change prepared.solve hash256 = _
    rw [CBlock.solve, rehashed, nonce]
    simp only [bind, Except.bind]
    rw [← bits] at decoded ⊢
    have target : uint256FromCompact (withProof hash256 prepared block.nNonce bytes).nBits = _ :=
      decoded
    rw [target]
    rfl
  rw [solves]
  rcases Nat.exists_eq_succ_of_ne_zero
    (show (2 ^ 32 - block.nNonce).toNat ≠ 0 by omega) with ⟨count, same⟩
  rw [same]
  refine solveLoop_search wrote count (count + 2) block.nNonce bytes (by omega) (by omega)
    range.1 ?_
  rw [← nonce]
  exact wrote

/-- Under a hash with the value zero the first nonce is a proof. -/
theorem searchEnds_finishBlock_sample :
    Exists fun block => Exists fun prepared => Exists fun target => Exists fun bytes =>
      assembleBlock zeroHash sampleTemplate [0x51] none none none = .ok block ∧
      uint256FromCompact block.nBits = .ok target ∧
      SearchEnds zeroHash prepared target block.nNonce (2 ^ 32 - block.nNonce).toNat
        (finishBlock zeroHash noCommand block [] none)
        (triedNonces zeroHash target ((2 ^ 32 - block.nNonce).toNat + 1)
          (withProof zeroHash prepared block.nNonce bytes)) := by
  have success : (assembleBlock zeroHash sampleTemplate [0x51] none none none >>= fun block =>
      sealBlock zeroHash block [] >>= fun _ =>
      block.toCBlockHeader.serialize >>= fun _ =>
      assert (decide (3 ≤ block.nBits / 2 ^ 24))).isOk = true := by
    decide +kernel
  rcases exists_of_isOk success with ⟨result, ran⟩
  simp only [bind_eq_ok, assert_eq_ok, decide_eq_true_eq] at ran
  rcases ran with ⟨block, built, prepared, ready, header, fits, exponent⟩
  rcases searchEnds_finishBlock noCommand fits exponent ready with
    ⟨target, decoded, bytes, -, search⟩
  exact ⟨block, prepared, target, bytes, built, decoded, search⟩

end Miner
end MutinyNet
