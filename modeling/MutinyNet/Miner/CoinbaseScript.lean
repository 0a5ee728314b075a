import MutinyNet.Messages.ScriptNumber
import MutinyNet.Miner.Assembly

namespace MutinyNet
namespace Miner

open Codec Python Messages

/-!
# What the coinbase script says

The script in the input of the coinbase is the height of the block, behind a low
height an empty push that makes it long enough, and then the pool id.  It can be
taken apart again without knowing which of these it has, so no two blocks with
different heights or pool ids have the same script.
-/

/-- Heights of blocks behind the first one, and pool ids that can be pushed. -/
structure Admissible (height : Int) (poolid : Option Bytes) : Prop where
  low : 1 ≤ height
  high : height < 2 ^ 31
  short : forall id, poolid = some id -> id.length < 2 ^ 32

/-- The push of a height that BIP34 asks for: an opcode up to sixteen, and the
shortest script number above. -/
def IsHeightPush (height : Int) (push : Bytes) : Prop :=
  if height ≤ 16 then push = [UInt8.ofNat (0x50 + height.toNat)]
  else Exists fun r => push = UInt8.ofNat r.length :: r ∧ r.length < 0x4c ∧
    decodeScriptNum push = height ∧
    forall other : Bytes, decodeScriptNum (UInt8.ofNat other.length :: other) = height ->
      r.length ≤ other.length

/-- The pushes behind the height. -/
def pushesBehind (height : Int) (poolid : Option Bytes) : List Bytes :=
  (if height ≤ 16 then [[]] else []) ++ poolid.toList

/-- The items of a script are the height and what stands behind it. -/
def ReadsAs (height : Int) (poolid : Option Bytes) (items : List ScriptItem) : Prop :=
  Exists fun first => Exists fun behind => items = first :: behind ∧
    first.number = some height ∧
    behind.map ScriptItem.data = (pushesBehind height poolid).map some

/-- What the script is there for. -/
structure Decodable (height : Int) (poolid : Option Bytes) (scriptSig : Bytes) : Prop where
  long : 2 ≤ scriptSig.length
  starts : Exists fun push => IsHeightPush height push ∧ push <+: scriptSig
  reads : Exists fun items => rawIter scriptSig = .ok items ∧ ReadsAs height poolid items

theorem encodeOpPushdata_isOk {d : Bytes} (short : d.length < 2 ^ 32) :
    Exists fun push => encodeOpPushdata d = .ok push := by
  unfold encodeOpPushdata
  split
  · exact ⟨_, rfl⟩
  · split
    · exact ⟨_, rfl⟩
    · split
      · exact ⟨_, rfl⟩
      · rw [if_pos (by omega)]
        exact ⟨_, rfl⟩

/-- The pool id is one push, or nothing. -/
theorem coinbaseScriptSig_eq {height : Int} {poolid : Option Bytes} {scriptSig : Bytes}
    (admissible : Admissible height poolid)
    (heightScript : scriptBIP34CoinbaseHeight height = .ok scriptSig) :
    Exists fun pushes =>
      coinbaseScriptSig height poolid = .ok (scriptSig ++ pushes.flatten) ∧
        List.Forall₂ (fun d push => encodeOpPushdata d = .ok push) poolid.toList pushes := by
  unfold coinbaseScriptSig
  rw [heightScript]
  cases poolid with
  | none => exact ⟨[], by rw [List.flatten_nil, List.append_nil]; rfl, List.Forall₂.nil⟩
  | some id =>
      rcases encodeOpPushdata_isOk (admissible.short id rfl) with ⟨push, wrote⟩
      refine ⟨[push], ?_, List.Forall₂.cons wrote List.Forall₂.nil⟩
      simp only [bind, Except.bind, wrote, List.flatten_cons, List.flatten_nil, List.append_nil]
      rfl

/-- A low height is an opcode, and an empty push makes the script long enough. -/
theorem decodable_of_low {height : Int} {poolid : Option Bytes}
    (admissible : Admissible height poolid) (small : height ≤ 16) :
    Exists fun scriptSig => coinbaseScriptSig height poolid = .ok scriptSig ∧
      Decodable height poolid scriptSig := by
  have positive := admissible.low
  rcases Int.eq_ofNat_of_zero_le (by omega : 0 ≤ height) with ⟨number, same⟩
  subst same
  have opcode : encodeOpN (number : Int) = .ok (UInt8.ofNat (0x50 + number)) := by
    unfold encodeOpN
    rw [if_pos ⟨by omega, small⟩, if_neg (by omega)]
    exact congrArg (fun value => Except.ok (UInt8.ofNat value)) (by omega)
  have value : (UInt8.ofNat (0x50 + number)).toNat = 0x50 + number := by
    rw [UInt8.toNat_ofNat']
    exact Nat.mod_eq_of_lt (by omega)
  have heightScript : scriptBIP34CoinbaseHeight (number : Int) =
      .ok [UInt8.ofNat (0x50 + number), 0x00] := by
    unfold scriptBIP34CoinbaseHeight
    rw [if_pos small, opcode]
    rfl
  rcases coinbaseScriptSig_eq admissible heightScript with ⟨pushes, assembled, wrote⟩
  refine ⟨_, assembled, ?_, ?_, ?_⟩
  · rw [List.length_append]
    exact Nat.le_add_right 2 _
  · refine ⟨[UInt8.ofNat (0x50 + number)], ?_, ⟨0x00 :: pushes.flatten, rfl⟩⟩
    rw [IsHeightPush, if_pos small]
    rfl
  · have empty : encodeOpPushdata [] = .ok [0x00] := rfl
    have behind : pushesBehind number poolid = [] :: poolid.toList := by
      rw [pushesBehind, if_pos small]
      rfl
    rcases @rawIterFrom_pushes _ _ (List.Forall₂.cons empty wrote) _ 1 (le_refl _) with
      ⟨items, parsed, data⟩
    refine ⟨_, ?_, { opcode := UInt8.ofNat (0x50 + number), data := none, sopIdx := 0 }, items,
      rfl, ?_, ?_⟩
    · change rawIterFrom (([0x00] :: pushes).flatten.length + 1) 0
        (_ :: ([0x00] :: pushes).flatten) = _
      rw [rawIterFrom_opcode (by rw [value]; omega), parsed]
      rfl
    · change decodeOpN (UInt8.ofNat (0x50 + number)) = some (number : Int)
      have nonzero : UInt8.ofNat (0x50 + number) ≠ 0x00 := by
        intro same
        rw [same, UInt8.toNat_zero] at value
        omega
      unfold decodeOpN
      rw [if_neg nonzero, value, if_pos ⟨by omega, by omega⟩]
      exact congrArg some (by push_cast; omega)
    · rw [behind]
      exact data

/-- A height above sixteen is the shortest number. -/
theorem decodable_of_high {height : Int} {poolid : Option Bytes}
    (admissible : Admissible height poolid) (large : ¬ height ≤ 16) :
    Exists fun scriptSig => coinbaseScriptSig height poolid = .ok scriptSig ∧
      Decodable height poolid scriptSig := by
  have small := admissible.high
  rcases Int.eq_ofNat_of_zero_le (by omega : 0 ≤ height) with ⟨number, same⟩
  subst same
  rcases encodeScriptNum_spec (by omega : 0 < number) (by omega) with
    ⟨r, encoded, some, short, decoded, least⟩
  have heightScript : scriptBIP34CoinbaseHeight (number : Int) =
      .ok (UInt8.ofNat r.length :: r) := by
    unfold scriptBIP34CoinbaseHeight
    rw [if_neg large, encoded]
  have pushed : encodeOpPushdata r = .ok (UInt8.ofNat r.length :: r) := by
    unfold encodeOpPushdata
    rw [if_pos (by omega)]
  rcases coinbaseScriptSig_eq admissible heightScript with ⟨pushes, assembled, wrote⟩
  refine ⟨_, assembled, ?_, ?_, ?_⟩
  · rw [List.length_append, List.length_cons]
    omega
  · refine ⟨UInt8.ofNat r.length :: r, ?_, ⟨pushes.flatten, rfl⟩⟩
    rw [IsHeightPush, if_neg large]
    exact ⟨r, rfl, by omega, decoded, least⟩
  · have behind : pushesBehind number poolid = poolid.toList := by
      rw [pushesBehind, if_neg large]
      rfl
    rcases rawIterFrom_pushes (List.Forall₂.cons pushed wrote) (le_refl _) with
      ⟨items, parsed, data⟩
    cases items with
    | nil => cases data
    | cons first items =>
        have pair := List.cons.inj data
        refine ⟨_, parsed, first, items, rfl, ?_, ?_⟩
        · unfold ScriptItem.number
          rw [pair.1]
          exact congrArg Option.some decoded
        · rw [behind]
          exact pair.2

theorem decodable_coinbaseScriptSig {height : Int} {poolid : Option Bytes}
    (admissible : Admissible height poolid) :
    Exists fun scriptSig => coinbaseScriptSig height poolid = .ok scriptSig ∧
      Decodable height poolid scriptSig := by
  by_cases small : height ≤ 16
  · exact decodable_of_low admissible small
  · exact decodable_of_high admissible small

/-- A pool id that was pushed could be pushed, so a script that was built for a
height is read as that height and the pool id. -/
theorem decodable_of_coinbaseScriptSig {height : Int} {poolid : Option Bytes} {scriptSig : Bytes}
    (low : 1 ≤ height) (high : height < 2 ^ 31)
    (built : coinbaseScriptSig height poolid = .ok scriptSig) :
    Decodable height poolid scriptSig := by
  have admissible : Admissible height poolid := by
    refine ⟨low, high, fun id pushed => ?_⟩
    rw [pushed] at built
    rcases bind_eq_ok.mp built with ⟨_, -, rest⟩
    rcases bind_eq_ok.mp rest with ⟨push, wrote, -⟩
    by_contra long
    unfold encodeOpPushdata at wrote
    rw [if_neg (by omega), if_neg (by omega), if_neg (by omega), if_neg (by omega)] at wrote
    cases wrote
  rcases decodable_coinbaseScriptSig admissible with ⟨script, same, decodable⟩
  cases same.symm.trans built
  exact decodable

/-! ## Distinct coinbases -/

/-- The items determine the height and the pool id. -/
theorem ReadsAs.unique {height height' : Int} {poolid poolid' : Option Bytes}
    {items : List ScriptItem} (reads : ReadsAs height poolid items)
    (reads' : ReadsAs height' poolid' items) : height = height' ∧ poolid = poolid' := by
  rcases reads with ⟨first, behind, shape, number, data⟩
  rcases reads' with ⟨first', behind', shape', number', data'⟩
  rw [shape] at shape'
  rcases List.cons.inj shape' with ⟨here, later⟩
  subst here later
  have heights : height = height' := Option.some.inj (number.symm.trans number')
  subst heights
  have pushes := List.map_injective_iff.mpr (Option.some_injective Bytes) (data.symm.trans data')
  have ids := List.append_cancel_left pushes
  refine ⟨rfl, ?_⟩
  cases poolid <;> cases poolid' <;> cases ids <;> rfl

/-- Scripts that are the same say the same. -/
theorem coinbaseScriptSig_injective {height height' : Int} {poolid poolid' : Option Bytes}
    {scriptSig : Bytes} (admissible : Admissible height poolid)
    (admissible' : Admissible height' poolid')
    (built : coinbaseScriptSig height poolid = .ok scriptSig)
    (built' : coinbaseScriptSig height' poolid' = .ok scriptSig) :
    height = height' ∧ poolid = poolid' := by
  rcases decodable_coinbaseScriptSig admissible with ⟨script, same, decodable⟩
  rcases decodable_coinbaseScriptSig admissible' with ⟨script', same', decodable'⟩
  cases built.symm.trans same
  cases built'.symm.trans same'
  rcases decodable.reads with ⟨items, parsed, reads⟩
  rcases decodable'.reads with ⟨items', parsed', reads'⟩
  cases parsed.symm.trans parsed'
  exact reads.unique reads'

/-- The coinbase of a block that was built for a height and a pool id. -/
structure CoinbaseOf (height : Int) (poolid : Option Bytes) (coinbase : CTransaction) : Prop where
  input : Exists fun input => coinbase.vin = [input] ∧
    coinbaseScriptSig height poolid = .ok input.scriptSig ∧ input.nSequence ≠ 0xffffffff
  locktime : coinbase.nLockTime = height - 1

theorem coinbaseOf_assembleBlock {hash256 : Hash256} {tmpl : BlockTemplate} {rewardSpk : Bytes}
    {blocktime nversion : Option Int} {poolid : Option Bytes} {block : CBlock}
    (run : assembleBlock hash256 tmpl rewardSpk blocktime poolid nversion = .ok block) :
    Exists fun coinbase => Exists fun txs => block.vtx = coinbase :: txs ∧
      CoinbaseOf tmpl.height poolid coinbase := by
  rcases draftOf_assembleBlock run with ⟨draft, drafted⟩
  have same := drafted.coinbase_uncached
  have inputs : draft.coinbase.vin = (rewardCoinbase tmpl rewardSpk draft.scriptSig).vin := by
    rw [← same]
    rfl
  have locktime : draft.coinbase.nLockTime = tmpl.height - 1 := by
    change draft.coinbase.uncached.nLockTime = _
    rw [same]
    rfl
  refine ⟨draft.committed, draft.txs, by rw [drafted.block], ⟨_, inputs, drafted.scriptSig, ?_⟩,
    locktime⟩
  change maxSequenceNonfinal ≠ 0xffffffff
  decide

/-- For every height behind the first block and every pool id that can be
pushed, the coinbase script is long enough, starts as BIP34 asks, and is parsed
into the height, the empty push of low heights and the pool id; no other height
or pool id has the same script; and the block that is built around it has the
height in its lock time, with a sequence number that makes it count. -/
theorem coinbase_decodable {height : Int} {poolid : Option Bytes}
    (admissible : Admissible height poolid) :
    (Exists fun scriptSig => coinbaseScriptSig height poolid = .ok scriptSig ∧
      Decodable height poolid scriptSig ∧
      forall height' poolid', Admissible height' poolid' ->
        coinbaseScriptSig height' poolid' = .ok scriptSig -> height = height' ∧ poolid = poolid') ∧
    forall (hash256 : Hash256) (tmpl : BlockTemplate) (rewardSpk : Bytes)
      (blocktime nversion : Option Int) (block : CBlock), tmpl.height = height ->
      assembleBlock hash256 tmpl rewardSpk blocktime poolid nversion = .ok block ->
        Exists fun coinbase => Exists fun txs => block.vtx = coinbase :: txs ∧
          CoinbaseOf height poolid coinbase := by
  constructor
  · rcases decodable_coinbaseScriptSig admissible with ⟨scriptSig, built, decodable⟩
    refine ⟨scriptSig, built, decodable, ?_⟩
    intro height' poolid' admissible' built'
    exact coinbaseScriptSig_injective admissible admissible' built built'
  · intro hash256 tmpl rewardSpk blocktime nversion block same run
    rw [← same]
    exact coinbaseOf_assembleBlock run

/-- Height 128 needs a byte for its sign, and the pool id follows. -/
theorem coinbase_decodable_sample :
    (Exists fun scriptSig => coinbaseScriptSig 128 (some [0x2f, 0x2f]) = .ok scriptSig ∧
      Decodable 128 (some [0x2f, 0x2f]) scriptSig ∧
      forall height' poolid', Admissible height' poolid' ->
        coinbaseScriptSig height' poolid' = .ok scriptSig ->
          128 = height' ∧ some [0x2f, 0x2f] = poolid') ∧
    forall (hash256 : Hash256) (tmpl : BlockTemplate) (rewardSpk : Bytes)
      (blocktime nversion : Option Int) (block : CBlock), tmpl.height = 128 ->
      assembleBlock hash256 tmpl rewardSpk blocktime (some [0x2f, 0x2f]) nversion = .ok block ->
        Exists fun coinbase => Exists fun txs => block.vtx = coinbase :: txs ∧
          CoinbaseOf 128 (some [0x2f, 0x2f]) coinbase := by
  apply coinbase_decodable
  refine ⟨by decide, by decide, ?_⟩
  intro id same
  cases same
  decide

end Miner
end MutinyNet
