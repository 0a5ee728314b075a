import MutinyNet.Miner.Arguments
import MutinyNet.Miner.Assembly
import MutinyNet.Python.Format

namespace MutinyNet
namespace Miner

open Codec Python Messages

/-!
# The versions that signal a soft fork

`calc_nversion.py` packs the number of a deployment into three bit fields under
the top bits of a version, one pair of top bits to activate and one to abandon.
The operator copies the printed value to `--nversion`.  The fields are disjoint,
so a packed version is a sum, and everything about it is arithmetic.
-/

/-- `VERSIONBITS_TOP_ACTIVE`. -/
def versionbitsTopActive : Nat := 0x60000000

/-- `VERSIONBITS_TOP_ABANDON`. -/
def versionbitsTopAbandon : Nat := 0x40000000

/-- `binana_id`.  The remainders by a positive number are never negative. -/
def binanaId (year number revision : Int) : Nat :=
  (((year % 32).toNat <<< 22) ||| ((number % 16384).toNat <<< 8)) ||| (revision % 256).toNat

/-- The `activate` of `main`. -/
def signalActivate (year number revision : Int) : Nat :=
  versionbitsTopActive ||| binanaId year number revision

/-- The `abandon` of `main`. -/
def signalAbandon (year number revision : Int) : Nat :=
  versionbitsTopAbandon ||| binanaId year number revision

/-- A value as `main` prints it, `0x{value:08x}`. -/
def printedVersion (value : Nat) : String :=
  String.ofList ('0' :: 'x' :: formatHexPadded 8 value)

/-- The lines `main` prints about a deployment. -/
def versionReport (name : String) (year number revision : Int) : List String :=
  [ "deployment:      " ++ name,
    "binana:          [" ++ toString year ++ ", " ++ toString number ++ ", " ++
      toString revision ++ "]",
    "binana_id:       " ++ printedVersion (binanaId year number revision),
    "signal_activate: " ++ printedVersion (signalActivate year number revision),
    "signal_abandon:  " ++ printedVersion (signalAbandon year number revision) ]

example : printedVersion (signalActivate 2026 1 0) = "0x62800100" := by
  decide +kernel

/-! ## Packed fields -/

/-- A field above a smaller number is added to it. -/
theorem shiftLeft_or_eq {width low : Nat} (fits : low < 2 ^ width) (high : Nat) :
    high <<< width ||| low = high * 2 ^ width + low := by
  rw [← Nat.shiftLeft_add_eq_or_of_lt fits, Nat.shiftLeft_eq]

theorem binanaId_eq (year number revision : Int) :
    binanaId year number revision =
      (year % 32).toNat * 2 ^ 22 + (number % 16384).toNat * 2 ^ 8 + (revision % 256).toNat := by
  have numberFits : (number % 16384).toNat <<< 8 < 2 ^ 22 := by
    rw [Nat.shiftLeft_eq]
    omega
  have revisionFits : (revision % 256).toNat < 2 ^ 8 := by omega
  have upper : (year % 32).toNat <<< 22 ||| (number % 16384).toNat <<< 8 =
      ((year % 32).toNat * 2 ^ 14 + (number % 16384).toNat) <<< 8 := by
    rw [shiftLeft_or_eq numberFits, Nat.shiftLeft_eq, Nat.shiftLeft_eq]
    ring
  rw [binanaId, upper, shiftLeft_or_eq revisionFits]
  ring

theorem binanaId_lt (year number revision : Int) : binanaId year number revision < 2 ^ 27 := by
  rw [binanaId_eq]
  omega

theorem signalActivate_eq (year number revision : Int) :
    signalActivate year number revision = 3 * 2 ^ 29 + binanaId year number revision := by
  have fits : binanaId year number revision < 2 ^ 29 :=
    lt_trans (binanaId_lt year number revision) (by decide)
  rw [signalActivate, ← shiftLeft_or_eq fits 3]
  rfl

theorem signalAbandon_eq (year number revision : Int) :
    signalAbandon year number revision = 2 * 2 ^ 29 + binanaId year number revision := by
  have fits : binanaId year number revision < 2 ^ 29 :=
    lt_trans (binanaId_lt year number revision) (by decide)
  rw [signalAbandon, ← shiftLeft_or_eq fits 2]
  rfl

theorem binanaId_inj {year number revision year' number' revision' : Int} :
    binanaId year number revision = binanaId year' number' revision' <->
      year % 32 = year' % 32 ∧ number % 16384 = number' % 16384 ∧
        revision % 256 = revision' % 256 := by
  rw [binanaId_eq, binanaId_eq]
  omega

theorem signalActivate_ne_signalAbandon (year number revision year' number' revision' : Int) :
    signalActivate year number revision ≠ signalAbandon year' number' revision' := by
  have small := binanaId_lt year' number' revision'
  rw [signalActivate_eq, signalAbandon_eq]
  omega

/-- The top three bits of a 32-bit number. -/
def topBits (value : Nat) : Nat :=
  value >>> 29

theorem topBits_signalActivate (year number revision : Int) :
    topBits (signalActivate year number revision) = 3 := by
  have small := binanaId_lt year number revision
  rw [topBits, signalActivate_eq, Nat.shiftRight_eq_div_pow]
  omega

/-! ## On the way into a block -/

/-- What is printed is what the miner's option is read as. -/
theorem parseNversion_printedVersion (value : Nat) :
    parseNversion (some (printedVersion value)) = .ok (some (value : Int)) := by
  have parsed := intFromHexChars_marked (paddedDigits_ne_nil 8 value) fun _ => paddedDigits_lt
  rw [← formatHexPadded_natCast, ofBigEndian_paddedDigits] at parsed
  change intFromHex (printedVersion value) = _ at parsed
  rw [parseNversion, parsed]
  rfl

/-- Numbers below the sign bit fit in a signed field. -/
theorem intToBytes_signed_of_lt {value : Nat} (small : value < 2 ^ 31) :
    Exists fun bytes => intToBytes 4 true value = .ok bytes := by
  have fits : SignedFits 4 (value : Int) := by
    unfold SignedFits
    norm_num
    omega
  exact ⟨_, by rw [intToBytes, if_pos rfl, if_pos fits]⟩

/-- A version that was asked for is the version of the block that is assembled,
and of the block that is read from its bytes. -/
theorem nVersion_of_assembleBlock {hash256 : Hash256} {tmpl : BlockTemplate} {rewardSpk : Bytes}
    {blocktime : Option Int} {poolid : Option Bytes} {version : Int} {block : CBlock}
    {bytes : Bytes}
    (run : assembleBlock hash256 tmpl rewardSpk blocktime poolid (some version) = .ok block)
    (wrote : block.serialize = .ok bytes) :
    Exists fun header => Exists fun rest =>
      CBlockHeader.deserialize.run bytes = .ok (header, rest) ∧ header.nVersion = version := by
  rcases draftOf_assembleBlock run with ⟨draft, drafted⟩
  have parsed := CBlockHeader.readsBack_deserialize (CBlock.serialize_header wrote) (bytes.drop 80)
  rw [List.take_append_drop] at parsed
  refine ⟨_, _, parsed, ?_⟩
  rw [drafted.block]
  rfl

/-- What becomes of a version on its way through the miner: its printed text is
read as the same number, which fits the signed field of a header, and every
block that is assembled with it and written carries it. -/
structure Carried (version : Nat) : Prop where
  parsed : parseNversion (some (printedVersion version)) = .ok (some (version : Int))
  written : Exists fun bytes => intToBytes 4 true version = .ok bytes ∧ bytes.length = 4 ∧
    intFromBytes true bytes = version
  block : forall (hash256 : Hash256) (tmpl : BlockTemplate) (rewardSpk : Bytes)
    (blocktime : Option Int) (poolid : Option Bytes) (nversion : Option Int) (block : CBlock)
    (bytes : Bytes), parseNversion (some (printedVersion version)) = .ok nversion ->
    assembleBlock hash256 tmpl rewardSpk blocktime poolid nversion = .ok block ->
    block.serialize = .ok bytes ->
    Exists fun header => Exists fun rest =>
      CBlockHeader.deserialize.run bytes = .ok (header, rest) ∧ header.nVersion = version

theorem carried_of_lt {version : Nat} (small : version < 2 ^ 31) : Carried version := by
  have parsed := parseNversion_printedVersion version
  rcases intToBytes_signed_of_lt small with ⟨bytes, wrote⟩
  constructor
  · exact parsed
  · exact ⟨bytes, wrote, intToBytes_spec wrote⟩
  · intro hash256 tmpl rewardSpk blocktime poolid nversion block bytes given run written
    rw [parsed] at given
    cases given
    exact nVersion_of_assembleBlock run written

/-- Versions identify deployments: ids are equal only for the same numbers, no
version both activates and abandons, and a version that activates reaches the
header of a block as it is, with the top bits 011. -/
theorem versions_identify :
    (forall year number revision year' number' revision' : Int,
      binanaId year number revision = binanaId year' number' revision' <->
        year % 32 = year' % 32 ∧ number % 16384 = number' % 16384 ∧
          revision % 256 = revision' % 256) ∧
    (forall year number revision year' number' revision' : Int,
      signalActivate year number revision ≠ signalAbandon year' number' revision') ∧
    (forall year number revision : Int,
      Carried (signalActivate year number revision) ∧
        topBits (signalActivate year number revision) = 3) := by
  refine ⟨fun year number revision year' number' revision' => binanaId_inj,
    signalActivate_ne_signalAbandon, ?_⟩
  intro year number revision
  have below : signalActivate year number revision < 2 ^ 31 := by
    have small := binanaId_lt year number revision
    rw [signalActivate_eq]
    omega
  exact ⟨carried_of_lt below, topBits_signalActivate year number revision⟩

end Miner
end MutinyNet
