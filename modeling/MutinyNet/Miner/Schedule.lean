import MutinyNet.Python.Text

namespace MutinyNet
namespace Miner

open Codec Python

/-!
# When the next block is due

The `Generate` object of the miner: how long the next block should take, whose
turn it is, and when this miner acts.  Clock readings and times are rational
numbers here, where nothing depends on the rounding; `Double` computes with the
source's floating point numbers.  `log1p` is the one library function that stays a
parameter.
-/

/-- The fields of a `getblockheader` answer that the miner reads. -/
structure HeaderInfo where
  hash : String
  height : Int
  bits : String
  time : Int
  deriving DecidableEq, Repr

/-- `nbits_to_target`; below exponent three it is not an integer. -/
def nbitsToTarget (nbits : Int) : ℚ :=
  let shift := (nbits / 2 ^ 24) % 256
  ((nbits % 2 ^ 24 : Int) : ℚ) * (2 : ℚ) ^ (8 * (shift - 3))

/-- The attributes `Generate` is constructed with. -/
structure Generate where
  multiLow : Int
  multiHigh : Int
  multiPeriod : Int
  ultimateTarget : ℚ
  poisson : Bool
  maxInterval : Int
  standbyDelay : Int
  backupDelay : Int
  setBlockTime : Option ℚ
  poolid : Option Bytes
  nversion : Option Int
  deriving DecidableEq

/-- The attributes `next_block_time` sets. -/
structure Schedule where
  mineTime : Int
  actionTime : Int
  isMine : Bool
  deriving DecidableEq, Repr

namespace Generate

/-- `INTERVAL`: ten minutes, adjusted for the off-by-one of the retargeting. -/
def interval : ℚ := 600 * 2016 / 2015

/-- How far the desired target is off, capped to what one period can correct. -/
def retargetFactor (ultimateTarget currentTarget : ℚ) : ℚ :=
  max (1 / 4) (min (ultimateTarget / currentTarget) 4)

/-- The multiplier of one interval; for a Poisson process the last digits of
the hash serve as the random number. -/
def intervalVariance (log1p : ℚ -> ℚ) (self : Generate) (lastHash : String) : Except PyError ℚ :=
  if self.poisson then do
    let detRand ← intFromHex (sliceFromEnd lastHash 8 0)
    pure (-log1p (-((detRand : ℚ) * (2 : ℚ) ^ (-32 : Int))))
  else pure 1

/-- `next_block_delta`. -/
def nextBlockDelta (log1p : ℚ -> ℚ) (self : Generate) (lastNbits : Int) (lastHash : String) :
    Except PyError ℚ :=
  let currentTarget := nbitsToTarget lastNbits
  if currentTarget = 0 then .error .zeroDivisionError
  else do
    let avgInterval := interval * retargetFactor self.ultimateTarget currentTarget
    let thisIntervalVariance ← self.intervalVariance log1p lastHash
    let thisInterval := avgInterval * thisIntervalVariance
    pure (max 1 (min thisInterval self.maxInterval))

/-- `next_block_is_mine`; Python's remainder takes the sign of the divisor. -/
def nextBlockIsMine (self : Generate) (lastHash : String) : Except PyError Bool := do
  let detRand ← intFromHex (sliceFromEnd lastHash 16 8)
  if self.multiPeriod = 0 then .error .zeroDivisionError
  else
    let turn := detRand.fmod self.multiPeriod
    pure (decide (self.multiLow ≤ turn ∧ turn < self.multiHigh))

variable (delta : Int -> String -> Except PyError ℚ)

/-- The three branches of `next_block_time`, before rounding: when the block is
due, when this miner acts, and whether it is this miner's block.  The interval
comes from `delta`. -/
def plannedTime (self : Generate) (now : ℚ) (bestheader : HeaderInfo) (isFirstBlock : Bool) :
    Except PyError (ℚ × ℚ × Bool) :=
  match self.setBlockTime with
  | some setBlockTime => pure (setBlockTime, now, true)
  | none =>
      if bestheader.height = 0 then pure (now - interval * 100, now, true)
      else do
        let nbits ← intFromHex bestheader.bits
        let timeDelta ← delta nbits bestheader.hash
        let mineTime := (bestheader.time : ℚ) + timeDelta
        let isMine ← self.nextBlockIsMine bestheader.hash
        let actionTime := if isMine then mineTime else mineTime + self.backupDelay
        let actionTime :=
          if 0 < self.standbyDelay then actionTime + self.standbyDelay
          else if isFirstBlock then now
          else actionTime
        pure (mineTime, actionTime, isMine)

/-- `next_block_time`: both times are rounded, and no block is mined two hours
into the future. -/
def nextBlockTime (self : Generate) (now : ℚ) (bestheader : HeaderInfo) (isFirstBlock : Bool) :
    Except PyError Schedule := do
  let (mineTime, actionTime, isMine) ← self.plannedTime delta now bestheader isFirstBlock
  let mineTime := truncate mineTime
  let actionTime := truncate actionTime
  pure { mineTime, actionTime := max actionTime (mineTime - 6900), isMine }

/-! ## Bounds -/

variable {delta} {self : Generate} {now : ℚ} {bestheader : HeaderInfo} {isFirstBlock : Bool}
  {schedule : Schedule}

/-- Whatever branch was taken, the miner acts at most 6900 seconds before the
time it gives the block. -/
theorem actionTime_of_nextBlockTime
    (run : self.nextBlockTime delta now bestheader isFirstBlock = .ok schedule) :
    schedule.mineTime - 6900 ≤ schedule.actionTime := by
  rcases bind_eq_ok.mp run with ⟨⟨mineTime, actionTime, isMine⟩, -, assembled⟩
  cases assembled
  exact le_max_right _ _

/-- The schedule behind a first block, without a standby delay: the miner whose
turn it is acts when the block is due, every other one `backupDelay` later. -/
theorem nextBlockTime_turn {nbits : Int} {timeDelta : ℚ} {isMine : Bool}
    (ongoing : self.setBlockTime = none) (started : bestheader.height ≠ 0)
    (immediate : self.standbyDelay = 0) (backup : 0 ≤ self.backupDelay)
    (bits : intFromHex bestheader.bits = .ok nbits)
    (interval : delta nbits bestheader.hash = .ok timeDelta)
    (due : 0 ≤ (bestheader.time : ℚ) + timeDelta)
    (turn : self.nextBlockIsMine bestheader.hash = .ok isMine) :
    self.nextBlockTime delta now bestheader false = .ok
      { mineTime := ⌊(bestheader.time : ℚ) + timeDelta⌋
        actionTime := ⌊(bestheader.time : ℚ) + timeDelta⌋ +
          (if isMine then 0 else self.backupDelay)
        isMine } := by
  have planned : self.plannedTime delta now bestheader false = .ok
      ((bestheader.time : ℚ) + timeDelta,
        if isMine then (bestheader.time : ℚ) + timeDelta
          else (bestheader.time : ℚ) + timeDelta + self.backupDelay, isMine) := by
    unfold plannedTime
    rw [ongoing]
    dsimp only
    rw [if_neg started, bits, immediate]
    simp only [bind, Except.bind, interval, turn, lt_irrefl, if_false, Bool.false_eq_true]
    rfl
  have clamp : forall time : Int, 0 ≤ self.backupDelay ->
      max (time + (if isMine then 0 else self.backupDelay)) (time - 6900) =
        time + (if isMine then 0 else self.backupDelay) := by
    intro time _
    split <;> omega
  have action : truncate (if isMine then (bestheader.time : ℚ) + timeDelta
      else (bestheader.time : ℚ) + timeDelta + self.backupDelay) =
        ⌊(bestheader.time : ℚ) + timeDelta⌋ + (if isMine then 0 else self.backupDelay) := by
    have later : (0 : ℚ) ≤ self.backupDelay := by exact_mod_cast backup
    cases isMine with
    | true => rw [if_pos rfl, if_pos rfl, truncate_of_nonneg due, add_zero]
    | false =>
        rw [if_neg (by decide), if_neg (by decide), truncate_of_nonneg (by positivity),
          Int.floor_add_intCast]
  unfold nextBlockTime
  rw [planned]
  simp only [bind, Except.bind]
  rw [action, truncate_of_nonneg due, clamp _ backup]
  rfl

end Generate

end Miner
end MutinyNet
