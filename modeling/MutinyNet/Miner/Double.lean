import MutinyNet.Codec.Accepted
import MutinyNet.Python.Number
import MutinyNet.Miner.Schedule

namespace MutinyNet
namespace Miner
namespace Double

open Codec Python Floating

/-!
# The schedule in floating point

`next_block_delta` and `next_block_time` once more, with the numbers they compute
with: an integer stays one until it meets a `float`, and every operation on a
`float` rounds.  A sum of a time and a delay may round up to the next second, and
numbers that no `float` holds raise.
-/

/-- `nbits_to_target`, an `int` from exponent three on. -/
def nbitsToTarget (nbits : Int) : Number :=
  let shift := (nbits / 2 ^ 24) % 256
  if 3 ≤ shift then .int ((nbits % 2 ^ 24) * 2 ^ (8 * (shift - 3)).toNat)
  else .float (((nbits % 2 ^ 24 : Int) : ℚ) * powTwo (8 * (shift - 3)))

/-- `INTERVAL`. -/
def interval : ℚ :=
  nearest (1209600 / 2015)

/-- The multiplier of one interval. -/
def intervalVariance (log1p : ℚ -> ℚ) (poisson : Bool) (lastHash : String) :
    Except PyError ℚ :=
  if poisson then do
    let detRand ← intFromHex (sliceFromEnd lastHash 8 0)
    pure (-log1p (-((detRand : ℚ) * powTwo (-32))))
  else pure 1

/-- `next_block_delta`, for the attributes it reads. -/
def nextBlockDelta (log1p : ℚ -> ℚ) (ultimateTarget : Number) (poisson : Bool)
    (maxInterval : Int) (lastNbits : Int) (lastHash : String) : Except PyError Number := do
  let retargetFactor ← ultimateTarget.div (nbitsToTarget lastNbits)
  let retargetFactor := max (1 / 4) (min retargetFactor.value 4)
  let avgInterval := nearest (interval * retargetFactor)
  let thisIntervalVariance ← intervalVariance log1p poisson lastHash
  let thisInterval := Number.float (nearest (avgInterval * thisIntervalVariance))
  pure (Number.greatest (.int 1) (Number.least thisInterval (.int maxInterval)))

/-- A time that was given is an `int`, and one that the clock gave a `float`. -/
def numberOf (time : ℚ) : Number :=
  if time.den = 1 then .int time.num else .float time

variable (delta : Int -> String -> Except PyError Number)

/-- The three branches of `next_block_time`, before they are rounded to seconds. -/
def plannedTime (self : Generate) (now : ℚ) (bestheader : HeaderInfo) (isFirstBlock : Bool) :
    Except PyError (Number × Number × Bool) :=
  match self.setBlockTime with
  | some setBlockTime => pure (numberOf setBlockTime, .float now, true)
  | none =>
      if bestheader.height = 0 then
        pure (.float (nearest (now - nearest (interval * 100))), .float now, true)
      else do
        let nbits ← intFromHex bestheader.bits
        let timeDelta ← delta nbits bestheader.hash
        let mineTime ← (Number.int bestheader.time).add timeDelta
        let isMine ← self.nextBlockIsMine bestheader.hash
        let actionTime ← if isMine then pure mineTime else mineTime.add (.int self.backupDelay)
        let actionTime ←
          if 0 < self.standbyDelay then actionTime.add (.int self.standbyDelay)
          else if isFirstBlock then pure (.float now)
          else pure actionTime
        pure (mineTime, actionTime, isMine)

/-- `next_block_time`. -/
def nextBlockTime (self : Generate) (now : ℚ) (bestheader : HeaderInfo) (isFirstBlock : Bool) :
    Except PyError Schedule := do
  let (mineTime, actionTime, isMine) ← plannedTime delta self now bestheader isFirstBlock
  let mineTime ← mineTime.toInt
  let actionTime ← actionTime.toInt
  pure { mineTime, actionTime := max actionTime (mineTime - 6900), isMine }

/-! ## The interval -/

variable {log1p : ℚ -> ℚ} {ultimateTarget : Number} {poisson : Bool} {maxInterval : Int}
  {lastNbits : Int} {lastHash : String} {timeDelta : Number}

/-- There is an interval exactly if the targets can be divided. -/
theorem nextBlockDelta_isOk_iff
    (digits : Exists fun value => intFromHex (sliceFromEnd lastHash 8 0) = .ok value) :
    (Exists fun timeDelta =>
      nextBlockDelta log1p ultimateTarget poisson maxInterval lastNbits lastHash =
        .ok timeDelta) <-> ultimateTarget.Divisible (nbitsToTarget lastNbits) := by
  rw [← Number.div_isOk_iff]
  constructor
  · rintro ⟨timeDelta, run⟩
    rcases bind_eq_ok.mp run with ⟨quotient, divided, -⟩
    exact ⟨quotient, divided⟩
  · rintro ⟨quotient, divided⟩
    have varied : Exists fun variance =>
        intervalVariance log1p poisson lastHash = .ok variance := by
      rcases digits with ⟨value, parsed⟩
      unfold intervalVariance
      cases poisson with
      | false => exact ⟨1, rfl⟩
      | true =>
          rw [if_pos rfl, parsed]
          exact ⟨_, rfl⟩
    rcases varied with ⟨variance, varied⟩
    exact ⟨_, bind_eq_ok.mpr ⟨quotient, divided, bind_eq_ok.mpr ⟨variance, varied, rfl⟩⟩⟩

/-- The interval is at least one second. -/
theorem one_le_nextBlockDelta
    (run : nextBlockDelta log1p ultimateTarget poisson maxInterval lastNbits lastHash =
      .ok timeDelta) : 1 ≤ timeDelta.value := by
  simp only [nextBlockDelta, bind_eq_ok] at run
  rcases run with ⟨_, -, _, -, assembled⟩
  cases assembled
  rw [Number.value_greatest]
  exact le_max_left _ _

theorem interval_le : interval ≤ 601 := by
  have bound := @nearest_le (1209600 / 2015) 601 (by norm_num) (by norm_num) (by norm_num)
  exact_mod_cast bound

theorem interval_pos : 0 < interval := by
  have bound := @le_nearest (1209600 / 2015) 600 (by norm_num) (by norm_num) (by norm_num)
  exact lt_of_lt_of_le (by norm_num) bound

/-- An interval that is not an integer has less than `2 ^ 17` seconds, where `log1p` is
at least -32, as it is for all 32 bits of the hash. -/
theorem nextBlockDelta_le {x : ℚ} {count : Nat} (small : count < 2 ^ 32)
    (bounded : forall count : Nat, count < 2 ^ 32 -> -32 ≤ log1p (-((count : ℚ) * powTwo (-32))))
    (parsed : intFromHex (sliceFromEnd lastHash 8 0) = .ok count)
    (run : nextBlockDelta log1p ultimateTarget poisson maxInterval lastNbits lastHash =
      .ok (.float x)) : x ≤ 2 ^ 17 := by
  simp only [nextBlockDelta, bind_eq_ok] at run
  rcases run with ⟨quotient, -, variance, varied, assembled⟩
  have factor : max (1 / 4 : ℚ) (min quotient.value 4) ≤ 4 :=
    max_le (by norm_num) (min_le_right _ _)
  have factor' : (1 / 4 : ℚ) ≤ max (1 / 4) (min quotient.value 4) := le_max_left _ _
  have interval' := interval_le
  have positive : 0 < interval := interval_pos
  have average : nearest (interval * max (1 / 4) (min quotient.value 4)) ≤ (2404 : ℤ) := by
    refine nearest_le (by norm_num) (by norm_num) ?_
    push_cast
    nlinarith
  have averageNonneg :
      ((0 : ℤ) : ℚ) ≤ nearest (interval * max (1 / 4) (min quotient.value 4)) := by
    refine le_nearest (le_refl _) (by norm_num) ?_
    push_cast
    positivity
  have varies : variance ≤ 32 := by
    unfold intervalVariance at varied
    split at varied
    · rw [parsed] at varied
      cases varied
      have low := bounded count small
      push_cast
      linarith
    · cases varied
      norm_num
  have product : nearest (nearest (interval * max (1 / 4) (min quotient.value 4)) * variance) ≤
      (2 ^ 17 : ℤ) := by
    generalize nearest (interval * max (1 / 4) (min quotient.value 4)) = mean at *
    push_cast at average averageNonneg
    refine nearest_le (by norm_num) (by norm_num) ?_
    push_cast
    nlinarith
  have chosen := Except.ok.inj assembled
  rcases Number.greatest_eq (.int 1) (Number.least
    (.float (nearest (nearest (interval * max (1 / 4) (min quotient.value 4)) * variance)))
      (.int maxInterval)) with one | other
  · cases one.symm.trans chosen
  · rcases Number.least_eq (.float (nearest (nearest
      (interval * max (1 / 4) (min quotient.value 4)) * variance))) (.int maxInterval) with
        same | whole
    · cases (other.trans same).symm.trans chosen
      exact_mod_cast product
    · cases (other.trans whole).symm.trans chosen

/-! ## Acting after the backup delay -/

/-- The delay does not take a due time across a second: the time is an integer, or
its fraction is more than half a unit of the sum below the next one.  From `2 ^ 52`
on, where a `float` has no fraction, the sum itself is a `float`. -/
def Punctual (due : Number) (backupDelay : Int) : Prop :=
  match due with
  | .int _ => True
  | .float x =>
      if ⌊x⌋ + backupDelay < 2 ^ 52 then
        Int.fract x < 1 - (2 : ℚ) ^ ((Nat.log2 (⌊x⌋ + backupDelay).toNat : ℤ) - 53)
      else ¬ Overflows (nearest backupDelay) ∧ ¬ Overflows (nearest (x + nearest backupDelay)) ∧
        ⌊nearest (x + nearest backupDelay)⌋ = ⌊x⌋ + backupDelay

/-- The time to act is the second the block is due plus the delay exactly if the sum
does not round across a second. -/
theorem toInt_add_iff {due : Number} {backupDelay : Int} (positive : 1 ≤ due.value)
    (backup : 0 ≤ backupDelay) :
    (due.add (.int backupDelay) >>= Number.toInt) = .ok (⌊due.value⌋ + backupDelay) <->
      Punctual due backupDelay := by
  cases due with
  | int time =>
      refine iff_of_true ?_ trivial
      change Except.ok (time + backupDelay) = .ok (⌊(time : ℚ)⌋ + backupDelay)
      rw [Int.floor_intCast]
  | float x =>
      change 1 ≤ x at positive
      change ((Number.float x).add (.int backupDelay) >>= Number.toInt) =
        .ok (⌊x⌋ + backupDelay) <-> _
      have floor : 1 ≤ ⌊x⌋ := Int.le_floor.mpr (by exact_mod_cast positive)
      have delay : (0 : ℚ) ≤ backupDelay := by exact_mod_cast backup
      have delay' : ((0 : ℤ) : ℚ) ≤ nearest backupDelay :=
        le_nearest (le_refl _) (by norm_num) (by exact_mod_cast backup)
      have nonneg : ((0 : ℤ) : ℚ) ≤ nearest (x + nearest backupDelay) := by
        refine le_nearest (le_refl _) (by norm_num) ?_
        rw [Int.cast_zero] at delay' ⊢
        linarith
      rw [Int.cast_zero] at nonneg
      rw [Number.toInt_add_eq_ok_iff nonneg]
      unfold Punctual
      dsimp only
      split
      · next small =>
          -- The delay is a `float`, and the sum rounds to a number of its second or the next.
          have whole : nearest (backupDelay : ℚ) = backupDelay := by
            apply nearest_intCast
            rw [abs_of_nonneg backup]
            omega
          obtain ⟨second, same⟩ :=
            Int.eq_ofNat_of_zero_le (show 0 ≤ ⌊x⌋ + backupDelay by omega)
          have cast : (⌊x⌋ : ℚ) + backupDelay = second := by exact_mod_cast same
          have low : (second : ℚ) ≤ x + backupDelay := by
            linarith [Int.floor_le x]
          have high : x + backupDelay < second + 1 := by
            linarith [Int.lt_floor_add_one x]
          have below : nearest (x + backupDelay) ≤ ((2 ^ 52 : ℤ) : ℚ) := by
            refine nearest_le (by norm_num) (by norm_num) ?_
            have room : second + 1 ≤ 2 ^ 52 := by omega
            exact high.le.trans (by exact_mod_cast room)
          push_cast at below
          have fits : ¬ Overflows (backupDelay : ℚ) := by
            refine not_overflows delay ?_
            have room : backupDelay ≤ 2 ^ 53 := by omega
            exact_mod_cast room
          rw [whole] at nonneg ⊢
          have cut := floor_nearest_iff (show 0 < second by omega) (by omega) low high
          rw [Int.fract_add_intCast] at cut
          rw [same, Int.toNat_natCast, cut]
          exact and_iff_right fits |>.trans
            (and_iff_right (not_overflows nonneg (below.trans (by norm_num))))
      · exact Iff.rfl

/-! ## The schedule behind a first block -/

/-- With an interval there is a due time, and a second that it falls in. -/
theorem exists_due {time : Int} (since : 0 ≤ time) (until' : time < 2 ^ 32)
    (positive : 1 ≤ timeDelta.value) (bounded : forall x, timeDelta = .float x -> x ≤ 2 ^ 17) :
    Exists fun due => (Number.int time).add timeDelta = .ok due ∧ 1 ≤ due.value ∧
      due.toInt = .ok ⌊due.value⌋ := by
  have start : (0 : ℚ) ≤ time := by exact_mod_cast since
  cases timeDelta with
  | int delta =>
      refine ⟨.int (time + delta), rfl, ?_, ?_⟩
      · change (1 : ℚ) ≤ ((time + delta : Int) : ℚ)
        change (1 : ℚ) ≤ (delta : ℚ) at positive
        push_cast
        linarith
      · change Except.ok (time + delta) = .ok ⌊((time + delta : Int) : ℚ)⌋
        rw [Int.floor_intCast]
  | float x =>
      change 1 ≤ x at positive
      have bound := bounded x rfl
      have limit : (time : ℚ) < 2 ^ 32 := by exact_mod_cast until'
      have exact' : nearest (time : ℚ) = time := by
        apply nearest_intCast
        rw [abs_of_nonneg since]
        omega
      have fits : ¬ Overflows (nearest (time : ℚ)) := by
        rw [exact']
        exact not_overflows start (limit.le.trans (by norm_num))
      have low := @le_nearest (time + x) 1 (by norm_num) (by norm_num) (by push_cast; linarith)
      have high := @nearest_le (time + x) (2 ^ 33) (by norm_num) (by norm_num)
        (by push_cast; linarith)
      push_cast at low high
      refine ⟨.float (nearest (time + x)), ?_, low, ?_⟩
      · have converted : (Number.int time).toFloat = .ok (time : ℚ) := by
          change (if Overflows (nearest (time : ℚ)) then Except.error PyError.overflowError
            else .ok (nearest (time : ℚ))) = _
          rw [if_neg fits, exact']
        change ((Number.int time).toFloat >>= fun start =>
          (pure (Number.float (nearest (start + x))) : Except PyError Number)) = _
        rw [converted]
        rfl
      · change (if Overflows (nearest (time + x)) then Except.error PyError.overflowError
          else .ok (truncate (nearest (time + x)))) = _
        rw [if_neg (not_overflows (by linarith) (by linarith)), truncate_of_nonneg (by linarith)]
        rfl

variable {delta : Int -> String -> Except PyError Number} {self : Generate} {now : ℚ}
  {bestheader : HeaderInfo} {nbits : Int} {due : Number} {isMine : Bool}

/-- The schedule behind a first block, without a standby delay: the due time and
the time to act, both rounded to seconds. -/
theorem nextBlockTime_eq (ongoing : self.setBlockTime = none) (started : bestheader.height ≠ 0)
    (immediate : self.standbyDelay = 0) (bits : intFromHex bestheader.bits = .ok nbits)
    (interval : delta nbits bestheader.hash = .ok timeDelta)
    (scheduled : (Number.int bestheader.time).add timeDelta = .ok due)
    (whole : due.toInt = .ok ⌊due.value⌋)
    (turn : self.nextBlockIsMine bestheader.hash = .ok isMine) :
    nextBlockTime delta self now bestheader false =
      ((if isMine then pure due else due.add (.int self.backupDelay)) >>= Number.toInt) >>=
        fun actionTime => .ok
          { mineTime := ⌊due.value⌋
            actionTime := max actionTime (⌊due.value⌋ - 6900)
            isMine } := by
  unfold nextBlockTime plannedTime
  rw [ongoing]
  dsimp only
  rw [if_neg started, bits, immediate]
  simp only [bind, Except.bind, interval, scheduled, turn, lt_irrefl, if_false, Bool.false_eq_true,
    pure, Except.pure]
  cases isMine with
  | true =>
      simp only [if_true, whole]
  | false =>
      simp only [Bool.false_eq_true, if_false]
      cases due.add (.int self.backupDelay) with
      | error err => rfl
      | ok actionTime => simp only [whole]

/-- The miner whose turn it is acts in the second the block is due. -/
theorem nextBlockTime_owner (ongoing : self.setBlockTime = none) (started : bestheader.height ≠ 0)
    (immediate : self.standbyDelay = 0) (bits : intFromHex bestheader.bits = .ok nbits)
    (interval : delta nbits bestheader.hash = .ok timeDelta)
    (scheduled : (Number.int bestheader.time).add timeDelta = .ok due)
    (whole : due.toInt = .ok ⌊due.value⌋)
    (turn : self.nextBlockIsMine bestheader.hash = .ok true) :
    nextBlockTime delta self now bestheader false =
      .ok { mineTime := ⌊due.value⌋, actionTime := ⌊due.value⌋, isMine := true } := by
  rw [nextBlockTime_eq ongoing started immediate bits interval scheduled whole turn, if_pos rfl]
  change (due.toInt >>= fun actionTime => (.ok
    { mineTime := ⌊due.value⌋, actionTime := max actionTime (⌊due.value⌋ - 6900), isMine := true } :
      Except PyError Schedule)) = _
  rw [whole, ok_bind, max_eq_left (by omega)]

/-- Every other one acts a backup delay later exactly if the delay does not take the
due time across a second. -/
theorem nextBlockTime_backup_iff (ongoing : self.setBlockTime = none)
    (started : bestheader.height ≠ 0) (immediate : self.standbyDelay = 0)
    (backup : 0 ≤ self.backupDelay) (bits : intFromHex bestheader.bits = .ok nbits)
    (interval : delta nbits bestheader.hash = .ok timeDelta)
    (scheduled : (Number.int bestheader.time).add timeDelta = .ok due) (positive : 1 ≤ due.value)
    (whole : due.toInt = .ok ⌊due.value⌋)
    (turn : self.nextBlockIsMine bestheader.hash = .ok false) :
    nextBlockTime delta self now bestheader false =
      .ok { mineTime := ⌊due.value⌋
            actionTime := ⌊due.value⌋ + self.backupDelay
            isMine := false } <->
        Punctual due self.backupDelay := by
  rw [nextBlockTime_eq ongoing started immediate bits interval scheduled whole turn,
    if_neg (by decide), ← toInt_add_iff positive backup]
  constructor
  · intro run
    rcases bind_eq_ok.mp run with ⟨actionTime, acts, assembled⟩
    have same := congrArg Schedule.actionTime (Except.ok.inj assembled)
    dsimp only at same
    rw [acts, show actionTime = ⌊due.value⌋ + self.backupDelay by omega]
  · intro acts
    rw [acts, ok_bind, max_eq_left (by omega)]

/-- What a schedule behind a first block is made of. -/
theorem nextBlockTime_spec {schedule : Schedule} (ongoing : self.setBlockTime = none)
    (started : bestheader.height ≠ 0) (immediate : self.standbyDelay = 0)
    (run : nextBlockTime delta self now bestheader false = .ok schedule) :
    Exists fun nbits => Exists fun timeDelta => Exists fun due => Exists fun acts =>
      intFromHex bestheader.bits = .ok nbits ∧ delta nbits bestheader.hash = .ok timeDelta ∧
        (Number.int bestheader.time).add timeDelta = .ok due ∧
        self.nextBlockIsMine bestheader.hash = .ok schedule.isMine ∧
        ((if schedule.isMine then pure due else due.add (.int self.backupDelay)) >>=
          Number.toInt) = .ok acts ∧ acts ≤ schedule.actionTime := by
  rcases bind_eq_ok.mp run with ⟨⟨due, action, isMine⟩, planned, rounded⟩
  simp only [bind_eq_ok] at rounded
  rcases rounded with ⟨mineTime, -, acts, acting, assembled⟩
  cases assembled
  unfold plannedTime at planned
  rw [ongoing] at planned
  dsimp only at planned
  rw [if_neg started, immediate] at planned
  simp only [bind_eq_ok, lt_irrefl, if_false, Bool.false_eq_true] at planned
  rcases planned with ⟨nbits, bits, timeDelta, interval, due', scheduled, isMine', turn, rest⟩
  cases isMine' with
  | true =>
      cases rest
      exact ⟨nbits, timeDelta, _, acts, bits, interval, scheduled, turn, acting, le_max_left _ _⟩
  | false =>
      rcases bind_eq_ok.mp rest with ⟨action', backup, assembled⟩
      cases assembled
      refine ⟨nbits, timeDelta, _, acts, bits, interval, scheduled, turn, ?_, le_max_left _ _⟩
      change (Number.add _ (.int self.backupDelay) >>= Number.toInt) = .ok acts
      rw [backup]
      exact acting

theorem actionTime_of_nextBlockTime {isFirstBlock : Bool} {schedule : Schedule}
    (run : nextBlockTime delta self now bestheader isFirstBlock = .ok schedule) :
    schedule.mineTime - 6900 ≤ schedule.actionTime := by
  rcases bind_eq_ok.mp run with ⟨⟨due, action, isMine⟩, -, rounded⟩
  simp only [bind_eq_ok] at rounded
  rcases rounded with ⟨mineTime, -, acts, -, assembled⟩
  cases assembled
  exact le_max_right _ _

end Double
end Miner
end MutinyNet
