import MutinyNet.Miner.Turns

namespace MutinyNet
namespace Miner

open Codec Python

/-!
# Intervals lose their fraction

`INTERVAL` is a little longer than ten minutes, so that the 2015 intervals of a
period take the time of 2016.  But the time of a block is rounded down before
the next interval is added to it, and at the desired difficulty every interval
loses all it has above ten minutes.
-/

/-- A miner that is not to vary its intervals, and does not cap them. -/
structure Steady (gen : Generate) : Prop where
  poisson : gen.poisson = false
  ongoing : gen.setBlockTime = none
  uncapped : 960 ≤ gen.maxInterval

/-- A header behind the first one, with the target the miner is after. -/
structure AtTarget (gen : Generate) (header : HeaderInfo) : Prop where
  started : header.height ≠ 0
  bits : Exists fun nbits => intFromHex header.bits = .ok nbits ∧
    nbitsToTarget nbits = gen.ultimateTarget

/-- A block with the time that was computed from the header in front of it. -/
def OnSchedule (log1p : ℚ -> ℚ) (gen : Generate) (header next : HeaderInfo) : Prop :=
  Exists fun now => Exists fun isFirstBlock => Exists fun schedule =>
    gen.nextBlockTime (gen.nextBlockDelta log1p) now header isFirstBlock = .ok schedule ∧
      next.time = schedule.mineTime

/-- The last header of a run. -/
def lastHeader (start : HeaderInfo) (blocks : List HeaderInfo) : HeaderInfo :=
  (start :: blocks).getLast (List.cons_ne_nil _ _)

namespace Generate

theorem interval_bounds : 600 ≤ interval ∧ interval < 601 := by
  unfold interval
  norm_num

/-- At the desired target the interval is `INTERVAL`. -/
theorem nextBlockDelta_steady {log1p : ℚ -> ℚ} {gen : Generate} {nbits : Int} {hash : String}
    (steady : Steady gen) (target : nbitsToTarget nbits = gen.ultimateTarget)
    (proper : gen.ultimateTarget ≠ 0) : gen.nextBlockDelta log1p nbits hash = .ok interval := by
  have cap : (960 : ℚ) ≤ gen.maxInterval := by exact_mod_cast steady.uncapped
  have bounds := interval_bounds
  have factor : retargetFactor gen.ultimateTarget gen.ultimateTarget = 1 := by
    rw [retargetFactor, div_self proper]
    norm_num
  unfold nextBlockDelta intervalVariance
  dsimp only
  rw [target, if_neg proper, steady.poisson, factor]
  simp only [Bool.false_eq_true, if_false, bind, Except.bind, pure, Except.pure, mul_one]
  rw [min_eq_left (by linarith), max_eq_right (by linarith)]

/-- Behind a first block the time is the one of the header and an interval,
rounded. -/
theorem mineTime_of_nextBlockTime {delta : Int -> String -> Except PyError ℚ} {gen : Generate}
    {now : ℚ} {header : HeaderInfo} {isFirstBlock : Bool} {schedule : Schedule}
    (ongoing : gen.setBlockTime = none) (started : header.height ≠ 0)
    (run : gen.nextBlockTime delta now header isFirstBlock = .ok schedule) :
    Exists fun nbits => Exists fun timeDelta => intFromHex header.bits = .ok nbits ∧
      delta nbits header.hash = .ok timeDelta ∧
      schedule.mineTime = truncate ((header.time : ℚ) + timeDelta) := by
  rcases bind_eq_ok.mp run with ⟨⟨mineTime, actionTime, isMine⟩, planned, assembled⟩
  cases assembled
  unfold plannedTime at planned
  rw [ongoing] at planned
  dsimp only at planned
  rw [if_neg started] at planned
  simp only [bind_eq_ok] at planned
  rcases planned with ⟨nbits, bits, timeDelta, interval, turn, -, assembled⟩
  cases assembled
  exact ⟨nbits, timeDelta, bits, interval, rfl⟩

/-- A target that is zero has no interval. -/
theorem target_ne_zero_of_nextBlockDelta {log1p : ℚ -> ℚ} {gen : Generate} {nbits : Int}
    {hash : String} {timeDelta : ℚ} (target : nbitsToTarget nbits = gen.ultimateTarget)
    (run : gen.nextBlockDelta log1p nbits hash = .ok timeDelta) : gen.ultimateTarget ≠ 0 := by
  intro zero
  unfold nextBlockDelta at run
  dsimp only at run
  rw [target, if_pos zero] at run
  cases run

theorem floor_interval : ⌊interval⌋ = 600 := by
  have bounds := interval_bounds
  apply Int.floor_eq_iff.mpr
  constructor
  · exact_mod_cast bounds.1
  · push_cast
    linarith

/-- A block on schedule has the time of its predecessor and ten minutes. -/
theorem time_of_onSchedule {log1p : ℚ -> ℚ} {gen : Generate} {header next : HeaderInfo}
    (steady : Steady gen) (atTarget : AtTarget gen header) (late : 0 ≤ header.time)
    (scheduled : OnSchedule log1p gen header next) : next.time = header.time + 600 := by
  rcases scheduled with ⟨now, isFirstBlock, schedule, run, same⟩
  rcases mineTime_of_nextBlockTime steady.ongoing atTarget.started run with
    ⟨nbits, timeDelta, bits, delta, mined⟩
  rcases atTarget.bits with ⟨nbits', parsed, target⟩
  have sameBits : nbits = nbits' := Except.ok.inj (bits.symm.trans parsed)
  subst sameBits
  have proper := target_ne_zero_of_nextBlockDelta target delta
  have whole : interval = timeDelta :=
    Except.ok.inj ((nextBlockDelta_steady steady target proper).symm.trans delta)
  have nonneg : (0 : ℚ) ≤ header.time := by exact_mod_cast late
  have bounds := interval_bounds
  rw [same, mined, ← whole, truncate_of_nonneg (by linarith), Int.floor_intCast_add,
    floor_interval]

/-! ## A run of blocks on schedule -/

/-- Every block of the run adds ten minutes. -/
theorem time_lastHeader {log1p : ℚ -> ℚ} {gen : Generate} {start : HeaderInfo}
    {blocks : List HeaderInfo} (steady : Steady gen)
    (atTarget : forall header, header ∈ start :: blocks -> AtTarget gen header)
    (late : 0 ≤ start.time) (run : List.IsChain (OnSchedule log1p gen) (start :: blocks)) :
    (lastHeader start blocks).time = start.time + 600 * blocks.length := by
  induction blocks generalizing start with
  | nil =>
      change start.time = _
      rw [List.length_nil]
      omega
  | cons next blocks inductionHypothesis =>
      rw [List.isChain_cons_cons] at run
      have first := time_of_onSchedule steady (atTarget start List.mem_cons_self) late run.1
      have rest := inductionHypothesis
        (fun header member => atTarget header (List.mem_cons_of_mem start member)) (by omega) run.2
      have last : lastHeader start (next :: blocks) = lastHeader next blocks :=
        List.getLast_cons (List.cons_ne_nil _ _)
      rw [last, rest, first, List.length_cons]
      push_cast
      ring

/-- A run of blocks on schedule stays within one second of its intervals exactly
as long as it has at most three blocks: each block loses 600 / 2015 seconds. -/
theorem within_second_iff {log1p : ℚ -> ℚ} {gen : Generate} {start : HeaderInfo}
    {blocks : List HeaderInfo} (steady : Steady gen)
    (atTarget : forall header, header ∈ start :: blocks -> AtTarget gen header)
    (late : 0 ≤ start.time) (run : List.IsChain (OnSchedule log1p gen) (start :: blocks)) :
    |((lastHeader start blocks).time : ℚ) - (start.time + blocks.length * interval)| < 1 <->
      blocks.length ≤ 3 := by
  rw [time_lastHeader steady atTarget late run]
  have lost : (((start.time + 600 * blocks.length : Int) : ℚ) -
      (start.time + blocks.length * interval)) = -((blocks.length : ℚ) * (600 / 2015)) := by
    unfold interval
    push_cast
    ring
  have positive : (0 : ℚ) ≤ (blocks.length : ℚ) * (600 / 2015) := by positivity
  rw [lost, abs_neg, abs_of_nonneg positive]
  constructor
  · intro close
    by_contra long
    have many : (4 : ℚ) ≤ blocks.length := by exact_mod_cast Nat.lt_of_not_le long
    linarith
  · intro short
    have few : (blocks.length : ℚ) ≤ 3 := by exact_mod_cast short
    linarith

/-! ## Four blocks -/

/-- A single miner after the target of the headers below. -/
def steadyMiner : Generate where
  multiLow := 0
  multiHigh := 1
  multiPeriod := 1
  ultimateTarget := nbitsToTarget 0x1e0377ae
  poisson := false
  maxInterval := 1800
  standbyDelay := 0
  backupDelay := 0
  setBlockTime := none
  poolid := none
  nversion := none

theorem steady_steadyMiner : Steady steadyMiner := ⟨rfl, rfl, by decide⟩

/-- The header that many blocks behind a first one. -/
def steadyHeader (count : Nat) : HeaderInfo where
  hash := String.ofList (List.replicate 64 '0')
  height := 300 + count
  bits := String.ofList ['1', 'e', '0', '3', '7', '7', 'a', 'e']
  time := 1700000000 + 600 * count

theorem bits_steadyHeader (count : Nat) :
    intFromHex (steadyHeader count).bits = .ok 0x1e0377ae := by
  change intFromHex (String.ofList ['1', 'e', '0', '3', '7', '7', 'a', 'e']) = _
  decide +kernel

theorem atTarget_steadyHeader (count : Nat) : AtTarget steadyMiner (steadyHeader count) where
  started := by
    change (300 + count : Int) ≠ 0
    omega
  bits := ⟨0x1e0377ae, bits_steadyHeader count, rfl⟩

theorem onSchedule_steadyHeader (log1p : ℚ -> ℚ) (count : Nat) :
    OnSchedule log1p steadyMiner (steadyHeader count) (steadyHeader (count + 1)) := by
  have digits : IsHash (steadyHeader count).hash := by
    unfold IsHash steadyHeader
    rw [String.toList_ofList]
    refine ⟨List.length_replicate, fun char member => ?_⟩
    rw [(List.mem_replicate.mp member).2]
    rfl
  rcases turn_of_hash digits (le_refl 1) with ⟨turn, nonneg, single, isMine⟩
  have proper : steadyMiner.ultimateTarget ≠ 0 := by
    change nbitsToTarget 0x1e0377ae ≠ 0
    unfold nbitsToTarget
    norm_num
  have bounds := interval_bounds
  have nonneg : (0 : ℚ) ≤ (steadyHeader count).time := by
    have late : (0 : Int) ≤ (steadyHeader count).time := by
      change (0 : Int) ≤ 1700000000 + 600 * count
      omega
    exact_mod_cast late
  have schedule := @nextBlockTime_turn (steadyMiner.nextBlockDelta log1p) steadyMiner 0
    (steadyHeader count) 0x1e0377ae interval _ rfl (atTarget_steadyHeader count).started rfl
    (le_refl _) (bits_steadyHeader count) (nextBlockDelta_steady steady_steadyMiner rfl proper)
    (by linarith) (isMine steadyMiner rfl)
  refine ⟨0, false, _, schedule, ?_⟩
  dsimp only
  rw [Int.floor_intCast_add, floor_interval]
  change (1700000000 + 600 * ((count + 1 : Nat) : Int)) = 1700000000 + 600 * (count : Int) + 600
  push_cast
  ring

theorem chain_steadyHeader (log1p : ℚ -> ℚ) (first count : Nat) :
    List.IsChain (OnSchedule log1p steadyMiner)
      (steadyHeader first :: (List.range' (first + 1) count).map steadyHeader) := by
  induction count generalizing first with
  | zero => exact List.isChain_singleton _
  | succ count inductionHypothesis =>
      rw [List.range'_succ, List.map_cons, List.isChain_cons_cons]
      exact ⟨onSchedule_steadyHeader log1p first, inductionHypothesis (first + 1)⟩

theorem atTarget_of_mem {header : HeaderInfo} {counts : List Nat}
    (member : header ∈ counts.map steadyHeader) : AtTarget steadyMiner header := by
  rcases List.mem_map.mp member with ⟨count, -, same⟩
  rw [← same]
  exact atTarget_steadyHeader count

/-- The times of four blocks are more than a second short. -/
theorem seconds_lost :
    Steady steadyMiner ∧
      (forall header, header ∈ steadyHeader 0 :: [1, 2, 3, 4].map steadyHeader ->
        AtTarget steadyMiner header) ∧
      List.IsChain (OnSchedule (fun value => value) steadyMiner)
        (steadyHeader 0 :: [1, 2, 3, 4].map steadyHeader) ∧
      ¬ |((lastHeader (steadyHeader 0) ([1, 2, 3, 4].map steadyHeader)).time : ℚ) -
        ((steadyHeader 0).time + ([1, 2, 3, 4].map steadyHeader).length * interval)| < 1 := by
  refine ⟨steady_steadyMiner, ?_, chain_steadyHeader _ 0 4, ?_⟩
  · intro header member
    exact @atTarget_of_mem header [0, 1, 2, 3, 4] member
  · change ¬ |(((1700000000 + 600 * (4 : Nat) : Int)) : ℚ) -
      (((1700000000 + 600 * (0 : Nat) : Int)) + (4 : Nat) * interval)| < 1
    unfold interval
    norm_num

theorem within_second_iff_sample :
    |((lastHeader (steadyHeader 0) ([1, 2, 3].map steadyHeader)).time : ℚ) -
      ((steadyHeader 0).time + ([1, 2, 3].map steadyHeader).length * interval)| < 1 <->
        ([1, 2, 3].map steadyHeader).length ≤ 3 :=
  within_second_iff steady_steadyMiner
    (fun header member => @atTarget_of_mem header [0, 1, 2, 3] member) (by decide)
    (chain_steadyHeader (fun value => value) 0 3)

end Generate

end Miner
end MutinyNet
