import MutinyNet.Miner.Rounding

namespace MutinyNet
namespace Miner

open Codec Python Transition

/-!
# The target that the chain settles at

A miner has no way to set the target of the next block: the node does, every
2016 blocks, from the time that the last 2015 intervals took.  So the miner
steers: it makes its blocks faster or slower than ten minutes, in proportion to
how far the target is off, by a factor of four at most, as the node would not
follow it further in one period.

The node's rule is not in this repository.  It is taken as the relation that the
consensus rules document: the target is scaled by the timespan over two weeks,
clamped to a quarter and to four times of it, it is not raised above the limit,
and writing it in compact form drops less than one part in 2^15.  Whatever such
a node does, the chain settles just below the target the miner is after, even
though the rounding of block times and the cap on intervals distort what the
miner tells it.
-/

/-- The blocks between two changes of the target. -/
structure Period where
  nbits : Int
  first : HeaderInfo
  rest : List HeaderInfo

namespace Period

/-- The target of the period. -/
def target (period : Period) : ℚ :=
  nbitsToTarget period.nbits

/-- What the node takes for the duration of the period. -/
def timespan (period : Period) : Int :=
  (lastHeader period.first period.rest).time - period.first.time

end Period

/-- A period of 2016 blocks with the times that the miner gives them. -/
structure Scheduled (log1p : ℚ -> ℚ) (gen : Generate) (period : Period) : Prop where
  blocks : period.rest.length = 2015
  bits : forall header, header ∈ period.first :: period.rest ->
    header.height ≠ 0 ∧ intFromHex header.bits = .ok period.nbits
  time : 0 ≤ period.first.time
  chain : List.IsChain (OnSchedule log1p gen) (period.first :: period.rest)

/-- The target that the timespan of a period asks for. -/
def retargeted (limit : ℚ) (period : Period) : ℚ :=
  min (period.target * ((max 302400 (min period.timespan 4838400) : Int) : ℚ) / 1209600) limit

/-- A period of the miner's blocks, and the next one with the target that it
asks for, up to the rounding of the compact form. -/
structure Retargets (log1p : ℚ -> ℚ) (gen : Generate) (limit : ℚ) (period next : Period) :
    Prop where
  scheduled : Scheduled log1p gen period
  lower : retargeted limit period * (1 - 1 / 2 ^ 15) ≤ next.target
  upper : next.target ≤ retargeted limit period

namespace Generate

variable {log1p : ℚ -> ℚ} {gen : Generate}

/-! ## One period -/

/-- The whole seconds between two blocks with the same target. -/
def step (gen : Generate) (target : ℚ) : Int :=
  ⌊max 1 (min (interval * retargetFactor gen.ultimateTarget target) gen.maxInterval)⌋

theorem nextBlockDelta_eq {nbits : Int} {hash : String} {timeDelta : ℚ} (steady : Steady gen)
    (run : gen.nextBlockDelta log1p nbits hash = .ok timeDelta) :
    nbitsToTarget nbits ≠ 0 ∧ timeDelta =
      max 1 (min (interval * retargetFactor gen.ultimateTarget (nbitsToTarget nbits))
        gen.maxInterval) := by
  unfold nextBlockDelta intervalVariance at run
  dsimp only at run
  split at run
  · cases run
  · next proper =>
      rw [steady.poisson] at run
      simp only [Bool.false_eq_true, if_false, bind, Except.bind, pure, Except.pure, mul_one] at run
      exact ⟨proper, (Except.ok.inj run).symm⟩

theorem time_of_onSchedule_step {nbits : Int} {header next : HeaderInfo} (steady : Steady gen)
    (started : header.height ≠ 0) (bits : intFromHex header.bits = .ok nbits)
    (late : 0 ≤ header.time) (scheduled : OnSchedule log1p gen header next) :
    nbitsToTarget nbits ≠ 0 ∧ next.time = header.time + gen.step (nbitsToTarget nbits) := by
  rcases scheduled with ⟨now, isFirstBlock, schedule, run, same⟩
  rcases mineTime_of_nextBlockTime steady.ongoing started run with
    ⟨nbits', timeDelta, bits', delta, mined⟩
  rw [bits] at bits'
  cases bits'
  rcases nextBlockDelta_eq steady delta with ⟨proper, whole⟩
  have nonneg : (0 : ℚ) ≤ header.time := by exact_mod_cast late
  have second : (1 : ℚ) ≤ timeDelta := by
    rw [whole]
    exact le_max_left _ _
  refine ⟨proper, ?_⟩
  rw [same, mined, truncate_of_nonneg (by linarith), Int.floor_intCast_add, step, ← whole]

theorem one_le_step (gen : Generate) (target : ℚ) : 1 ≤ gen.step target := by
  unfold step
  rw [Int.le_floor]
  exact_mod_cast le_max_left _ _

/-- All blocks of a run with one target are one step apart. -/
theorem time_lastHeader_step {nbits : Int} {start : HeaderInfo} {blocks : List HeaderInfo}
    (steady : Steady gen)
    (bits : forall header, header ∈ start :: blocks ->
      header.height ≠ 0 ∧ intFromHex header.bits = .ok nbits)
    (late : 0 ≤ start.time) (run : List.IsChain (OnSchedule log1p gen) (start :: blocks)) :
    (lastHeader start blocks).time =
      start.time + gen.step (nbitsToTarget nbits) * blocks.length := by
  induction blocks generalizing start with
  | nil =>
      change start.time = _
      rw [List.length_nil]
      simp
  | cons next blocks inductionHypothesis =>
      rw [List.isChain_cons_cons] at run
      have here := bits start List.mem_cons_self
      have first := (time_of_onSchedule_step steady here.1 here.2 late run.1).2
      have forward := one_le_step gen (nbitsToTarget nbits)
      have rest := inductionHypothesis
        (fun header member => bits header (List.mem_cons_of_mem start member)) (by omega) run.2
      have last : lastHeader start (next :: blocks) = lastHeader next blocks :=
        List.getLast_cons (List.cons_ne_nil _ _)
      rw [last, rest, first, List.length_cons]
      push_cast
      ring

theorem nbitsToTarget_nonneg (nbits : Int) : 0 ≤ nbitsToTarget nbits := by
  unfold nbitsToTarget
  have mantissa : (0 : ℚ) ≤ ((nbits % 2 ^ 24 : Int) : ℚ) := by
    exact_mod_cast Int.emod_nonneg nbits (by norm_num)
  exact mul_nonneg mantissa (zpow_nonneg (by norm_num) _)

/-- The timespan of a period is 2015 steps, and its target is positive. -/
theorem timespan_of_scheduled {period : Period} (steady : Steady gen)
    (scheduled : Scheduled log1p gen period) :
    period.timespan = gen.step period.target * 2015 ∧ 0 < period.target := by
  have last := time_lastHeader_step steady scheduled.bits scheduled.time scheduled.chain
  rw [scheduled.blocks] at last
  refine ⟨by rw [Period.timespan, last, Period.target]; push_cast; ring, ?_⟩
  cases shape : period.rest with
  | nil =>
      have blocks := scheduled.blocks
      rw [shape] at blocks
      cases blocks
  | cons next rest =>
      have chain := scheduled.chain
      rw [shape, List.isChain_cons_cons] at chain
      have here := scheduled.bits period.first List.mem_cons_self
      have proper := (time_of_onSchedule_step steady here.1 here.2 scheduled.time chain.1).1
      exact lt_of_le_of_ne (nbitsToTarget_nonneg period.nbits) (Ne.symm proper)

/-! ## What a period does to the target -/

/-- The target a period asks for, as a function of its target alone. -/
def asked (gen : Generate) (limit target : ℚ) : ℚ :=
  min (target * max 302400 (min ((gen.step target : ℚ) * 2015) 4838400) / 1209600) limit

theorem retargeted_eq {limit : ℚ} {period : Period} (steady : Steady gen)
    (scheduled : Scheduled log1p gen period) :
    retargeted limit period = gen.asked limit period.target := by
  rw [retargeted, asked, (timespan_of_scheduled steady scheduled).1]
  push_cast
  rfl

section Asked

variable {limit target : ℚ}

/-- The desired interval is the target the miner is after over the present one. -/
theorem step_bounds (steady : Steady gen) (positive : 0 < target)
    (high : target ≤ 4 * gen.ultimateTarget) (low : 2 * gen.ultimateTarget ≤ 3 * target) :
    (gen.step target : ℚ) * 2015 * target ≤ 1209600 * gen.ultimateTarget ∧
      1209600 * gen.ultimateTarget - 2015 * target ≤ gen.step target * 2015 * target := by
  have cap : (960 : ℚ) ≤ gen.maxInterval := by exact_mod_cast steady.uncapped
  have least : 1 / 4 ≤ gen.ultimateTarget / target := by
    rw [le_div_iff₀ positive]
    linarith
  have most : gen.ultimateTarget / target ≤ 3 / 2 := by
    rw [div_le_iff₀ positive]
    linarith
  have factor : retargetFactor gen.ultimateTarget target = gen.ultimateTarget / target := by
    rw [retargetFactor, min_eq_left (by linarith), max_eq_right least]
  have whole : gen.step target = ⌊interval * (gen.ultimateTarget / target)⌋ := by
    unfold step
    rw [factor, interval, min_eq_left (by linarith), max_eq_right (by linarith)]
  have below := Int.floor_le (interval * (gen.ultimateTarget / target))
  have above := Int.lt_floor_add_one (interval * (gen.ultimateTarget / target))
  have product : interval * (gen.ultimateTarget / target) * 2015 * target =
      1209600 * gen.ultimateTarget := by
    unfold interval
    field_simp
    ring
  rw [whole, ← product]
  constructor
  · gcongr
  · calc
      interval * (gen.ultimateTarget / target) * 2015 * target - 2015 * target =
          (interval * (gen.ultimateTarget / target) - 1) * 2015 * target := by ring
      _ ≤ ⌊interval * (gen.ultimateTarget / target)⌋ * 2015 * target := by
        gcongr
        linarith

/-- Above four times the target the miner is after, a period asks for a quarter. -/
theorem asked_of_far_above (steady : Steady gen) (proper : 0 < gen.ultimateTarget)
    (high : 4 * gen.ultimateTarget < target) :
    gen.asked limit target = min (target / 4) limit := by
  have cap : (960 : ℚ) ≤ gen.maxInterval := by exact_mod_cast steady.uncapped
  have factor : retargetFactor gen.ultimateTarget target = 1 / 4 := by
    have small : gen.ultimateTarget / target ≤ 1 / 4 := by
      rw [div_le_iff₀ (by linarith)]
      linarith
    rw [retargetFactor, min_eq_left (by linarith), max_eq_left small]
  have whole : gen.step target = 150 := by
    unfold step
    rw [factor, interval, min_eq_left (by linarith), max_eq_right (by norm_num)]
    norm_num
  rw [asked, whole]
  norm_num
  congr 1
  ring

/-- Otherwise it does not ask for more than the miner is after. -/
theorem asked_le (steady : Steady gen) (positive : 0 < target)
    (high : target ≤ 4 * gen.ultimateTarget) : gen.asked limit target ≤ gen.ultimateTarget := by
  have cap : (960 : ℚ) ≤ gen.maxInterval := by exact_mod_cast steady.uncapped
  have least : 1 / 4 ≤ gen.ultimateTarget / target := by
    rw [le_div_iff₀ positive]
    linarith
  have factor : retargetFactor gen.ultimateTarget target ≤ gen.ultimateTarget / target :=
    max_le least (min_le_left _ _)
  have whole : (gen.step target : ℚ) ≤ interval * (gen.ultimateTarget / target) := by
    refine le_trans (Int.floor_le _) (max_le ?_ (le_trans (min_le_left _ _) ?_))
    · unfold interval
      linarith
    · exact mul_le_mul_of_nonneg_left factor (by linarith [interval_bounds.1])
  have timespan : max 302400 (min ((gen.step target : ℚ) * 2015) 4838400) ≤
      1209600 * (gen.ultimateTarget / target) := by
    refine max_le (by linarith) (le_trans (min_le_left _ _) ?_)
    calc
      (gen.step target : ℚ) * 2015 ≤ interval * (gen.ultimateTarget / target) * 2015 := by
        gcongr
      _ = 1209600 * (gen.ultimateTarget / target) := by
        unfold interval
        ring
  refine le_trans (min_le_left _ _) ?_
  rw [div_le_iff₀ (by norm_num)]
  calc
    target * max 302400 (min ((gen.step target : ℚ) * 2015) 4838400) ≤
        target * (1209600 * (gen.ultimateTarget / target)) := by gcongr
    _ = gen.ultimateTarget * 1209600 := by
      field_simp

/-- Near the target the miner is after it misses that by less than a second in
each interval. -/
theorem le_asked_of_near (steady : Steady gen) (positive : 0 < target)
    (reachable : gen.ultimateTarget ≤ limit) (high : target ≤ 4 * gen.ultimateTarget)
    (low : 2 * gen.ultimateTarget ≤ 3 * target) :
    gen.ultimateTarget - target * 2015 / 1209600 ≤ gen.asked limit target := by
  have bounds := step_bounds steady positive high low
  have most : (gen.step target : ℚ) * 2015 ≤ 4838400 := by
    have small : (gen.step target : ℚ) * 2015 * target ≤ 4838400 * target := by linarith
    exact le_of_mul_le_mul_right small positive
  refine le_min ?_ (by linarith)
  rw [min_eq_left most, le_div_iff₀ (by norm_num)]
  calc
    (gen.ultimateTarget - target * 2015 / 1209600) * 1209600 =
        1209600 * gen.ultimateTarget - 2015 * target := by ring
    _ ≤ gen.step target * 2015 * target := bounds.2
    _ ≤ max 302400 ((gen.step target : ℚ) * 2015) * target :=
      mul_le_mul_of_nonneg_right (le_max_right _ _) positive.le
    _ = target * max 302400 ((gen.step target : ℚ) * 2015) := mul_comm _ _

/-- Far below it the period asks for nearly one and a half of its target. -/
theorem le_asked_of_far_below (steady : Steady gen) (positive : 0 < target)
    (reachable : gen.ultimateTarget ≤ limit) (low : 3 * target < 2 * gen.ultimateTarget) :
    target * 1813500 / 1209600 ≤ gen.asked limit target := by
  have cap : (960 : ℚ) ≤ gen.maxInterval := by exact_mod_cast steady.uncapped
  have factor : 3 / 2 ≤ retargetFactor gen.ultimateTarget target := by
    refine le_max_of_le_right (le_min ?_ (by norm_num))
    rw [le_div_iff₀ positive]
    linarith
  have whole : 900 ≤ gen.step target := by
    unfold step
    rw [Int.le_floor]
    refine le_max_of_le_right (le_min ?_ (by push_cast; linarith))
    unfold interval
    push_cast
    linarith
  have seconds : (900 : ℚ) ≤ gen.step target := by exact_mod_cast whole
  have timespan : (1813500 : ℚ) ≤ max 302400 (min ((gen.step target : ℚ) * 2015) 4838400) :=
    le_max_of_le_right (le_min (by linarith) (by norm_num))
  refine le_min ?_ (by linarith)
  gcongr

end Asked

/-! ## Settling -/

/-- How far the target may be from the one the miner is after: in the band that
it does not leave, below it by a hundredth at most, or off by a power. -/
def near (gen : Generate) : Nat -> ℚ -> Prop
  | 0, target => 499 / 500 * gen.ultimateTarget ≤ target ∧ target ≤ gen.ultimateTarget
  | 1, target => 99 / 100 * gen.ultimateTarget ≤ target ∧ target ≤ gen.ultimateTarget
  | periods + 2, target => target ≤ 4 * gen.ultimateTarget * 4 ^ periods ∧
      gen.ultimateTarget ≤ 3 / 2 * target * (4 / 3) ^ periods

variable {limit : ℚ}

/-- Behind a period that the miner can correct the target is the desired one,
less a second in each interval and what the compact form drops. -/
theorem corrected_of_retargets {period next : Period} (steady : Steady gen)
    (reachable : gen.ultimateTarget ≤ limit)
    (follows : Retargets log1p gen limit period next)
    (low : 2 * gen.ultimateTarget ≤ 3 * period.target)
    (high : period.target ≤ 4 * gen.ultimateTarget) :
    (gen.ultimateTarget - period.target * 2015 / 1209600) * (1 - 1 / 2 ^ 15) ≤ next.target ∧
      next.target ≤ gen.ultimateTarget := by
  have positive := (timespan_of_scheduled steady follows.scheduled).2
  have least := le_asked_of_near steady positive reachable high low
  have most := @asked_le gen limit period.target steady positive high
  have lower := follows.lower
  have upper := follows.upper
  rw [retargeted_eq steady follows.scheduled] at lower upper
  exact ⟨by linarith, upper.trans most⟩

theorem near_zero_of_retargets {period next : Period} (steady : Steady gen)
    (proper : 0 < gen.ultimateTarget) (reachable : gen.ultimateTarget ≤ limit)
    (follows : Retargets log1p gen limit period next)
    (low : 99 / 100 * gen.ultimateTarget ≤ period.target)
    (high : period.target ≤ gen.ultimateTarget) : gen.near 0 next.target := by
  have corrected := corrected_of_retargets steady reachable follows (by linarith) (by linarith)
  exact ⟨by linarith [corrected.1], corrected.2⟩

/-- From a power off the next period is one power less off. -/
theorem near_of_retargets_succ {periods : Nat} {period next : Period} (steady : Steady gen)
    (proper : 0 < gen.ultimateTarget) (reachable : gen.ultimateTarget ≤ limit)
    (follows : Retargets log1p gen limit period next)
    (off : gen.near (periods + 3) period.target) : gen.near (periods + 2) next.target := by
  have positive := (timespan_of_scheduled steady follows.scheduled).2
  have lower := follows.lower
  have upper := follows.upper
  rw [retargeted_eq steady follows.scheduled] at lower upper
  have four : (1 : ℚ) ≤ 4 ^ periods := one_le_pow₀ (by norm_num)
  have third : (1 : ℚ) ≤ (4 / 3) ^ periods := one_le_pow₀ (by norm_num)
  rcases off with ⟨high, low⟩
  rw [pow_succ] at high low
  by_cases above : 4 * gen.ultimateTarget < period.target
  · rw [asked_of_far_above steady proper above] at lower upper
    have quarter := min_le_left (period.target / 4) limit
    have least : gen.ultimateTarget ≤ min (period.target / 4) limit :=
      le_min (by linarith) reachable
    refine ⟨by linarith, ?_⟩
    nlinarith
  · have most := @asked_le gen limit period.target steady positive (not_lt.mp above)
    refine ⟨by nlinarith, ?_⟩
    by_cases below : 3 * period.target < 2 * gen.ultimateTarget
    · have least := le_asked_of_far_below steady positive reachable below
      have grown : 4 / 3 * period.target ≤ next.target := by linarith
      calc
        gen.ultimateTarget ≤ 3 / 2 * period.target * ((4 / 3) ^ periods * (4 / 3)) := low
        _ = 3 / 2 * (4 / 3 * period.target) * (4 / 3) ^ periods := by ring
        _ ≤ 3 / 2 * next.target * (4 / 3) ^ periods := by gcongr
    · have enough := (corrected_of_retargets steady reachable follows (not_lt.mp below)
        (not_lt.mp above)).1
      nlinarith

/-- Behind a number of periods that the distance of the first target gives, all
targets are the one the miner is after, less one five-hundredth at most. -/
theorem settled_of_periods {periods : Nat} {first : Period} {rest : List Period}
    (steady : Steady gen) (proper : 0 < gen.ultimateTarget)
    (reachable : gen.ultimateTarget ≤ limit)
    (high : first.target ≤ 4 * gen.ultimateTarget * 4 ^ periods)
    (low : gen.ultimateTarget ≤ 3 / 2 * first.target * (4 / 3) ^ periods)
    (run : List.IsChain (Retargets log1p gen limit) (first :: rest)) :
    forall period, period ∈ (first :: rest).drop (periods + 2) ->
      499 / 500 * gen.ultimateTarget ≤ period.target ∧ period.target ≤ gen.ultimateTarget := by
  apply @settles Period (Retargets log1p gen limit) (fun number period =>
    gen.near number period.target) _ _ (periods + 2) first rest ⟨high, low⟩ run
  · intro period next follows inside
    exact near_zero_of_retargets steady proper reachable follows (by linarith [inside.1]) inside.2
  · intro number period next follows inside
    cases number with
    | zero => exact near_zero_of_retargets steady proper reachable follows inside.1 inside.2
    | succ number =>
        cases number with
        | zero =>
            have high := inside.1
            have low := inside.2
            rw [pow_zero, mul_one] at high low
            have corrected := corrected_of_retargets steady reachable follows (by linarith) high
            exact ⟨by linarith [corrected.1], corrected.2⟩
        | succ number => exact near_of_retargets_succ steady proper reachable follows inside

/-! ## Three periods -/

/-- The header that many blocks behind one with the same bits. -/
def periodHeader (bits : List Char) (count : Nat) : HeaderInfo where
  hash := String.ofList (List.replicate 64 '0')
  height := 2016 + count
  bits := String.ofList bits
  time := 1700000000 + 600 * count

/-- A period of blocks that are ten minutes apart. -/
def tenMinutePeriod (nbits : Int) (bits : List Char) : Period where
  nbits := nbits
  first := periodHeader bits 0
  rest := (List.range' 1 2015).map (periodHeader bits)

section TenMinutes

variable {nbits : Int} {bits : List Char}

theorem onSchedule_periodHeader (parsed : intFromHex (String.ofList bits) = .ok nbits)
    (proper : nbitsToTarget nbits ≠ 0) (whole : steadyMiner.step (nbitsToTarget nbits) = 600)
    (count : Nat) :
    OnSchedule log1p steadyMiner (periodHeader bits count) (periodHeader bits (count + 1)) := by
  have digits : IsHash (periodHeader bits count).hash := by
    unfold IsHash periodHeader
    rw [String.toList_ofList]
    refine ⟨List.length_replicate, fun char member => ?_⟩
    rw [(List.mem_replicate.mp member).2]
    rfl
  rcases turn_of_hash digits (le_refl 1) with ⟨turn, -, -, isMine⟩
  have delta : Exists fun timeDelta =>
      steadyMiner.nextBlockDelta log1p nbits (periodHeader bits count).hash = .ok timeDelta := by
    unfold nextBlockDelta intervalVariance
    dsimp only
    rw [if_neg proper]
    exact ⟨_, rfl⟩
  rcases delta with ⟨timeDelta, delta⟩
  have same := (nextBlockDelta_eq steady_steadyMiner delta).2
  have floor : ⌊timeDelta⌋ = 600 := by
    rw [same]
    exact whole
  have forward : (1 : ℚ) ≤ timeDelta := by
    rw [same]
    exact le_max_left _ _
  have started : (periodHeader bits count).height ≠ 0 := by
    change (2016 + count : Int) ≠ 0
    omega
  have nonneg : (0 : ℚ) ≤ (periodHeader bits count).time := by
    have late : (0 : Int) ≤ (periodHeader bits count).time := by
      change (0 : Int) ≤ 1700000000 + 600 * count
      omega
    exact_mod_cast late
  have schedule := @nextBlockTime_turn (steadyMiner.nextBlockDelta log1p) steadyMiner 0
    (periodHeader bits count) nbits timeDelta _ rfl started rfl (le_refl _) parsed delta
    (by linarith) (isMine steadyMiner rfl)
  refine ⟨0, false, _, schedule, ?_⟩
  dsimp only
  rw [Int.floor_intCast_add, floor]
  change (1700000000 + 600 * ((count + 1 : Nat) : Int)) = 1700000000 + 600 * (count : Int) + 600
  push_cast
  ring

theorem chain_periodHeader (parsed : intFromHex (String.ofList bits) = .ok nbits)
    (proper : nbitsToTarget nbits ≠ 0) (whole : steadyMiner.step (nbitsToTarget nbits) = 600)
    (first count : Nat) : List.IsChain (OnSchedule log1p steadyMiner)
      (periodHeader bits first :: (List.range' (first + 1) count).map (periodHeader bits)) := by
  induction count generalizing first with
  | zero => exact List.isChain_singleton _
  | succ count inductionHypothesis =>
      rw [List.range'_succ, List.map_cons, List.isChain_cons_cons]
      exact ⟨onSchedule_periodHeader parsed proper whole first, inductionHypothesis (first + 1)⟩

theorem bits_periodHeader (parsed : intFromHex (String.ofList bits) = .ok nbits)
    {counts : List Nat} {header : HeaderInfo}
    (member : header ∈ periodHeader bits 0 :: counts.map (periodHeader bits)) :
    header.height ≠ 0 ∧ intFromHex header.bits = .ok nbits := by
  rw [← List.map_cons] at member
  rcases List.mem_map.mp member with ⟨count, -, same⟩
  rw [← same]
  refine ⟨?_, parsed⟩
  change (2016 + count : Int) ≠ 0
  omega

theorem scheduled_tenMinutePeriod (parsed : intFromHex (String.ofList bits) = .ok nbits)
    (proper : nbitsToTarget nbits ≠ 0) (whole : steadyMiner.step (nbitsToTarget nbits) = 600) :
    Scheduled log1p steadyMiner (tenMinutePeriod nbits bits) where
  blocks := by rw [tenMinutePeriod, List.length_map, List.length_range']
  bits := fun _ member => bits_periodHeader parsed member
  time := by
    change (0 : Int) ≤ 1700000000 + 600 * (0 : Nat)
    norm_num
  chain := chain_periodHeader parsed proper whole 0 2015

end TenMinutes

theorem nbitsToTarget_sample (mantissa : Int) (nonneg : 0 ≤ mantissa)
    (small : mantissa < 2 ^ 24) :
    nbitsToTarget (0x1e * 2 ^ 24 + mantissa) = mantissa * 2 ^ 216 := by
  have exponent : (0x1e * 2 ^ 24 + mantissa) / 2 ^ 24 = 0x1e := by omega
  have rest : (0x1e * 2 ^ 24 + mantissa) % 2 ^ 24 = mantissa := by omega
  rw [nbitsToTarget, exponent, rest]
  norm_num

theorem step_sample {mantissa : Int} (high : mantissa ≤ 227246) (low : 227000 ≤ mantissa) :
    steadyMiner.step (nbitsToTarget (0x1e * 2 ^ 24 + mantissa)) = 600 := by
  have above : (mantissa : ℚ) ≤ 227246 := by exact_mod_cast high
  have below : (227000 : ℚ) ≤ mantissa := by exact_mod_cast low
  have positive : (0 : ℚ) < mantissa := by linarith
  have ultimate : steadyMiner.ultimateTarget = 227246 * 2 ^ 216 :=
    nbitsToTarget_sample 227246 (by norm_num) (by norm_num)
  have least : (1 : ℚ) ≤ 227246 / mantissa := by
    rw [le_div_iff₀ positive]
    linarith
  have most : (227246 : ℚ) / mantissa ≤ 227246 / 227000 := by
    gcongr
  have quotient : (227246 * 2 ^ 216 : ℚ) / (mantissa * 2 ^ 216) = 227246 / mantissa := by
    field_simp
  have factor : retargetFactor steadyMiner.ultimateTarget
      (nbitsToTarget (0x1e * 2 ^ 24 + mantissa)) = 227246 / mantissa := by
    rw [ultimate, nbitsToTarget_sample mantissa (by omega) (by omega), retargetFactor, quotient,
      min_eq_left (by linarith), max_eq_right (by linarith)]
  have cap : ((steadyMiner.maxInterval : Int) : ℚ) = 1800 := by
    change ((1800 : Int) : ℚ) = 1800
    norm_num
  unfold step
  rw [factor, cap, interval, min_eq_left (by linarith), max_eq_right (by linarith), Int.floor_eq_iff]
  constructor
  · push_cast
    linarith
  · push_cast
    linarith

theorem retargets_sample {mantissa later : Int} {bits laterBits : List Char}
    (parsed : intFromHex (String.ofList bits) = .ok (0x1e * 2 ^ 24 + mantissa))
    (high : mantissa ≤ 227246) (low : 227000 ≤ mantissa)
    (upper : later * 2016 ≤ mantissa * 2015)
    (lower : mantissa * 2015 * (2 ^ 15 - 1) ≤ later * 2016 * 2 ^ 15) :
    Retargets log1p steadyMiner steadyMiner.ultimateTarget
      (tenMinutePeriod (0x1e * 2 ^ 24 + mantissa) bits)
      (tenMinutePeriod (0x1e * 2 ^ 24 + later) laterBits) := by
  have above : (mantissa : ℚ) ≤ 227246 := by exact_mod_cast high
  have below : (227000 : ℚ) ≤ mantissa := by exact_mod_cast low
  have target := nbitsToTarget_sample mantissa (by omega) (by omega)
  have laterTarget := nbitsToTarget_sample later (by omega) (by omega)
  have ultimate : steadyMiner.ultimateTarget = 227246 * 2 ^ 216 :=
    nbitsToTarget_sample 227246 (by norm_num) (by norm_num)
  have whole := step_sample high low
  have proper : nbitsToTarget (0x1e * 2 ^ 24 + mantissa) ≠ 0 := by
    rw [target]
    have positive : (0 : ℚ) < mantissa := by linarith
    positivity
  have scheduled := @scheduled_tenMinutePeriod log1p _ _ parsed proper whole
  have result : retargeted steadyMiner.ultimateTarget
      (tenMinutePeriod (0x1e * 2 ^ 24 + mantissa) bits) = mantissa * 2015 / 2016 * 2 ^ 216 := by
    have given : (tenMinutePeriod (0x1e * 2 ^ 24 + mantissa) bits).target =
        mantissa * 2 ^ 216 := by
      rw [Period.target, tenMinutePeriod, target]
    have step : steadyMiner.step (mantissa * 2 ^ 216) = 600 := by
      rw [← target]
      exact whole
    have bounds : (mantissa : ℚ) * 2 ^ 216 * 1209000 / 1209600 ≤ 227246 * 2 ^ 216 := by
      linarith
    rw [retargeted_eq steady_steadyMiner scheduled, given, asked, step, ultimate]
    norm_num
    rw [min_eq_left (by linarith)]
    ring
  have upper' : (later : ℚ) * 2016 ≤ mantissa * 2015 := by exact_mod_cast upper
  have lower' : (mantissa : ℚ) * 2015 * (2 ^ 15 - 1) ≤ later * 2016 * 2 ^ 15 := by
    exact_mod_cast lower
  refine ⟨scheduled, ?_, ?_⟩
  · change _ ≤ nbitsToTarget (0x1e * 2 ^ 24 + later)
    rw [result, laterTarget]
    linarith
  · change nbitsToTarget (0x1e * 2 ^ 24 + later) ≤ _
    rw [result, laterTarget]
    linarith

/-- Three periods of a chain that starts at the target the miner is after. -/
def threePeriods : Period × List Period :=
  (tenMinutePeriod 0x1e0377ae ['1', 'e', '0', '3', '7', '7', 'a', 'e'],
    [tenMinutePeriod 0x1e03773d ['1', 'e', '0', '3', '7', '7', '3', 'd'],
      tenMinutePeriod 0x1e0376cc ['1', 'e', '0', '3', '7', '6', 'c', 'c']])

theorem settled_of_periods_sample :
    499 / 500 * steadyMiner.ultimateTarget ≤
        (tenMinutePeriod 0x1e0376cc ['1', 'e', '0', '3', '7', '6', 'c', 'c']).target ∧
      (tenMinutePeriod 0x1e0376cc ['1', 'e', '0', '3', '7', '6', 'c', 'c']).target ≤
        steadyMiner.ultimateTarget := by
  have ultimate : steadyMiner.ultimateTarget = 227246 * 2 ^ 216 :=
    nbitsToTarget_sample 227246 (by norm_num) (by norm_num)
  have first : threePeriods.1.target = 227246 * 2 ^ 216 := ultimate
  have run : List.IsChain (Retargets (fun value => value) steadyMiner steadyMiner.ultimateTarget)
      (threePeriods.1 :: threePeriods.2) := by
    unfold threePeriods
    rw [List.isChain_cons_cons, List.isChain_cons_cons]
    refine ⟨?_, ?_, List.isChain_singleton _⟩
    · exact @retargets_sample _ 227246 227133 _ _ (by decide +kernel) (by norm_num)
        (by norm_num) (by norm_num) (by norm_num)
    · exact @retargets_sample _ 227133 227020 _ _ (by decide +kernel) (by norm_num)
        (by norm_num) (by norm_num) (by norm_num)
  exact @settled_of_periods _ _ _ 0 _ _ steady_steadyMiner (by rw [ultimate]; norm_num)
    (le_refl _) (by rw [first, ultimate]; norm_num) (by rw [first, ultimate]; norm_num) run _
    (List.mem_singleton_self _)

end Generate

end Miner
end MutinyNet
