import Mathlib

namespace MutinyNet
namespace Mine

/-!
# How often the wallet is consolidated

Every turn of the loop of `mine.sh` ends with a look at the block count: where
it is a multiple of the interval, the wallet is swept into the mining address.
The turn does not know what became of the miner, and nothing remembers the last
sweep, so a run sweeps once for each turn that ends at such a count.

Between two turns the chain may move anywhere.  A script that is killed inside a
turn has started the same sweeps as one whose last call in front of the sweep
fails, or as one that is killed behind the turn.
-/

/-- What becomes of the miner. -/
inductive MinerOutcome where
  | mined
  | rejected
  | failed
  deriving DecidableEq, Repr

/-- The variables `mine.sh` reads in its loop. -/
structure Environment where
  mineTo : String := ""
  blockProductionDelay : Int := 0
  consolidateInterval : Int := 10
  deriving DecidableEq, Repr

/-- What happens outside in one turn: the block count it finds, the files that
are there, and what becomes of each call. -/
structure Turn where
  tip : Nat
  mineAddressExists : Bool := true
  catMineAddress : Option String
  getnewaddress : Option String := none
  delayExists : Bool := false
  catDelay : Option String := none
  sleep : String -> Bool
  miner : String -> MinerOutcome
  getblockcount : Bool := true

/-- The block count of the chain, and the counts at which `consolidate_utxos.sh`
was started. -/
structure Chain where
  height : Nat
  started : List Nat := []
  deriving DecidableEq, Repr

variable (environment : Environment)

/-! ## The loop -/

/-- The `ADDR` of a turn, if there is one. -/
def mineAddress (turn : Turn) : Option String :=
  if turn.mineAddressExists then turn.catMineAddress
  else if environment.mineTo = "" then turn.getnewaddress
  else some environment.mineTo

/-- The wait in front of the miner; the file overrides the variable. -/
def delayed (turn : Turn) : Bool :=
  if turn.delayExists then
    match turn.catDelay with
    | none => false
    | some seconds => turn.sleep seconds
  else if 0 < environment.blockProductionDelay then
    turn.sleep (toString environment.blockProductionDelay)
  else true

/-- The chain behind the miner, whose status nobody looks at. -/
def runMiner (chain : Chain) : MinerOutcome -> Chain
  | .mined => { chain with height := chain.height + 1 }
  | .rejected => chain
  | .failed => chain

/-- The test for a consolidation. -/
def isDue (blockCount : Nat) : Bool :=
  decide (0 < environment.consolidateInterval) &&
    decide ((blockCount : Int) % environment.consolidateInterval = 0)

/-- The end of a turn; a sweep that fails is only warned about. -/
def consolidate (chain : Chain) : Chain :=
  if isDue environment chain.height then
    { chain with started := chain.started ++ [chain.height] }
  else chain

/-- One turn, and whether the script goes on behind it. -/
def mineTurn (turn : Turn) (chain : Chain) : Chain × Bool :=
  match mineAddress environment turn with
  | none => (chain, false)
  | some address =>
      if delayed environment turn then
        let chain := runMiner chain (turn.miner address)
        if turn.getblockcount then (consolidate environment chain, true) else (chain, false)
      else (chain, false)

/-- The loop of `mine.sh`. -/
def mineLoop : Chain -> List Turn -> Chain
  | chain, [] => chain
  | chain, turn :: turns =>
      let (chain, goesOn) := mineTurn environment turn { chain with height := turn.tip }
      if goesOn then mineLoop chain turns else chain

/-! ## The block counts of the turns -/

/-- The block count a turn ends at: one more than it found where a block was
mined. -/
def Turn.countAt (turn : Turn) (address : String) : Nat :=
  match turn.miner address with
  | .mined => turn.tip + 1
  | .rejected => turn.tip
  | .failed => turn.tip

/-- The block counts at which the turns end, up to the first one in which a call
fails under `errexit`. -/
def blockCounts : List Turn -> List Nat
  | [] => []
  | turn :: turns =>
      match mineAddress environment turn with
      | none => []
      | some address =>
          if delayed environment turn ∧ turn.getblockcount then
            turn.countAt address :: blockCounts turns
          else []

variable {environment}

theorem runMiner_eq (turn : Turn) (address : String) (started : List Nat) :
    runMiner { height := turn.tip, started } (turn.miner address) =
      { height := turn.countAt address, started } := by
  unfold Turn.countAt
  cases turn.miner address <;> rfl

theorem isDue_iff (blockCount : Nat) :
    isDue environment blockCount = true <->
      0 < environment.consolidateInterval ∧ environment.consolidateInterval ∣ blockCount := by
  rw [isDue, Bool.and_eq_true, decide_eq_true_eq, decide_eq_true_eq, Int.dvd_iff_emod_eq_zero]

theorem started_consolidate (chain : Chain) :
    (consolidate environment chain).started =
      chain.started ++ [chain.height].filter (isDue environment) := by
  unfold consolidate
  cases due : isDue environment chain.height with
  | true =>
      rw [if_pos rfl, List.filter_cons_of_pos due]
      rfl
  | false =>
      rw [if_neg (by decide), List.filter_cons_of_neg (by rw [due]; decide)]
      simp only [List.filter_nil, List.append_nil]

theorem mineTurn_eq (turn : Turn) (started : List Nat) :
    mineTurn environment turn { height := turn.tip, started } =
      match mineAddress environment turn with
      | none => ({ height := turn.tip, started }, false)
      | some address =>
          if delayed environment turn then
            if turn.getblockcount then
              (consolidate environment { height := turn.countAt address, started }, true)
            else ({ height := turn.countAt address, started }, false)
          else ({ height := turn.tip, started }, false) := by
  unfold mineTurn
  cases mineAddress environment turn with
  | none => rfl
  | some address => simp only [runMiner_eq]

/-- The sweeps of a run: one for each turn that ends at a multiple of the
interval. -/
theorem started_mineLoop (chain : Chain) (turns : List Turn) :
    (mineLoop environment chain turns).started =
      chain.started ++ (blockCounts environment turns).filter (isDue environment) := by
  induction turns generalizing chain with
  | nil => rw [mineLoop, blockCounts, List.filter_nil, List.append_nil]
  | cons turn turns inductionHypothesis =>
      have stays : chain.started = chain.started ++ [].filter (isDue environment) := by
        rw [List.filter_nil, List.append_nil]
      rw [mineLoop, mineTurn_eq, blockCounts]
      cases mineAddress environment turn with
      | none => exact stays
      | some address =>
          cases delayed environment turn with
          | false => exact stays
          | true =>
              cases turn.getblockcount with
              | false => exact stays
              | true =>
                  have later := inductionHypothesis
                    (consolidate environment
                      { height := turn.countAt address, started := chain.started })
                  rw [started_consolidate, List.append_assoc, ← List.filter_append,
                    List.singleton_append] at later
                  exact later

/-- The wallet is consolidated at most once at every height exactly where no
multiple of the interval is the block count at the end of two turns. -/
theorem consolidated_once_iff (height : Nat) (turns : List Turn) :
    (forall h, (mineLoop environment { height } turns).started.count h ≤ 1) <->
      ((blockCounts environment turns).filter fun blockCount : Nat =>
        0 < environment.consolidateInterval ∧
          environment.consolidateInterval ∣ (blockCount : Int)).Nodup := by
  rw [← List.nodup_iff_count_le_one, started_mineLoop, List.nil_append]
  have same : forall blockCount, isDue environment blockCount =
      decide (0 < environment.consolidateInterval ∧
        environment.consolidateInterval ∣ (blockCount : Int)) := by
    intro blockCount
    rw [Bool.eq_iff_iff, isDue_iff, decide_eq_true_eq]
  rw [List.filter_congr fun blockCount _ => same blockCount]

/-- Nothing is repeated where every turn ends above the one before: the miner
succeeded, or others did, and the chain never went back. -/
theorem consolidated_once_of_rising {height : Nat} {turns : List Turn}
    (rising : (blockCounts environment turns).Pairwise (· < ·)) (h : Nat) :
    (mineLoop environment { height } turns).started.count h ≤ 1 := by
  have different : (blockCounts environment turns).Nodup := rising.imp fun less => less.ne
  have once : (mineLoop environment { height } turns).started.Nodup := by
    rw [started_mineLoop, List.nil_append]
    exact different.filter _
  exact List.nodup_iff_count_le_one.mp once h

/-- A turn in which the miner fails at block count ten. -/
def failingTurn : Turn where
  tip := 10
  catMineAddress := some "tb1q"
  sleep := fun _ => true
  miner := fun _ => .failed

/-- Two turns with a failing miner sweep the wallet twice at the same count. -/
theorem consolidated_twice :
    ¬ forall h, (mineLoop { consolidateInterval := 10 } { height := 10 }
      [failingTurn, failingTurn]).started.count h ≤ 1 := by
  intro once
  exact absurd (once 10) (by decide)

end Mine
end MutinyNet
