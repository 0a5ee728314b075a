import MutinyNet.Miner.Double
import MutinyNet.Miner.RunSafety

namespace MutinyNet
namespace Miner

open Codec Python Messages Transition

/-!
# Miners that take turns

Several miners share a chain by their `--multiminer` ranges.  A hash selects a
turn, and if the ranges partition the turns, exactly one miner owns it.  All
miners compute the same due time, a floating point number.  The owner acts in the
second that it falls in, and the others a backup delay later, unless the sum of the
due time and the delay rounds up to the next second.
-/

/-- The hash of a header: 64 hexadecimal digits. -/
def IsHash (hash : String) : Prop :=
  hash.toList.length = 64 ∧ forall char, char ∈ hash.toList -> isHexDigit char = true

/-- Slices of a hash are numbers that their digits have room for. -/
theorem intFromHex_sliceFromEnd {hash : String} (digits : IsHash hash) {first last : Nat}
    (within : first ≤ 64) (nonempty : last < first) :
    Exists fun value : Nat => intFromHex (sliceFromEnd hash first last) = .ok value ∧
      value < 16 ^ (first - last) := by
  have slice : (sliceFromEnd hash first last).toList =
      (hash.toList.drop (64 - first)).take ((64 - last) - (64 - first)) := by
    simp only [sliceFromEnd, digits.1, String.toList_ofList]
  have size : (sliceFromEnd hash first last).toList.length = first - last := by
    rw [slice, List.length_take, List.length_drop, digits.1]
    omega
  rw [← size]
  refine intFromHex_of_digits ?_ fun char member => ?_
  · intro empty
    rw [empty, List.length_nil] at size
    omega
  · rw [slice] at member
    exact digits.2 char (List.mem_of_mem_drop (List.mem_of_mem_take member))

namespace Generate

variable {self other : Generate}

/-- The turn that a hash selects out of a number of turns. -/
theorem turn_of_hash {hash : String} (digits : IsHash hash) {total : Int} (positive : 1 ≤ total) :
    Exists fun turn : Int => 0 ≤ turn ∧ turn < total ∧
      forall gen : Generate, gen.multiPeriod = total ->
        gen.nextBlockIsMine hash = .ok (decide (gen.multiLow ≤ turn ∧ turn < gen.multiHigh)) := by
  rcases intFromHex_sliceFromEnd digits (show 16 ≤ 64 by decide) (show 8 < 16 by decide)
    with ⟨detRand, parsed, -⟩
  refine ⟨(detRand : Int).fmod total, Int.fmod_nonneg_of_pos _ (by omega),
    Int.fmod_lt_of_pos _ (by omega), fun gen period => ?_⟩
  unfold nextBlockIsMine
  rw [parsed, period]
  simp only [bind, Except.bind]
  rw [if_neg (by omega)]
  rfl

end Generate

/-! ## A family of miners -/

/-- Sessions of the same settings whose `--multiminer` ranges partition the
turns, mining on without a standby delay.  The logarithm of the smallest number that
a hash may select is about -22.2, so -32 bounds all of them. -/
structure Family (M : Type) where
  hash256 : Hash256
  base64 : Base64
  log1p : ℚ -> ℚ
  bounded : forall count : Nat, count < 2 ^ 32 ->
    -32 ≤ log1p (-((count : ℚ) * Floating.powTwo (-32)))
  nbits : Option String
  ultimate : Int
  parsed : parseNbits nbits = .ok ultimate
  args : M -> GenerateArgs
  clock : M -> ℚ
  session : M -> Session
  reward : M -> RewardState
  started : forall miner, startSession hash256 base64
    (fun gen lastNbits lastHash =>
      (Double.nextBlockDelta log1p (Double.nbitsToTarget ultimate) gen.poisson gen.maxInterval
        lastNbits lastHash).map Number.value)
    (args miner) (clock miner) = .ok (.passed (session miner, reward miner))
  poisson : Bool
  maxInterval : Int
  backupDelay : Int
  sameNbits : forall miner, chosenNbits (args miner) = nbits
  samePoisson : forall miner, (args miner).poisson = poisson
  sameMaxInterval : forall miner, (args miner).maxInterval = maxInterval
  sameBackupDelay : forall miner, (args miner).backupDelay = backupDelay
  backup : 0 ≤ backupDelay
  ongoing : forall miner, (args miner).ongoing = true ∧ (args miner).setBlockTime = none
  immediate : forall miner, (args miner).standbyDelay = 0
  total : Int
  positive : 1 ≤ total
  first : M -> Int
  last : M -> Int
  ranged : forall miner, Exists fun text => Exists fun groups =>
    (args miner).multiminer = some text ∧ matchMultiminer text = some groups ∧
      multiminerRange groups = .ok (first miner, last miner, total)
  partition : forall turn, 1 ≤ turn -> turn ≤ total ->
    ExistsUnique fun miner => first miner ≤ turn ∧ turn ≤ last miner

namespace Family

variable {M : Type} (family : Family M)

/-- `next_block_time` of a miner. -/
def schedule (miner : M) : Scheduler :=
  Double.nextBlockTime
    (Double.nextBlockDelta family.log1p (Double.nbitsToTarget family.ultimate)
      (family.session miner).gen.poisson (family.session miner).gen.maxInterval)
    (family.session miner).gen

/-- The states the miners start in. -/
def start (miner : M) : Option LoopState :=
  (family.session miner).start (family.reward miner)

def iterate (miner : M) : LoopState -> Answers -> Option Submission × Except Stop LoopState :=
  (family.session miner).iterateWith (family.schedule miner)

def next (miner : M) : LoopState -> Answers -> Option LoopState :=
  (family.session miner).nextStateWith (family.schedule miner)

/-- The interval that all miners compute. -/
def interval (lastNbits : Int) (lastHash : String) : Except PyError Number :=
  Double.nextBlockDelta family.log1p (Double.nbitsToTarget family.ultimate) family.poisson
    family.maxInterval lastNbits lastHash

/-- When the block behind a header is due. -/
def due (header : HeaderInfo) : Except PyError Number := do
  let nbits ← intFromHex header.bits
  let timeDelta ← family.interval nbits header.hash
  (Number.int header.time).add timeDelta

/-- The miners take turns on a tip, and `owner` is first: all of them plan the block
for the second it is due in, the owner acts then, and every other one a backup delay
later.  However their loops interleave, none of the others submits on this tip
earlier, unless it is its first block. -/
structure TakesTurns (header : HeaderInfo) (owner : M) : Prop where
  acts : Exists fun due => family.due header = .ok due ∧
    forall miner now, Exists fun schedule =>
      family.schedule miner now header false = .ok schedule ∧
        schedule.mineTime = ⌊due.value⌋ ∧
        (miner = owner -> schedule.actionTime = ⌊due.value⌋ ∧ schedule.isMine = true) ∧
        (miner ≠ owner ->
          schedule.actionTime = ⌊due.value⌋ + family.backupDelay ∧ schedule.isMine = false)
  waits : forall due, family.due header = .ok due ->
    forall [DecidableEq M] events miner state answers submission,
      (miner, state, answers) ∈ interleaved family.next family.start events ->
      (family.iterate miner state answers).1 = some submission ->
      submission.attempt.header = header -> state.minedBlocks ≠ 0 -> miner ≠ owner ->
        ((⌊due.value⌋ + family.backupDelay : Int) : ℚ) ≤ answers.now

theorem ready (miner : M) : Exists fun blocks =>
    ReadyOf (family.args miner) (family.clock miner) (family.session miner).gen blocks := by
  rcases bind_eq_ok.mp (family.started miner) with ⟨checked, setup, rest⟩
  cases checked with
  | refused message => cases rest
  | passed value =>
      have same := (Prod.mk.inj (Check.passed.inj (Except.ok.inj rest))).1
      rw [← same]
      exact ⟨value.2, readyOf_setupGenerate setup⟩

/-- The settings of a miner are those of the family. -/
theorem settings (miner : M) :
    (family.session miner).gen.poisson = family.poisson ∧
      (family.session miner).gen.maxInterval = family.maxInterval ∧
      (family.session miner).gen.backupDelay = family.backupDelay ∧
      (family.session miner).gen.setBlockTime = none ∧
      (family.session miner).gen.standbyDelay = 0 := by
  rcases family.ready miner with ⟨blocks, ready⟩
  refine ⟨?_, ?_, ?_, ?_, ?_⟩
  · rw [ready.poisson, family.samePoisson]
  · rw [ready.maxInterval.2, family.sameMaxInterval]
  · rw [ready.backupDelay, family.sameBackupDelay]
  · rw [ready.setBlockTime, setBlockTime, (family.ongoing miner).2, Option.map_none]
  · rw [ready.standbyDelay, family.immediate]

/-- All miners compute the same interval. -/
theorem schedule_eq (miner : M) :
    family.schedule miner = Double.nextBlockTime family.interval (family.session miner).gen := by
  unfold schedule
  rw [(family.settings miner).1, (family.settings miner).2.1]
  rfl

/-- The half-open range of a miner is its inclusive range, counted from zero. -/
theorem range_spec (miner : M) :
    (family.session miner).gen.multiLow = family.first miner - 1 ∧
      (family.session miner).gen.multiHigh = family.last miner ∧
      (family.session miner).gen.multiPeriod = family.total := by
  rcases family.ready miner with ⟨blocks, ready⟩
  rcases family.ranged miner with ⟨text, groups, given, matched, ints⟩
  rcases passed_of_myBlocks given ready.myBlocks with ⟨groups', start, matched', ints', low, -⟩
  rw [matched] at matched'
  cases matched'
  have same := Prod.mk.inj (Except.ok.inj (ints.symm.trans ints'))
  have rest := Prod.mk.inj same.2
  exact ⟨by rw [low, same.1], rest.1.symm, rest.2.symm⟩

/-- Exactly one miner owns a hash. -/
theorem owner_of_hash {hash : String} (digits : IsHash hash) :
    Exists fun owner =>
      (family.session owner).gen.nextBlockIsMine hash = .ok true ∧
        forall miner, miner ≠ owner ->
          (family.session miner).gen.nextBlockIsMine hash = .ok false := by
  rcases Generate.turn_of_hash digits family.positive with ⟨turn, nonneg, bound, mine⟩
  rcases family.partition (turn + 1) (by omega) (by omega) with ⟨owner, owns, only⟩
  dsimp only at owns only
  refine ⟨owner, ?_, fun miner other => ?_⟩
  · rcases family.range_spec owner with ⟨low, high, period⟩
    rw [mine _ period, low, high, decide_eq_true (by omega)]
  · rcases family.range_spec miner with ⟨low, high, period⟩
    have outside : ¬ (family.first miner ≤ turn + 1 ∧ turn + 1 ≤ family.last miner) :=
      fun inside => other (only miner inside)
    rw [mine _ period, low, high, decide_eq_false (by omega)]

/-! ## The due time -/

variable {family} {header : HeaderInfo} {due : Number} {owner miner : M} {now : ℚ}

/-- A due time comes from an interval, and the second that it falls in is what it is
truncated to. -/
theorem due_spec (digits : IsHash header.hash) (since : 0 ≤ header.time)
    (until' : header.time < 2 ^ 32) (scheduled : family.due header = .ok due) :
    Exists fun nbits => Exists fun timeDelta => intFromHex header.bits = .ok nbits ∧
      family.interval nbits header.hash = .ok timeDelta ∧
      (Number.int header.time).add timeDelta = .ok due ∧ 1 ≤ due.value ∧
      due.toInt = .ok ⌊due.value⌋ := by
  simp only [Family.due, bind_eq_ok] at scheduled
  rcases scheduled with ⟨nbits, bits, timeDelta, interval, added⟩
  rcases intFromHex_sliceFromEnd digits (show 8 ≤ 64 by decide) (show 0 < 8 by decide)
    with ⟨count, parsed, small⟩
  rcases Double.exists_due since until' (Double.one_le_nextBlockDelta interval)
    (fun x float => Double.nextBlockDelta_le small family.bounded parsed (float ▸ interval))
    with ⟨due', added', positive, whole⟩
  cases Except.ok.inj (added.symm.trans added')
  exact ⟨nbits, timeDelta, bits, interval, added, positive, whole⟩

/-- There is a due time exactly if the targets can be divided. -/
theorem due_isOk_iff {nbits : Int} (digits : IsHash header.hash) (since : 0 ≤ header.time)
    (until' : header.time < 2 ^ 32) (bits : intFromHex header.bits = .ok nbits) :
    (Exists fun due => family.due header = .ok due) <->
      (Double.nbitsToTarget family.ultimate).Divisible (Double.nbitsToTarget nbits) := by
  rcases intFromHex_sliceFromEnd digits (show 8 ≤ 64 by decide) (show 0 < 8 by decide)
    with ⟨count, parsed, small⟩
  rw [← Double.nextBlockDelta_isOk_iff ⟨_, parsed⟩]
  constructor
  · rintro ⟨due, scheduled⟩
    rcases due_spec digits since until' scheduled with ⟨nbits', timeDelta, bits', interval, -⟩
    cases Except.ok.inj (bits.symm.trans bits')
    exact ⟨timeDelta, interval⟩
  · rintro ⟨timeDelta, interval⟩
    rcases Double.exists_due since until' (Double.one_le_nextBlockDelta interval)
      (fun x float => Double.nextBlockDelta_le small family.bounded parsed (float ▸ interval))
      with ⟨due, added, -⟩
    refine ⟨due, ?_⟩
    simp only [Family.due, bind_eq_ok]
    exact ⟨nbits, bits, timeDelta, interval, added⟩

/-- A schedule behind a first block has a due time. -/
theorem due_of_schedule {schedule : Schedule} (started : 0 < header.height)
    (run : family.schedule miner now header false = .ok schedule) :
    Exists fun due => Exists fun acts => family.due header = .ok due ∧
      (family.session miner).gen.nextBlockIsMine header.hash = .ok schedule.isMine ∧
      ((if schedule.isMine then pure due else due.add (.int family.backupDelay)) >>=
        Number.toInt) = .ok acts ∧ acts ≤ schedule.actionTime := by
  rw [family.schedule_eq] at run
  rcases family.settings miner with ⟨-, -, backup, ongoing, immediate⟩
  rcases Double.nextBlockTime_spec ongoing (by omega) immediate run
    with ⟨nbits, timeDelta, due, acts, bits, interval, scheduled, turn, acting, bound⟩
  rw [backup] at acting
  refine ⟨due, acts, ?_, turn, acting, bound⟩
  simp only [Family.due, bind_eq_ok]
  exact ⟨nbits, bits, timeDelta, interval, scheduled⟩

/-! ## Taking turns -/

/-- The owner acts in the second the block is due. -/
theorem schedule_owner (started : 0 < header.height) (digits : IsHash header.hash)
    (since : 0 ≤ header.time) (until' : header.time < 2 ^ 32)
    (mine : (family.session owner).gen.nextBlockIsMine header.hash = .ok true)
    (scheduled : family.due header = .ok due) :
    family.schedule owner now header false =
      .ok { mineTime := ⌊due.value⌋, actionTime := ⌊due.value⌋, isMine := true } := by
  rcases due_spec digits since until' scheduled
    with ⟨nbits, timeDelta, bits, interval, added, -, whole⟩
  rcases family.settings owner with ⟨-, -, -, ongoing, immediate⟩
  rw [family.schedule_eq]
  exact Double.nextBlockTime_owner ongoing (by omega) immediate bits interval added whole mine

/-- Every other miner acts a backup delay later exactly if the delay does not take the
due time across a second. -/
theorem schedule_backup_iff (started : 0 < header.height) (digits : IsHash header.hash)
    (since : 0 ≤ header.time) (until' : header.time < 2 ^ 32)
    (other : (family.session miner).gen.nextBlockIsMine header.hash = .ok false)
    (scheduled : family.due header = .ok due) :
    family.schedule miner now header false =
      .ok { mineTime := ⌊due.value⌋
            actionTime := ⌊due.value⌋ + family.backupDelay
            isMine := false } <->
        Double.Punctual due family.backupDelay := by
  rcases due_spec digits since until' scheduled
    with ⟨nbits, timeDelta, bits, interval, added, positive, whole⟩
  rcases family.settings miner with ⟨-, -, backup, ongoing, immediate⟩
  rw [family.schedule_eq, ← backup]
  exact Double.nextBlockTime_backup_iff ongoing (by omega) immediate (backup ▸ family.backup) bits
    interval added positive whole other

/-- A miner past its first block submits on a tip only when the time to act on it has
come. -/
theorem actionTime_le_of_submitted {state : LoopState} {answers : Answers} {submission : Submission}
    {schedule : Schedule} (submitted : (family.iterate miner state answers).1 = some submission)
    (tip : submission.attempt.header = header) (past : state.minedBlocks ≠ 0)
    (run : family.schedule miner answers.now header false = .ok schedule) :
    (schedule.actionTime : ℚ) ≤ answers.now := by
  rcases iterateWith_spec submitted with ⟨_, _, planned, -⟩
  rcases planWith_spec planned with ⟨-, run', ready, -⟩
  have later : (state.minedBlocks == 0) = false := by
    rw [beq_eq_false_iff_ne]
    exact past
  rw [later, tip, run] at run'
  cases run'
  exact ready

/-- However the loops of the miners interleave, a block that one of them submits
is as safe as in a run of its own: its node had given the header it was scheduled
by, and the time to act had come.  Behind its first block a miner whose turn it is
not had waited for the backup delay. -/
theorem safe_of_interleaved [DecidableEq M] {events : List (M × Answers)}
    (honest : forall event, event ∈ events -> forall hash header,
      event.2.getblockheader hash = .ok header -> header.hash = hash)
    (keeps : forall event, event ∈ events -> KeepsBlock family.base64 event.2.walletprocesspsbt)
    {state : LoopState} {answers : Answers} {submission : Submission}
    (member : (miner, state, answers) ∈ interleaved family.next family.start events)
    (submitted : (family.iterate miner state answers).1 = some submission) :
    SafeSubmissionWith (family.schedule miner) state answers submission ∧
      (Exists fun asked => asked ∈ inputsOf miner events ∧
        asked.getblockheader submission.attempt.bestblockhash =
          .ok submission.attempt.header) ∧
      (0 < submission.attempt.header.height -> state.minedBlocks ≠ 0 ->
        Exists fun due => Exists fun acts => Exists fun isMine =>
          family.due submission.attempt.header = .ok due ∧
          (family.session miner).gen.nextBlockIsMine submission.attempt.header.hash = .ok isMine ∧
          ((if isMine then pure due else due.add (.int family.backupDelay)) >>= Number.toInt) =
            .ok acts ∧ (acts : ℚ) ≤ answers.now) := by
  have alone : (state, answers) ∈ visits (family.next miner) (family.start miner)
      (inputsOf miner events) :=
    visits_of_interleaved member
  have honestNode : forall answers, answers ∈ inputsOf miner events -> forall hash header,
      answers.getblockheader hash = .ok header -> header.hash = hash :=
    fun answers own => honest (miner, answers) (mem_of_mem_inputsOf own)
  have reached := headerTold_of_visits honestNode (state, answers) alone
  have same := base64_of_startSession (family.started miner)
  have kept := keeps (miner, answers) (mem_of_mem_inputsOf reached.2)
  have safe := safe_of_headerTold
    (fun _ _ _ _ => Double.actionTime_of_nextBlockTime)
    (honestNode answers reached.2) (same ▸ kept) reached.1 reached.2 submitted
  refine ⟨safe.1, safe.2, fun above past => ?_⟩
  have later : (state.minedBlocks == 0) = false := by
    rw [beq_eq_false_iff_ne]
    exact past
  have scheduled := safe.1.scheduled
  rw [later] at scheduled
  rcases due_of_schedule above scheduled with ⟨due, acts, due', turn, acting, bound⟩
  have time : (acts : ℚ) ≤ submission.attempt.planned.actionTime := by exact_mod_cast bound
  exact ⟨due, acts, _, due', turn, acting, time.trans safe.1.acted⟩

end Family

/-! ## Two miners -/

/-- Two miners that share three turns. -/
def sampleRanges (miner : Bool) : String :=
  if miner then "1-2/3" else "3/3"

def sampleMiner (miner : Bool) : GenerateArgs :=
  { sampleArgs with multiminer := some (sampleRanges miner) }

def sampleGen (miner : Bool) : Generate :=
  { sampleSession.gen with
    multiLow := if miner then 0 else 2
    multiHigh := if miner then 2 else 3
    multiPeriod := 3 }

/-- The interval of a miner without `--poisson`. -/
def sampleInterval (ultimate lastNbits : Int) (lastHash : String) : Except PyError ℚ :=
  (Double.nextBlockDelta (fun _ => 0) (Double.nbitsToTarget ultimate) false 1800 lastNbits
    lastHash).map Number.value

def sampleFamily : Family Bool where
  hash256 := zeroHash
  base64 := hexBase64
  log1p := fun _ => 0
  bounded := fun _ _ => by norm_num
  nbits := some "1e0377ae"
  ultimate := 0x1e0377ae
  parsed := by decide +kernel
  args := sampleMiner
  clock := fun _ => 0
  session := fun miner =>
    { hash256 := zeroHash
      base64 := hexBase64
      delta := sampleInterval 0x1e0377ae
      gen := sampleGen miner
      grindCmd := none
      blocks := none }
  reward := fun _ => sampleReward
  started := fun miner => by cases miner <;> rfl
  poisson := false
  maxInterval := 1800
  backupDelay := 300
  sameNbits := fun _ => rfl
  samePoisson := fun _ => rfl
  sameMaxInterval := fun _ => rfl
  sameBackupDelay := fun _ => rfl
  backup := by decide
  ongoing := fun _ => ⟨rfl, rfl⟩
  immediate := fun _ => rfl
  total := 3
  positive := by decide
  first := fun miner => if miner then 1 else 3
  last := fun miner => if miner then 2 else 3
  ranged := fun miner => by
    cases miner
    · exact ⟨"3/3", (['3'], none, ['3']), rfl, by decide +kernel, by decide +kernel⟩
    · exact ⟨"1-2/3", (['1'], some ['2'], ['3']), rfl, by decide +kernel, by decide +kernel⟩
  partition := fun turn lower upper => by
    by_cases low : turn ≤ 2
    · refine ⟨true, ⟨lower, low⟩, fun miner inside => ?_⟩
      cases miner
      · have := inside.1
        simp only [Bool.false_eq_true, if_false] at this
        omega
      · rfl
    · refine ⟨false, ⟨show 3 ≤ turn by omega, show turn ≤ 3 by omega⟩, fun miner inside => ?_⟩
      cases miner
      · rfl
      · have := inside.2
        simp only [if_true] at this
        omega

def sampleHeader : HeaderInfo where
  hash := String.ofList (List.replicate 64 '0')
  height := 299
  bits := "1e0377ae"
  time := 1699999400

theorem isHash_sampleHeader : IsHash sampleHeader.hash := by
  unfold IsHash sampleHeader
  rw [String.toList_ofList]
  refine ⟨List.length_replicate, fun char member => ?_⟩
  rw [(List.mem_replicate.mp member).2]
  rfl

/-- The two miners with a higher desired target. -/
def lateFamily : Family Bool :=
  { sampleFamily with
    nbits := some "1e010020"
    ultimate := 0x1e010020
    parsed := by decide +kernel
    args := fun miner => { sampleMiner miner with nbits := some "1e010020" }
    session := fun miner =>
      { sampleFamily.session miner with
        delta := sampleInterval 0x1e010020
        gen := { sampleGen miner with ultimateTarget := nbitsToTarget 0x1e010020 } }
    started := fun miner => by cases miner <;> rfl
    sameNbits := fun _ => rfl
    ranged := sampleFamily.ranged }

/-- A tip shortly before the second `2 ^ 31`. -/
def lateHeader : HeaderInfo where
  hash := String.ofList (List.replicate 64 '0')
  height := 299
  bits := "1e02a259"
  time := 2147483200

/-- The two miners with a base64 that has a short name for the sample request. -/
def signingFamily : Family Bool :=
  { sampleFamily with
    base64 := shortBase64 sampleKnown
    session := fun miner => { sampleFamily.session miner with base64 := shortBase64 sampleKnown }
    started := fun miner => by cases miner <;> rfl }

def sampleEvents : List (Bool × Answers) :=
  [(true, sampleAnswers), (false, sampleAnswers), (true, sampleAnswers)]

/-- The owner of the tip mines a second block on it, in its turn. -/
theorem safe_of_interleaved_sample :
    Exists fun state => Exists fun submission =>
      (signingFamily.iterate true state sampleAnswers).1 = some submission ∧
      SafeSubmissionWith (signingFamily.schedule true) state sampleAnswers submission ∧
      (Exists fun asked => asked ∈ inputsOf true sampleEvents ∧
        asked.getblockheader submission.attempt.bestblockhash =
          .ok submission.attempt.header) ∧
      Exists fun due => Exists fun acts => Exists fun isMine =>
        signingFamily.due submission.attempt.header = .ok due ∧
        (signingFamily.session true).gen.nextBlockIsMine submission.attempt.header.hash =
          .ok isMine ∧
        ((if isMine then pure due else due.add (.int signingFamily.backupDelay)) >>=
          Number.toInt) = .ok acts ∧ (acts : ℚ) ≤ sampleAnswers.now := by
  have second : ((signingFamily.next true { reward := sampleReward } sampleAnswers).any
      fun state => decide (state.minedBlocks ≠ 0) &&
        (signingFamily.iterate true state sampleAnswers).1.isSome) = true := by
    decide +kernel
  rcases (Option.any_eq_true _ _).mp second with ⟨state, next, mines⟩
  rw [Bool.and_eq_true, decide_eq_true_eq] at mines
  rcases Option.isSome_iff_exists.mp mines.2 with ⟨submission, submitted⟩
  have given : forall event : Bool × Answers, event ∈ sampleEvents -> event.2 = sampleAnswers := by
    intro event inside
    rcases List.mem_cons.mp inside with same | later
    · rw [same]
    · rcases List.mem_cons.mp later with same | last
      · rw [same]
      · rw [List.mem_singleton.mp last]
  have member : (true, state, sampleAnswers) ∈
      interleaved signingFamily.next signingFamily.start sampleEvents := by
    apply List.mem_cons_of_mem
    apply List.mem_cons_of_mem
    change (true, state, sampleAnswers) ∈ interleaved signingFamily.next
      (Function.update (Function.update signingFamily.start true
        (signingFamily.next true { reward := sampleReward } sampleAnswers)) false
          (signingFamily.next false { reward := sampleReward } sampleAnswers))
      [(true, sampleAnswers)]
    rw [interleaved, Function.update_of_ne (by decide), Function.update_self, next]
    exact List.mem_cons_self
  have safe := @Family.safe_of_interleaved Bool signingFamily true _ sampleEvents ?_ ?_ state
    sampleAnswers submission member submitted
  · refine ⟨state, submission, submitted, safe.1, safe.2.1, safe.2.2 ?_ mines.1⟩
    rcases safe.2.1 with ⟨asked, inside, told⟩
    have same : asked = sampleAnswers := given (true, asked) (mem_of_mem_inputsOf inside)
    rw [same] at told
    rw [← Except.ok.inj told]
    exact (by decide : (0 : Int) < 299)
  · intro event inside hash header told
    rw [given event inside] at told
    cases told
    rfl
  · intro event inside text answer request signed told parsed parsed'
    rw [given event inside] at told
    cases told
    rw [parsed] at parsed'
    cases parsed'
    rfl

end Miner
end MutinyNet
