import MutinyNet.Miner.RunSafety

namespace MutinyNet
namespace Miner

open Codec Python Messages Transition

/-!
# How the loop waits for a block

A miner whose block is not due sleeps until it is, but never for more than a
minute, and behind the due time of a block that somebody else may mine never
for more than twenty seconds.  A sleep takes at least as long as it was asked
for; how much longer an iteration takes is a parameter.  While the tip stays,
the schedule that the iterations compute stays as well, so the sleeps add up:
there are not many of them, and the first iteration that does not sleep is due.
-/

/-- `sleep_for`. -/
def sleepFor (schedule : Schedule) (now : ℚ) : ℚ :=
  let sleepFor := min (schedule.actionTime - now) 60
  if schedule.mineTime < now then min 20 sleepFor else sleepFor

theorem sleepFor_spec {schedule : Schedule} {now : ℚ} (waits : now < schedule.actionTime) :
    0 < sleepFor schedule now ∧ now + sleepFor schedule now ≤ schedule.actionTime ∧
      sleepFor schedule now ≤ 60 ∧
      (schedule.mineTime < now -> sleepFor schedule now ≤ 20) ∧
      (20 ≤ sleepFor schedule now ∨ now + sleepFor schedule now = schedule.actionTime) := by
  have left : 0 < (schedule.actionTime : ℚ) - now := sub_pos.mpr waits
  have whole := min_le_left ((schedule.actionTime : ℚ) - now) 60
  have minute := min_le_right ((schedule.actionTime : ℚ) - now) 60
  have positive : 0 < min ((schedule.actionTime : ℚ) - now) 60 := lt_min left (by norm_num)
  have enough : 20 ≤ min ((schedule.actionTime : ℚ) - now) 60 ∨
      now + min ((schedule.actionTime : ℚ) - now) 60 = schedule.actionTime := by
    rcases le_total ((schedule.actionTime : ℚ) - now) 60 with less | more
    · rw [min_eq_left less]
      exact Or.inr (by ring)
    · rw [min_eq_right more]
      exact Or.inl (by norm_num)
  unfold sleepFor
  dsimp only
  by_cases due : (schedule.mineTime : ℚ) < now
  · rw [if_pos due]
    have short := min_le_left 20 (min ((schedule.actionTime : ℚ) - now) 60)
    have less := min_le_right 20 (min ((schedule.actionTime : ℚ) - now) 60)
    refine ⟨lt_min (by norm_num) positive, by linarith, by linarith, fun _ => short, ?_⟩
    rcases le_total 20 (min ((schedule.actionTime : ℚ) - now) 60) with more | last
    · exact Or.inl (le_min (le_refl 20) more)
    · rw [min_eq_right last]
      exact enough
  · rw [if_neg due]
    exact ⟨positive, by linarith, minute, fun late => absurd late due, enough⟩

namespace Session

variable (self : Session)

/-- The sleep of an iteration; none if it goes on to ask for a template. -/
def sleep (state : LoopState) (answers : Answers) : Except PyError (Option ℚ) := do
  let (_, header, state) ← self.observe state answers
  let planned ← self.gen.nextBlockTime self.delta answers.now header (state.minedBlocks == 0)
  if answers.now < planned.actionTime then pure (some (sleepFor planned answers.now))
  else pure none

/-- The clock of the next iteration: at least the sleep has passed, and `late`
seconds more at most. -/
def Clocked (late : ℚ) (visit following : LoopState × Answers) : Prop :=
  forall slept, self.sleep visit.1 visit.2 = .ok (some slept) ->
    visit.2.now + slept ≤ following.2.now ∧ following.2.now ≤ visit.2.now + slept + late

end Session

/-! ## One schedule after another -/

namespace Generate

variable {self : Generate} {delta : Int -> String -> Except PyError ℚ} {now again : ℚ}
  {bestheader : HeaderInfo} {isFirstBlock : Bool} {schedule : Schedule}

/-- What a later reading of the clock changes in the planned times. -/
theorem plannedTime_again {planned : ℚ × ℚ × Bool}
    (run : self.plannedTime delta now bestheader isFirstBlock = .ok planned) :
    (forall again, self.plannedTime delta again bestheader isFirstBlock = .ok planned) ∨
      planned.2.1 = now ∧ (planned.1 = now - interval * 100 ∨
        forall again, self.plannedTime delta again bestheader isFirstBlock =
          .ok (planned.1, again, planned.2.2)) := by
  unfold plannedTime at run ⊢
  cases fixed : self.setBlockTime with
  | some time =>
      rw [fixed] at run
      cases run
      exact Or.inr ⟨rfl, Or.inr fun _ => rfl⟩
  | none =>
      rw [fixed] at run
      dsimp only at run ⊢
      by_cases genesis : bestheader.height = 0
      · rw [if_pos genesis] at run
        cases run
        exact Or.inr ⟨rfl, Or.inl rfl⟩
      · simp only [if_neg genesis, bind_eq_ok] at run ⊢
        rcases run with ⟨nbits, bits, timeDelta, interval, isMine, turn, assembled⟩
        cases assembled
        by_cases standby : 0 < self.standbyDelay
        · refine Or.inl fun _ => ⟨nbits, bits, timeDelta, interval, isMine, turn, ?_⟩
          rw [if_pos standby, if_pos standby]
          rfl
        · rw [if_neg standby]
          cases isFirstBlock with
          | false =>
              refine Or.inl fun _ => ⟨nbits, bits, timeDelta, interval, isMine, turn, ?_⟩
              rw [if_neg standby]
              rfl
          | true =>
              refine Or.inr ⟨rfl, Or.inr fun _ =>
                ⟨nbits, bits, timeDelta, interval, isMine, turn, ?_⟩⟩
              rw [if_neg standby]
              rfl

theorem truncate_le {value : ℚ} (nonneg : 0 ≤ value) : ((truncate value : Int) : ℚ) ≤ value := by
  rw [truncate_of_nonneg nonneg]
  exact Int.floor_le value

/-- A schedule that makes the miner wait is the schedule of every later reading
of the clock, until it is due. -/
theorem nextBlockTime_again (clock : 0 ≤ now) (later : 0 ≤ again)
    (run : self.nextBlockTime delta now bestheader isFirstBlock = .ok schedule)
    (waits : now < schedule.actionTime) :
    Exists fun own => self.nextBlockTime delta again bestheader isFirstBlock = .ok own ∧
      own.mineTime = schedule.mineTime ∧
      (again < own.actionTime <-> again < schedule.actionTime) ∧
      (again < own.actionTime -> own.actionTime = schedule.actionTime) := by
  rcases bind_eq_ok.mp run with ⟨⟨mineTime, actionTime, isMine⟩, planned, assembled⟩
  cases assembled
  rcases plannedTime_again planned with same | ⟨immediate, rest⟩
  · refine ⟨_, bind_eq_ok.mpr ⟨_, same again, rfl⟩, rfl, Iff.rfl, fun _ => rfl⟩
  · dsimp only at immediate rest waits
    have before := truncate_le clock
    have after := truncate_le later
    rw [immediate] at waits
    -- The clock is not ahead of itself, so what the miner waits for is the clamp.
    have clamped : truncate now < truncate mineTime - 6900 := by
      by_contra first
      rw [max_eq_left (not_lt.mp first)] at waits
      linarith
    rcases rest with genesis | same
    · have past : (truncate mineTime : ℚ) - 6900 < now := by
        have bounds : interval * 100 ≤ 60100 := by
          unfold interval
          norm_num
        rcases le_total 0 mineTime with nonneg | negative
        · have := truncate_le nonneg
          have : (0 : ℚ) ≤ interval * 100 := by
            unfold interval
            norm_num
          linarith
        · have : ((truncate mineTime : Int) : ℚ) ≤ 0 := by
            unfold truncate
            split
            · exact_mod_cast Int.floor_nonpos negative
            · exact_mod_cast Int.ceil_le.mpr (by simpa using negative)
          linarith
      have : ((truncate mineTime - 6900 : Int) : ℚ) ≤ now := by
        push_cast
        exact past.le
      rw [max_eq_right clamped.le] at waits
      linarith
    · refine ⟨_, bind_eq_ok.mpr ⟨_, same again, rfl⟩, rfl, ?_⟩
      dsimp only
      rw [immediate, max_eq_right clamped.le]
      constructor
      · constructor
        · intro wait
          rcases le_total (truncate again) (truncate mineTime - 6900) with less | more
          · rwa [max_eq_right less] at wait
          · rw [max_eq_left more] at wait
            linarith
        · intro wait
          exact lt_of_lt_of_le wait (by exact_mod_cast le_max_right _ _)
      · intro wait
        rcases le_total (truncate again) (truncate mineTime - 6900) with less | more
        · exact max_eq_right less
        · rw [max_eq_left more] at wait
          linarith

end Generate

/-! ## Iterations on one tip -/

section Tip

variable {self : Session} {header : HeaderInfo} {schedule : Schedule}

/-- An iteration that observes the tip of a schedule and computes the same due
times from it. -/
structure OnTip (session : Session) (header : HeaderInfo) (schedule : Schedule)
    (visit : LoopState × Answers) : Prop where
  observed : session.observe visit.1 visit.2 = .ok (header.hash, header,
    { visit.1 with bestheader := some header, lastheader := some header.hash })
  planned : Exists fun own =>
    session.gen.nextBlockTime session.delta visit.2.now header (visit.1.minedBlocks == 0) = .ok own ∧
      own.mineTime = schedule.mineTime ∧
      (visit.2.now < own.actionTime <-> visit.2.now < schedule.actionTime) ∧
      (visit.2.now < own.actionTime -> own.actionTime = schedule.actionTime)

/-- What an observation makes of the state. -/
theorem observe_eq {state state' : LoopState} {answers : Answers} {bestblockhash : String}
    (run : self.observe state answers = .ok (bestblockhash, header, state')) :
    state' = { state with bestheader := some header, lastheader := some header.hash } := by
  simp only [Session.observe, bind_eq_ok] at run
  rcases run with ⟨_, -, _, -, _, -, assembled⟩
  cases assembled
  rfl

/-- A tip that has been observed is observed again without asking for its header. -/
theorem observe_again {state : LoopState} {answers : Answers}
    (cached : state.bestheader = some header) (noted : state.lastheader = some header.hash)
    (tip : answers.getblockchaininfo = .ok header.hash) :
    self.observe state answers = .ok (header.hash, header,
      { state with bestheader := some header, lastheader := some header.hash }) := by
  unfold Session.observe Session.tipHeader Session.noteHeader
  rw [tip, cached, noted]
  simp only [bind, Except.bind, pure, Except.pure, if_true]

theorem OnTip.sleep {visit : LoopState × Answers} (onTip : OnTip self header schedule visit) :
    self.sleep visit.1 visit.2 = .ok (if visit.2.now < schedule.actionTime then
      some (sleepFor schedule visit.2.now) else none) := by
  rcases onTip.planned with ⟨own, run, mine, waits, same⟩
  unfold Session.sleep
  rw [onTip.observed]
  simp only [bind, Except.bind]
  rw [run]
  dsimp only
  by_cases wait : visit.2.now < own.actionTime
  · rw [if_pos wait, if_pos (waits.mp wait), sleepFor, sleepFor, mine, same wait]
    rfl
  · rw [if_neg wait, if_neg (fun later => wait (waits.mpr later))]
    rfl

/-- An iteration that sleeps leaves what it observed. -/
theorem OnTip.nextState {visit : LoopState × Answers} (onTip : OnTip self header schedule visit)
    (waits : visit.2.now < schedule.actionTime) {state' : LoopState}
    (next : self.nextState visit.1 visit.2 = some state') :
    state' = { visit.1 with bestheader := some header, lastheader := some header.hash } := by
  rcases onTip.planned with ⟨own, run, -, same, -⟩
  have planned : self.plan visit.1 visit.2 = .ok (.wait,
      { visit.1 with bestheader := some header, lastheader := some header.hash }) := by
    unfold Session.plan Session.planWith
    rw [onTip.observed]
    simp only [bind, Except.bind]
    rw [run]
    dsimp only
    rw [if_pos (same.mpr waits)]
    rfl
  have iterated : (self.iterate visit.1 visit.2).2 =
      .ok { visit.1 with bestheader := some header, lastheader := some header.hash } := by
    rw [Session.iterate_eq]
    rw [planned]
  rw [Session.nextState_eq] at next
  rw [iterated] at next
  dsimp only at next
  split at next
  · cases next
    rfl
  · cases next

/-- The iteration behind a sleep is on the same tip, if its node says so. -/
theorem OnTip.following {visit following : LoopState × Answers}
    (onTip : OnTip self header schedule visit) (waits : visit.2.now < schedule.actionTime)
    (clock : 0 ≤ visit.2.now) (later : 0 ≤ following.2.now)
    (tip : following.2.getblockchaininfo = .ok header.hash)
    (next : self.nextState visit.1 visit.2 = some following.1) :
    OnTip self header schedule following := by
  have left := onTip.nextState waits next
  rcases onTip.planned with ⟨own, run, mine, same, acts⟩
  rcases Generate.nextBlockTime_again clock later run (same.mpr waits) with
    ⟨again, rerun, mine', same', acts'⟩
  rw [acts (same.mpr waits)] at same' acts'
  constructor
  · exact observe_again (by rw [left]) (by rw [left]) tip
  · refine ⟨again, ?_, mine'.trans mine, same', acts'⟩
    rw [left]
    exact rerun

/-- How many sleeps a wait may take, at twenty seconds each. -/
def sleepsLeft (schedule : Schedule) (visit : LoopState × Answers) : Nat :=
  ⌈(schedule.actionTime - visit.2.now) / 20⌉₊

theorem sleepsLeft_pos {visit : LoopState × Answers} (waits : visit.2.now < schedule.actionTime) :
    0 < sleepsLeft schedule visit := by
  unfold sleepsLeft
  rw [Nat.ceil_pos]
  linarith

/-- A sleep brings the miner twenty seconds nearer, or to the due time. -/
theorem sleepsLeft_lt {visit following : LoopState × Answers}
    (waits : visit.2.now < schedule.actionTime)
    (slept : visit.2.now + sleepFor schedule visit.2.now ≤ following.2.now) :
    sleepsLeft schedule following < sleepsLeft schedule visit := by
  rcases (sleepFor_spec waits).2.2.2.2 with long | last
  · have nearer : (schedule.actionTime - following.2.now) / 20 ≤
        (schedule.actionTime - visit.2.now) / 20 - 1 := by
      linarith
    have positive := sleepsLeft_pos waits
    unfold sleepsLeft at positive ⊢
    have fewer := Nat.ceil_mono nearer
    rw [Nat.ceil_sub_one] at fewer
    omega
  · have due : sleepsLeft schedule following = 0 := by
      unfold sleepsLeft
      rw [Nat.ceil_eq_zero]
      linarith
    rw [due]
    exact sleepsLeft_pos waits

/-- Along consecutive iterations that sleep on one tip the sleeps that are left
get fewer, and the last of them is on that tip as well. -/
theorem onTip_stretch {late : ℚ} {first : LoopState × Answers}
    {rest : List (LoopState × Answers)} (onTip : OnTip self header schedule first)
    (stays : forall visit, visit ∈ rest -> visit.2.getblockchaininfo = .ok header.hash)
    (clocks : forall visit, visit ∈ first :: rest -> 0 ≤ visit.2.now)
    (linked : List.IsChain (fun visit following =>
      self.nextState visit.1 visit.2 = some following.1) (first :: rest))
    (clocked : List.IsChain (self.Clocked late) (first :: rest))
    (sleeps : forall visit, visit ∈ first :: rest ->
      Exists fun slept => self.sleep visit.1 visit.2 = .ok (some slept)) :
    List.IsChain (fun visit later => sleepsLeft schedule later < sleepsLeft schedule visit)
        (first :: rest) ∧
      forall visit, visit ∈ first :: rest ->
        OnTip self header schedule visit ∧ visit.2.now < schedule.actionTime := by
  have waiting : forall visit, visit ∈ first :: rest -> OnTip self header schedule visit ->
      visit.2.now < schedule.actionTime := by
    intro visit member onTip
    rcases sleeps visit member with ⟨slept, run⟩
    rw [onTip.sleep] at run
    by_contra due
    rw [if_neg due] at run
    cases run
  induction rest generalizing first with
  | nil =>
      refine ⟨List.isChain_singleton _, fun visit member => ?_⟩
      rw [List.mem_singleton.mp member]
      exact ⟨onTip, waiting first List.mem_cons_self onTip⟩
  | cons second rest inductionHypothesis =>
      rw [List.isChain_cons_cons] at linked clocked ⊢
      have waits := waiting first List.mem_cons_self onTip
      have next := onTip.following waits (clocks first List.mem_cons_self)
        (clocks second (List.mem_cons_of_mem first List.mem_cons_self))
        (stays second List.mem_cons_self) linked.1
      have slept := onTip.sleep
      rw [if_pos waits] at slept
      have later := inductionHypothesis next
        (fun visit member => stays visit (List.mem_cons_of_mem second member))
        (fun visit member => clocks visit (List.mem_cons_of_mem first member)) linked.2 clocked.2
        (fun visit member => sleeps visit (List.mem_cons_of_mem first member))
        (fun visit member => waiting visit (List.mem_cons_of_mem first member))
      refine ⟨⟨sleepsLeft_lt waits (clocked.1 _ slept).1, later.1⟩, fun visit member => ?_⟩
      rcases List.mem_cons.mp member with same | further
      · rw [same]
        exact ⟨onTip, waits⟩
      · exact later.2 visit further

end Tip

/-! ## Waiting on one tip -/

/-- How a miner waits on a tip: with few sleeps, none of them long or past the
due time, and then it is due, late by no more than an iteration. -/
structure Polled (session : Session) (header : HeaderInfo) (schedule : Schedule) (late : ℚ)
    (stretch tail : List (LoopState × Answers)) : Prop where
  bounded : forall first, first ∈ stretch.head? ->
    stretch.length ≤ ⌈(schedule.actionTime - first.2.now) / 20⌉₊
  often : forall visit, visit ∈ stretch -> forall slept,
    session.sleep visit.1 visit.2 = .ok (some slept) ->
      0 < slept ∧ slept ≤ 60 ∧ visit.2.now + slept ≤ schedule.actionTime ∧
        (schedule.mineTime < visit.2.now -> slept ≤ 20)
  punctual : forall following, following ∈ tail.head? ->
    following.2.getblockchaininfo = .ok header.hash ->
      (Exists fun slept => session.sleep following.1 following.2 = .ok (some slept)) ∨
        session.sleep following.1 following.2 = .ok none ∧
          schedule.actionTime ≤ following.2.now ∧
          following.2.now ≤ schedule.actionTime + late

/-- In every run a miner that sleeps on a tip sleeps at most a minute at a time,
at most twenty seconds behind the due time of the block, and never past the time
it acts at.  The sleeps on one tip are bounded by the time that is left, and if
the tip stays, the iteration behind the last of them asks for a template within
`late` seconds of that time. -/
theorem polled_of_run {session : Session} {reward : RewardState} {given : List Answers}
    {before rest tail : List (LoopState × Answers)} {first : LoopState × Answers}
    {header : HeaderInfo} {state' : LoopState} {schedule : Schedule} {late : ℚ}
    (run : session.run reward given = before ++ ((first :: rest) ++ tail))
    (clocked : List.IsChain (session.Clocked late) (session.run reward given))
    (clocks : forall answers, answers ∈ given -> 0 ≤ answers.now)
    (tip : session.observe first.1 first.2 = .ok (header.hash, header, state'))
    (planned : session.gen.nextBlockTime session.delta first.2.now header
      (first.1.minedBlocks == 0) = .ok schedule)
    (stays : forall visit, visit ∈ rest -> visit.2.getblockchaininfo = .ok header.hash)
    (sleeps : forall visit, visit ∈ first :: rest ->
      Exists fun slept => session.sleep visit.1 visit.2 = .ok (some slept)) :
    Polled session header schedule late (first :: rest) tail := by
  have inside : forall visit, visit ∈ session.run reward given -> 0 ≤ visit.2.now := by
    intro visit member
    have told := @visits_invariant _ _ session.nextState (fun _ => True) _ _
      (fun _ _ => trivial) (fun _ _ _ _ _ _ => trivial) visit member
    exact clocks visit.2 told.2
  have linked := visits_isChain session.nextState (session.start reward) given
  rw [← Session.run, run] at linked
  rw [run] at clocked inside
  have links := List.isChain_append.mp linked.right_of_append
  have times := List.isChain_append.mp clocked.right_of_append
  have positive : forall visit, visit ∈ (first :: rest) ++ tail -> 0 ≤ visit.2.now :=
    fun visit member => inside visit (List.mem_append_right before member)
  have start : OnTip session header schedule first :=
    ⟨observe_eq tip ▸ tip, schedule, planned, rfl, Iff.rfl, fun _ => rfl⟩
  have stretch := onTip_stretch start stays
    (fun visit member => positive visit (List.mem_append_left tail member)) links.1 times.1 sleeps
  constructor
  · intro visit same
    cases Option.mem_some.mp same
    exact length_le_of_falling
      (fun visit member => sleepsLeft_pos (stretch.2 visit member).2) stretch.1
  · intro visit member slept run
    rcases stretch.2 visit member with ⟨onTip, waits⟩
    rw [onTip.sleep, if_pos waits] at run
    cases run
    have spec := sleepFor_spec waits
    exact ⟨spec.1, spec.2.2.1, spec.2.1, spec.2.2.2.1⟩
  · intro following next tip
    have last : (first :: rest).getLast (List.cons_ne_nil _ _) ∈ (first :: rest).getLast? :=
      List.getLast?_eq_some_getLast (List.cons_ne_nil _ _)
    have member := List.getLast_mem (List.cons_ne_nil first rest)
    rcases stretch.2 _ member with ⟨onTip, waits⟩
    have further := onTip.following waits
      (positive _ (List.mem_append_left tail member))
      (positive _ (List.mem_append_right (first :: rest) (List.mem_of_mem_head? next))) tip
      (links.2.2 _ last _ next)
    have slept := onTip.sleep
    rw [if_pos waits] at slept
    have clock := times.2.2 _ last _ next _ slept
    have spec := sleepFor_spec waits
    rw [further.sleep]
    by_cases wait : following.2.now < schedule.actionTime
    · rw [if_pos wait]
      exact Or.inl ⟨_, rfl⟩
    · rw [if_neg wait]
      refine Or.inr ⟨rfl, not_lt.mp wait, ?_⟩
      linarith [clock.2, spec.2.1]

/-! ## Two minutes -/

/-- A miner on standby. -/
def standbySession : Session :=
  { sampleSession with gen := { sampleSession.gen with standbyDelay := 30 } }

def standbyHeader : HeaderInfo where
  hash := sampleTemplate.previousblockhash
  height := 299
  bits := "1e0377ae"
  time := 1699999400

def standbyAnswers (now : ℚ) : Answers :=
  { sampleAnswers with now }

/-- The state behind the first iteration. -/
def standbyState : LoopState where
  bestheader := some standbyHeader
  lastheader := some standbyHeader.hash
  reward := sampleReward

/-- A minute, another one, and what is left. -/
def standbyClocks : List ℚ := [1699999900, 1699999961, 1700000021, 1700000031]

theorem run_standbyClocks :
    standbySession.run sampleReward (standbyClocks.map standbyAnswers) =
      ({ reward := sampleReward }, standbyAnswers 1699999900) ::
        [(standbyState, standbyAnswers 1699999961), (standbyState, standbyAnswers 1700000021),
          (standbyState, standbyAnswers 1700000031)] := by
  have first : standbySession.nextState { reward := sampleReward } (standbyAnswers 1699999900) =
      some standbyState := by
    decide +kernel
  have second : standbySession.nextState standbyState (standbyAnswers 1699999961) =
      some standbyState := by
    decide +kernel
  have third : standbySession.nextState standbyState (standbyAnswers 1700000021) =
      some standbyState := by
    decide +kernel
  change _ :: visits _ (standbySession.nextState _ _) _ = _
  rw [first]
  change _ :: _ :: visits _ (standbySession.nextState _ _) _ = _
  rw [second]
  change _ :: _ :: _ :: visits _ (standbySession.nextState _ _) _ = _
  rw [third]
  change _ :: _ :: _ :: _ :: visits _ (standbySession.nextState _ _) _ = _
  cases standbySession.nextState standbyState (standbyAnswers 1700000031) <;> rfl

theorem polled_of_run_sample :
    Polled standbySession standbyHeader
      { mineTime := 1700000000, actionTime := 1700000030, isMine := true } 2
      [({ reward := sampleReward }, standbyAnswers 1699999900),
        (standbyState, standbyAnswers 1699999961), (standbyState, standbyAnswers 1700000021)]
      [(standbyState, standbyAnswers 1700000031)] := by
  have first : standbySession.sleep { reward := sampleReward } (standbyAnswers 1699999900) =
      .ok (some 60) := by
    decide +kernel
  have second : standbySession.sleep standbyState (standbyAnswers 1699999961) =
      .ok (some 60) := by
    decide +kernel
  have third : standbySession.sleep standbyState (standbyAnswers 1700000021) =
      .ok (some 9) := by
    decide +kernel
  refine @polled_of_run standbySession sampleReward (standbyClocks.map standbyAnswers) []
    [(standbyState, standbyAnswers 1699999961), (standbyState, standbyAnswers 1700000021)]
    [(standbyState, standbyAnswers 1700000031)] _ standbyHeader standbyState _ 2
    run_standbyClocks ?_ ?_ (by decide +kernel) (by decide +kernel) ?_ ?_
  · rw [run_standbyClocks, List.isChain_cons_cons, List.isChain_cons_cons, List.isChain_pair]
    refine ⟨fun asked again => ?_, fun asked again => ?_, fun asked again => ?_⟩
    · rw [first] at again
      cases again
      norm_num [standbyAnswers]
    · rw [second] at again
      cases again
      norm_num [standbyAnswers]
    · rw [third] at again
      cases again
      norm_num [standbyAnswers]
  · intro answers member
    rcases List.mem_map.mp member with ⟨now, inside, rfl⟩
    have positive : forall now, now ∈ standbyClocks -> 0 ≤ now := by decide +kernel
    exact positive now inside
  · intro visit member
    rcases List.mem_cons.mp member with same | later
    · rw [same]
      rfl
    · rw [List.mem_singleton.mp later]
      rfl
  · intro visit member
    rcases List.mem_cons.mp member with same | later
    · rw [same]
      exact ⟨60, first⟩
    · rcases List.mem_cons.mp later with same | last
      · rw [same]
        exact ⟨60, second⟩
      · rw [List.mem_singleton.mp last]
        exact ⟨9, third⟩

end Miner
end MutinyNet
