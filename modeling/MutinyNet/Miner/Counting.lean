import MutinyNet.Miner.Program
import MutinyNet.Miner.RunSafety

namespace MutinyNet
namespace Miner

open Codec Python Messages Transition

/-!
# How many blocks a run submits

The loop counts a block before it mines it, so a block that could not be mined
is counted as well.  But then the loop is left at once, by a return or by an
exception: whoever reaches another iteration has submitted every block that was
counted.  So the number of submissions is never above `--max-blocks`, and a run
that leaves the loop by its condition has submitted exactly that many.
-/

variable {self : Session} {state state' : LoopState} {answers : Answers}

namespace Session

/-- What the iterations from a state on submit, in order. -/
def submissionsFrom (self : Session) (start : Option LoopState) (given : List Answers) :
    List Submission :=
  (visits self.nextState start given).filterMap fun visit => (self.iterate visit.1 visit.2).1

/-- What a run submits. -/
def submissions (self : Session) (reward : RewardState) (given : List Answers) :
    List Submission :=
  self.submissionsFrom (self.start reward) given

theorem submissionsFrom_none (self : Session) (given : List Answers) :
    self.submissionsFrom none given = [] := by
  cases given <;> rfl

theorem submissionsFrom_cons (self : Session) (state : LoopState) (answers : Answers)
    (later : List Answers) :
    self.submissionsFrom (some state) (answers :: later) =
      (self.iterate state answers).1.toList ++
        self.submissionsFrom (self.nextState state answers) later := by
  unfold submissionsFrom
  rw [visits, List.filterMap_cons]
  cases (self.iterate state answers).1 <;> rfl

end Session

/-! ## One iteration -/

theorem minedBlocks_of_plan {plan : Plan} (run : self.plan state answers = .ok (plan, state')) :
    state'.minedBlocks = state.minedBlocks := by
  simp only [Session.plan, Session.planWith, bind_eq_ok] at run
  rcases run with ⟨⟨best, header, observed⟩, seen, planned, -, rest⟩
  have same := (observe_spec seen).2.2.2
  split at rest
  · cases rest
    exact same
  · rcases bind_eq_ok.mp rest with ⟨⟨tmpl, schedule⟩, -, assembled⟩
    cases tmpl <;> cases assembled <;> exact same

theorem minedBlocks_of_mineAttempt {attempt : Attempt} {mined : Option CBlock}
    (run : self.mineAttempt state answers attempt = .ok (mined, state')) :
    state'.minedBlocks = state.minedBlocks + 1 := by
  simp only [Session.mineAttempt, bind_eq_ok] at run
  rcases run with ⟨_, -, block, -, assembled⟩
  cases assembled
  rfl

/-- A submission behind which the loop goes on leaves the count as it is. -/
theorem minedBlocks_of_submit {attempt : Attempt} {block : CBlock}
    (run : (self.submit state answers attempt block).2 = .ok state') :
    (self.submit state answers attempt block).1 = some { attempt, block } ∧
      state'.minedBlocks = state.minedBlocks := by
  unfold Session.submit at run ⊢
  split at run
  · cases run
  · next bytes wrote =>
      refine ⟨rfl, ?_⟩
      cases told : answers.submitblock (toHex bytes) with
      | error err =>
          rw [told] at run
          cases run
      | ok reply =>
          rw [told] at run
          change (self.report state block).mapError Stop.raised = .ok state' at run
          unfold Session.report at run
          split at run
          · cases run
          · next hash known =>
              cases noted : self.reportNext block.nBits hash with
              | error err =>
                  rw [noted] at run
                  cases run
              | ok _ =>
                  rw [noted] at run
                  cases run
                  rfl

/-- What an iteration submits is counted, unless the iteration ends the command. -/
theorem iterate_counts (run : (self.iterate state answers).2 = .ok state') :
    state'.minedBlocks =
      state.minedBlocks + ((self.iterate state answers).1.toList.length : Int) := by
  rw [Session.iterate_eq] at run ⊢
  cases planned : self.plan state answers with
  | error err =>
      rw [planned] at run
      cases run
  | ok result =>
      rcases result with ⟨plan, observed⟩
      rw [planned] at run
      have same := minedBlocks_of_plan planned
      cases plan with
      | wait =>
          cases run
          simpa using same
      | attempt attempt =>
          dsimp only at run ⊢
          cases mined : self.mineAttempt observed answers attempt with
          | error err =>
              rw [mined] at run
              cases run
          | ok result =>
              rcases result with ⟨block, counted⟩
              rw [mined] at run
              have more := minedBlocks_of_mineAttempt mined
              cases block with
              | none => cases run
              | some block =>
                  have submitted := minedBlocks_of_submit run
                  simp [submitted.1, submitted.2, more, same]

/-- An iteration that returns has submitted nothing. -/
theorem iterate_returned {status : Int}
    (run : (self.iterate state answers).2 = .error (.returned status)) :
    (self.iterate state answers).1 = none := by
  rw [Session.iterate_eq] at run ⊢
  split at run
  · rfl
  · cases run
  · split at run
    · rfl
    · rfl
    · exact absurd run submit_not_returned

/-! ## Whole runs -/

/-- How the submissions of a run compare with the number it was given.  A run
that raises may have submitted any part of them. -/
structure Counted (blocks : Int) (submitted : Nat) (outcome : Option (Except PyError Returned)) :
    Prop where
  atMost : (submitted : Int) ≤ blocks
  all : outcome = some (.ok none) -> (submitted : Int) = blocks
  fewer : forall status, outcome = some (.ok (some status)) -> (submitted : Int) < blocks
  running : outcome = none -> (submitted : Int) < blocks

/-- No iteration is left. -/
theorem counted_none {blocks : Int} {given : List Answers} :
    Counted (blocks - blocks) (self.submissionsFrom none given).length
      (self.outcome none given) := by
  rw [self.submissionsFrom_none, sub_self]
  exact
    { atMost := le_refl 0
      all := fun _ => rfl
      fewer := fun status impossible => by cases given <;> cases impossible
      running := fun impossible => by cases given <;> cases impossible }

/-- The iterations from a state on submit what is left of the number. -/
theorem counted_from {blocks : Int} (limited : self.blocks = some blocks) (given : List Answers)
    (state : LoopState) (left : state.minedBlocks < blocks) :
    Counted (blocks - state.minedBlocks) (self.submissionsFrom (some state) given).length
      (self.outcome (some state) given) := by
  induction given generalizing state with
  | nil =>
      have none : self.submissionsFrom (some state) [] = [] := rfl
      rw [none]
      refine ⟨(sub_pos.mpr left).le, ?_, ?_, fun _ => sub_pos.mpr left⟩
      · intro impossible
        cases impossible
      · intro status impossible
        cases impossible
  | cons answers later inductionHypothesis =>
      rw [self.submissionsFrom_cons, Session.outcome, List.length_append]
      cases run : (self.iterate state answers).2 with
      | error stop =>
          have last : self.nextState state answers = none := by
            rw [Session.nextState_eq, run]
          rw [last, self.submissionsFrom_none, List.length_nil]
          -- One block at most was submitted, and a return is not behind a submission.
          have single : (self.iterate state answers).1.toList.length ≤ 1 := by
            cases (self.iterate state answers).1 <;> simp
          refine ⟨by omega, ?_, ?_, ?_⟩
          · intro impossible
            cases stop <;> cases impossible
          · intro status returns
            cases stop with
            | raised err => cases returns
            | returned status =>
                rw [iterate_returned run]
                simpa using left
          · intro impossible
            cases stop <;> cases impossible
      | ok state' =>
          have more := iterate_counts run
          have next : self.nextState state answers =
              if self.goesOn state' then some state' else none := by
            rw [Session.nextState_eq, run]
          have goesOn : self.goesOn state' = decide (state'.minedBlocks < blocks) := by
            rw [Session.goesOn, limited]
          dsimp only
          rw [next, goesOn]
          -- Each iteration adds one block at most, so the count does not pass the number.
          have single : (self.iterate state answers).1.toList.length ≤ 1 := by
            cases (self.iterate state answers).1 <;> simp
          by_cases further : state'.minedBlocks < blocks
          · rw [decide_eq_true further, if_pos rfl]
            have rest := inductionHypothesis state' further
            refine ⟨?_, fun ended => ?_, fun status ended => ?_, fun running => ?_⟩
            · have := rest.atMost
              omega
            · have := rest.all ended
              omega
            · have := rest.fewer status ended
              omega
            · have := rest.running running
              omega
          · rw [decide_eq_false further, if_neg Bool.false_ne_true]
            have rest := @counted_none self blocks later
            refine ⟨?_, fun ended => ?_, fun status ended => ?_, fun running => ?_⟩
            · have := rest.atMost
              omega
            · have := rest.all ended
              omega
            · have := rest.fewer status ended
              omega
            · have := rest.running running
              omega

/-- A session of a limited number of blocks has at least one to submit. -/
theorem one_le_of_startSession {hash256 : Hash256} {base64 : Base64}
    {delta : Generate -> Int -> String -> Except PyError ℚ} {args : GenerateArgs} {clock : ℚ}
    {reward : RewardState} {blocks : Int}
    (started : startSession hash256 base64 delta args clock = .ok (.passed (self, reward)))
    (limited : self.blocks = some blocks) :
    1 ≤ blocks ∧ maxBlocks args = .passed (some blocks) := by
  rcases bind_eq_ok.mp started with ⟨checked, setup, rest⟩
  cases checked with
  | refused message => cases rest
  | passed value =>
      rcases value with ⟨gen, given⟩
      have same := (Prod.mk.inj (Check.passed.inj (Except.ok.inj rest))).1
      rw [← same] at limited
      cases limited
      have counted := (readyOf_setupGenerate setup).maxBlocks
      refine ⟨?_, counted⟩
      unfold maxBlocks at counted
      split at counted
      · cases counted
        exact le_refl 1
      · split at counted
        · split at counted
          · cases counted
          · cases counted
            omega
        · split at counted
          · cases counted
          · cases counted
            exact le_refl 1

/-- A run of `generate` for a number of blocks submits no more than these.  It
submits every one of them if it ends by the condition of its loop, and not all
if it returns a status or has not ended. -/
theorem counted_of_startSession {hash256 : Hash256} {base64 : Base64}
    {delta : Generate -> Int -> String -> Except PyError ℚ} {args : GenerateArgs} {clock : ℚ}
    {session : Session} {reward : RewardState} {blocks : Int}
    (started : startSession hash256 base64 delta args clock = .ok (.passed (session, reward)))
    (limited : session.blocks = some blocks) (given : List Answers) :
    Counted blocks (session.submissions reward given).length
      (session.outcome (session.start reward) given) := by
  have positive := (one_le_of_startSession started limited).1
  have enters : session.start reward = some { reward } := by
    unfold Session.start Session.goesOn
    rw [limited]
    exact if_pos (decide_eq_true positive)
  have whole := counted_from limited given { reward } (lt_of_lt_of_le Int.zero_lt_one positive)
  rw [sub_zero] at whole
  rw [Session.submissions, enters]
  exact whole

theorem startSession_limited :
    startSession zeroHash (shortBase64 sampleKnown) sampleDelta
        { sampleArgs with ongoing := false, maxBlocks := some 2 } 0 =
      .ok (.passed ({ sampleSession with blocks := some 2 }, sampleReward)) :=
  rfl

theorem counted_of_startSession_sample :
    Counted 2
      (({ sampleSession with blocks := some 2 } : Session).submissions sampleReward
        [sampleAnswers, sampleAnswers]).length
      (({ sampleSession with blocks := some 2 } : Session).outcome
        (({ sampleSession with blocks := some 2 } : Session).start sampleReward)
        [sampleAnswers, sampleAnswers]) :=
  counted_of_startSession startSession_limited rfl [sampleAnswers, sampleAnswers]

end Miner
end MutinyNet
