import MutinyNet.Miner.CompactTarget
import MutinyNet.Miner.Loop
import MutinyNet.Miner.Validation

namespace MutinyNet
namespace Miner

open Codec Python Messages Transition

/-!
# The program and its exit status

A command function returns a status or nothing, or it raises.  `main` returns
what the function returned, and the last line of the module calls `main` and
drops what it returns: the interpreter ends with one after an exception and
with zero otherwise.
-/

/-! ## The command functions -/

/-- What a command function returns: none stands for `None`. -/
abbrev Returned := Option Int

structure GenpsbtArgs where
  address : Option String := none
  descriptor : Option String := none
  poolnum : Option Int := none
  poolid : Option ArgText := none
  nversion : Option String := none
  deriving DecidableEq, Repr

structure CalibrateArgs where
  nbits : Option String := none
  seconds : Option Int := none
  grindCmd : String
  deriving DecidableEq, Repr

/-- The selected sub-command with its options. -/
inductive Command where
  | missing
  | genpsbt (args : GenpsbtArgs)
  | solvepsbt (grindCmd : Option String)
  | generate (args : GenerateArgs)
  | calibrate (args : CalibrateArgs)
  deriving DecidableEq, Repr

/-- Everything the program is told from outside: the standard input, as a
template and as a text, the node, the clock at the start, and for each
iteration of the main loop its answers.  `elapsed` is the time that the trials
of a calibration took. -/
structure Environment where
  hash256 : Hash256
  base64 : Base64
  delta : Generate -> Int -> String -> Except PyError ℚ
  stdinTemplate : Except PyError BlockTemplate
  stdinText : String
  reward : RewardNode
  run : RunCommand
  clock : ℚ
  answers : List Answers
  elapsed : ℚ

/-- `do_genpsbt`. -/
def doGenpsbt (env : Environment) (args : GenpsbtArgs) : Except PyError Returned := do
  let poolid ← getPoolid { poolid := args.poolid, poolnum := args.poolnum }
  let tmpl ← env.stdinTemplate
  let state : RewardState := { address := args.address, descriptor := args.descriptor }
  let ((_, rewardSpk), _) ← state.getRewardAddrSpk env.reward tmpl.height
  let nversion ← parseNversion args.nversion
  let _ ← generatePsbt env.hash256 env.base64 tmpl rewardSpk none poolid nversion
  pure none

/-- `do_solvepsbt`. -/
def doSolvepsbt (env : Environment) (grindCmd : Option String) : Except PyError Returned := do
  let (block, signetSolution) ← decodePsbt env.base64 env.stdinText
  let block ← finishBlock env.hash256 env.run block signetSolution grindCmd
  let _ ← block.serialize
  pure none

/-- How the main loop ends, if it does on these answers: by its condition, by a
return, or by an exception. -/
def Session.outcome (self : Session) : Option LoopState -> List Answers -> Option (Except PyError Returned)
  | none, _ => some (.ok none)
  | some _, [] => none
  | some state, answers :: later =>
      match (self.iterate state answers).2 with
      | .error (.returned status) => some (.ok (some status))
      | .error (.raised err) => some (.error err)
      | .ok state' => outcome self (if self.goesOn state' then some state' else none) later

/-- `do_generate`; none stands for a run that goes on. -/
def doGenerate (env : Environment) (args : GenerateArgs) : Option (Except PyError Returned) :=
  match startSession env.hash256 env.base64 env.delta args env.clock with
  | .error err => some (.error err)
  | .ok (.refused _) => some (.ok (some 1))
  | .ok (.passed (session, reward)) => session.outcome (session.start reward) env.answers

/-- The conversion of an integer to a float, which has a greatest exponent. -/
def toFloat (value : Int) : Except PyError ℚ :=
  if value.natAbs < 2 ^ 1024 - 2 ^ 970 then .ok (value : ℚ) else .error .overflowError

/-- The header of a trial. -/
def trialHeader (trial : Nat) : CBlockHeader :=
  { nBits := 0x1e3ea75f, nTime := trial }

/-- The trials of a calibration, each of which grinds one header. -/
def runTrials (run : RunCommand) (grindCmd : String) : List Nat -> Except PyError Unit
  | [] => pure ()
  | trial :: trials => do
      let header ← (trialHeader trial).serialize
      let _ ← run (splitSpaces grindCmd ++ [toHex header])
      runTrials run grindCmd trials

/-- The target whose compact form is printed.  Below exponent three the target
is a float, which has no hexadecimal format. -/
def wantedTarget (avg : ℚ) (args : CalibrateArgs) : Except PyError Int := do
  let targ := nbitsToTarget 0x1e3ea75f
  match args.nbits with
  | some text => do
      let nbits ← intFromHex text
      let wantTarg := nbitsToTarget nbits
      let _ ← toFloat (truncate wantTarg)
      if wantTarg = 0 then .error .zeroDivisionError
      else if (nbits / 2 ^ 24) % 256 < 3 then
        .error (.valueError "Unknown format code 'x' for object of type 'float'")
      else pure (truncate wantTarg)
  | none => do
      let wantTime ← toFloat (args.seconds.getD 25)
      if wantTime = 0 then .error .zeroDivisionError
      else pure (truncate (targ * (avg / wantTime)))

/-- `do_calibrate`. -/
def doCalibrate (env : Environment) (args : CalibrateArgs) : Except PyError Returned :=
  if args.nbits.isSome ∧ args.seconds.isSome then pure (some 1)
  else if args.nbits.isSome ∧ args.nbits.map String.length ≠ some 8 then pure (some 1)
  else do
    runTrials env.run args.grindCmd (List.range 600)
    let avg := env.elapsed / 600
    let wantTarg ← wantedTarget avg args
    let _ ← targetToNbits wantTarg
    pure (some 0)

/-! ## The program -/

/-- `main`; none stands for a run that goes on. -/
def main (env : Environment) : Command -> Option (Except PyError Returned)
  | .missing => some (.ok (some 1))
  | .genpsbt args => some (doGenpsbt env args)
  | .solvepsbt grindCmd => some (doSolvepsbt env grindCmd)
  | .generate args => doGenerate env args
  | .calibrate args => some (doCalibrate env args)

/-- The last line of the module, `main()`, and the end of the interpreter. -/
def exitStatus : Except PyError Returned -> Nat
  | .ok _ => 0
  | .error _ => 1

/-! ## Failures that are reported -/

/-- The wallet answers the request of a planned block with a signature that is
not complete. -/
def Session.Unsigned (self : Session) (state : LoopState) (answers : Answers) : Prop :=
  Exists fun attempt => Exists fun state' => Exists fun rewardAddr => Exists fun rewardSpk =>
    Exists fun reward => Exists fun psbt => Exists fun psbtSigned =>
      self.plan state answers = .ok (.attempt attempt, state') ∧
        state'.reward.getRewardAddrSpk answers.reward attempt.template.height =
          .ok ((rewardAddr, rewardSpk), reward) ∧
        generatePsbt self.hash256 self.base64 attempt.template rewardSpk
          (some attempt.schedule.mineTime) self.gen.poolid self.gen.nversion = .ok psbt ∧
        answers.walletprocesspsbt psbt = .ok psbtSigned ∧ psbtSigned.complete = false

/-- The inputs on which a command function reports a failure. -/
inductive FailureReported (env : Environment) : Command -> Prop where
  | missing : FailureReported env .missing
  | options {args : GenerateArgs} (refused : OptionsRefused args) :
      FailureReported env (.generate args)
  | signature {args : GenerateArgs} {session : Session} {reward : RewardState}
      {visit : LoopState × Answers}
      (started : startSession env.hash256 env.base64 env.delta args env.clock =
        .ok (.passed (session, reward)))
      (member : visit ∈ session.run reward env.answers)
      (incomplete : session.Unsigned visit.1 visit.2) : FailureReported env (.generate args)
  | exclusive {args : CalibrateArgs} (nbits : args.nbits ≠ none) (seconds : args.seconds ≠ none) :
      FailureReported env (.calibrate args)
  | length {args : CalibrateArgs} (nbits : args.nbits ≠ none)
      (length : args.nbits.map String.length ≠ some 8) : FailureReported env (.calibrate args)

/-- The exit status tells whether the value that a command function returned
reports a failure. -/
structure Visible (returned : Returned) (status : Nat) : Prop where
  failure : forall reported, returned = some reported -> reported ≠ 0 -> status ≠ 0
  success : returned = none ∨ returned = some 0 -> status = 0

section Run

variable {session : Session} {state : LoopState} {answers : Answers}

theorem mine_eq_none_iff {schedule : Schedule} {tmpl : BlockTemplate} {rewardSpk : Bytes} :
    session.mine answers schedule tmpl rewardSpk = .ok none <->
      Exists fun psbt => Exists fun psbtSigned =>
        generatePsbt session.hash256 session.base64 tmpl rewardSpk (some schedule.mineTime)
          session.gen.poolid session.gen.nversion = .ok psbt ∧
        answers.walletprocesspsbt psbt = .ok psbtSigned ∧ psbtSigned.complete = false := by
  simp only [Session.mine, bind_eq_ok]
  constructor
  · rintro ⟨psbt, generated, psbtSigned, signed, rest⟩
    split at rest
    · next incomplete => exact ⟨psbt, psbtSigned, generated, signed, incomplete⟩
    · simp only [bind_eq_ok] at rest
      rcases rest with ⟨⟨block, solution⟩, -, finished, -, impossible⟩
      cases impossible
  · rintro ⟨psbt, psbtSigned, generated, signed, incomplete⟩
    refine ⟨psbt, generated, psbtSigned, signed, ?_⟩
    rw [if_pos incomplete]
    rfl

/-- A submission is never followed by a return. -/
theorem submit_not_returned {attempt : Attempt} {block : CBlock} {status : Int} :
    (session.submit state answers attempt block).2 ≠ .error (.returned status) := by
  unfold Session.submit
  split
  · intro impossible
    cases impossible
  · next bytes wrote =>
      cases after : (do
        let _ ← answers.submitblock (toHex bytes)
        session.report state block : Except PyError LoopState) with
      | error err =>
          intro impossible
          cases impossible
      | ok state' =>
          intro impossible
          cases impossible

/-- The loop is left by a return exactly when a signature is not complete. -/
theorem iterate_returned_iff {status : Int} :
    (session.iterate state answers).2 = .error (.returned status) <->
      session.Unsigned state answers ∧ status = 1 := by
  rw [Session.iterate_eq]
  unfold Session.Unsigned
  cases planned : session.plan state answers with
  | error err =>
      constructor
      · intro impossible
        cases impossible
      · rintro ⟨⟨attempt, state', _, _, _, _, _, impossible, -⟩, -⟩
        cases impossible
  | ok result =>
      rcases result with ⟨plan, state'⟩
      cases plan with
      | wait =>
          constructor
          · intro impossible
            cases impossible
          · rintro ⟨⟨attempt, state', _, _, _, _, _, impossible, -⟩, -⟩
            cases impossible
      | attempt attempt =>
          dsimp only
          constructor
          · intro run
            cases mined : session.mineAttempt state' answers attempt with
            | error err =>
                rw [mined] at run
                cases run
            | ok result =>
                rcases result with ⟨block, state''⟩
                rw [mined] at run
                cases block with
                | some block => exact absurd run submit_not_returned
                | none =>
                    cases run
                    simp only [Session.mineAttempt, bind_eq_ok] at mined
                    rcases mined with ⟨⟨⟨rewardAddr, rewardSpk⟩, reward⟩, rewarded, block, signed,
                      assembled⟩
                    cases assembled
                    rcases mine_eq_none_iff.mp signed with ⟨psbt, psbtSigned, generated, answered,
                      incomplete⟩
                    exact ⟨⟨attempt, state', rewardAddr, rewardSpk, reward, psbt, psbtSigned, rfl,
                      rewarded, generated, answered, incomplete⟩, rfl⟩
          · rintro ⟨⟨attempt', state'', rewardAddr, rewardSpk, reward, psbt, psbtSigned, same,
              rewarded, generated, answered, incomplete⟩, one⟩
            cases same
            subst one
            have signed : session.mine answers attempt.schedule attempt.template rewardSpk =
                .ok none := mine_eq_none_iff.mpr ⟨psbt, psbtSigned, generated, answered, incomplete⟩
            simp only [Session.mineAttempt, bind, Except.bind, rewarded, signed]
            rfl

/-- A run of the loop that ends with a value ends with none if every signature
was complete, and with one otherwise. -/
theorem outcome_spec {start : Option LoopState} {given : List Answers} {returned : Returned}
    (ended : session.outcome start given = some (.ok returned)) :
    (returned = none ∧ forall visit, visit ∈ visits session.nextState start given ->
      ¬ session.Unsigned visit.1 visit.2) ∨
    (returned = some 1 ∧ Exists fun visit => visit ∈ visits session.nextState start given ∧
      session.Unsigned visit.1 visit.2) := by
  induction given generalizing start with
  | nil =>
      cases start with
      | none =>
          cases ended
          exact Or.inl ⟨rfl, fun visit impossible => nomatch impossible⟩
      | some state => cases ended
  | cons answers later inductionHypothesis =>
      cases start with
      | none =>
          cases ended
          exact Or.inl ⟨rfl, fun visit impossible => nomatch impossible⟩
      | some state =>
          rw [Session.outcome] at ended
          rw [visits]
          cases run : (session.iterate state answers).2 with
          | error stop =>
              rw [run] at ended
              cases stop with
              | raised err => cases ended
              | returned status =>
                  cases ended
                  rcases iterate_returned_iff.mp run with ⟨incomplete, one⟩
                  exact Or.inr ⟨congrArg some one, (state, answers), List.mem_cons_self, incomplete⟩
          | ok state' =>
              rw [run] at ended
              have next : session.nextState state answers =
                  if session.goesOn state' then some state' else none := by
                rw [Session.nextState_eq, run]
              have complete : ¬ session.Unsigned state answers := by
                intro incomplete
                have returns := iterate_returned_iff.mpr ⟨incomplete, rfl⟩
                rw [run] at returns
                cases returns
              rw [next]
              rcases inductionHypothesis ended with ⟨none, all⟩ | ⟨one, visit, member, incomplete⟩
              · refine Or.inl ⟨none, ?_⟩
                intro visit member
                rcases List.mem_cons.mp member with here | there
                · subst here
                  exact complete
                · exact all visit there
              · exact Or.inr ⟨one, visit, List.mem_cons_of_mem _ member, incomplete⟩

end Run

/-! ## The exit status -/

section Commands

variable {env : Environment} {returned : Returned}

/-- `generate` returns none or one, and one exactly on a reported failure. -/
theorem doGenerate_spec {args : GenerateArgs}
    (finished : doGenerate env args = some (.ok returned)) :
    (returned = none ∧ ¬ FailureReported env (.generate args)) ∨
      (returned = some 1 ∧ FailureReported env (.generate args)) := by
  unfold doGenerate at finished
  cases started : startSession env.hash256 env.base64 env.delta args env.clock with
  | error err =>
      rw [started] at finished
      cases finished
  | ok check =>
      rcases bind_eq_ok.mp started with ⟨setup, run, rest⟩
      have refusal := setupGenerate_refused_iff run
      cases setup with
      | refused message =>
          cases rest
          rw [started] at finished
          cases finished
          exact Or.inr ⟨rfl, .options (refusal.mp ⟨message, rfl⟩)⟩
      | passed ready =>
          rcases ready with ⟨gen, blocks⟩
          cases rest
          rw [started] at finished
          rcases outcome_spec finished with ⟨none, complete⟩ | ⟨one, visit, member, incomplete⟩
          · refine Or.inl ⟨none, ?_⟩
            intro failed
            cases failed with
            | options refused =>
                rcases refusal.mpr refused with ⟨message, impossible⟩
                cases impossible
            | signature started' member incomplete =>
                rw [started] at started'
                cases started'
                exact complete _ member incomplete
          · exact Or.inr ⟨one, .signature started member incomplete⟩

/-- `calibrate` returns zero or one, and one exactly on a reported failure. -/
theorem doCalibrate_spec {args : CalibrateArgs}
    (finished : doCalibrate env args = .ok returned) :
    (returned = some 0 ∧ ¬ FailureReported env (.calibrate args)) ∨
      (returned = some 1 ∧ FailureReported env (.calibrate args)) := by
  unfold doCalibrate at finished
  split at finished
  · next both =>
      cases finished
      exact Or.inr ⟨rfl, .exclusive (Option.isSome_iff_ne_none.mp both.1)
        (Option.isSome_iff_ne_none.mp both.2)⟩
  · next single =>
      split at finished
      · next wrong =>
          cases finished
          exact Or.inr ⟨rfl, .length (Option.isSome_iff_ne_none.mp wrong.1) wrong.2⟩
      · next right =>
          simp only [bind_eq_ok] at finished
          rcases finished with ⟨-, -, wantTarg, -, nbits, -, zero⟩
          cases zero
          refine Or.inl ⟨rfl, ?_⟩
          intro failed
          cases failed with
          | exclusive nbits seconds =>
              exact single ⟨Option.isSome_iff_ne_none.mpr nbits,
                Option.isSome_iff_ne_none.mpr seconds⟩
          | length nbits length => exact right ⟨Option.isSome_iff_ne_none.mpr nbits, length⟩

theorem doGenpsbt_spec {args : GenpsbtArgs} (finished : doGenpsbt env args = .ok returned) :
    returned = none := by
  simp only [doGenpsbt, bind_eq_ok] at finished
  rcases finished with
    ⟨_, -, tmpl, -, ⟨⟨rewardAddr, rewardSpk⟩, state⟩, -, nversion, -, psbt, -, none⟩
  cases none
  rfl

theorem doSolvepsbt_spec {grindCmd : Option String}
    (finished : doSolvepsbt env grindCmd = .ok returned) : returned = none := by
  simp only [doSolvepsbt, bind_eq_ok] at finished
  rcases finished with ⟨⟨block, solution⟩, -, block', -, bytes, -, none⟩
  cases none
  rfl

/-- A command function returns one on a reported failure, and zero or none
otherwise. -/
theorem main_spec {command : Command} (finished : main env command = some (.ok returned)) :
    ((returned = none ∨ returned = some 0) ∧ ¬ FailureReported env command) ∨
      (returned = some 1 ∧ FailureReported env command) := by
  cases command with
  | missing =>
      cases finished
      exact Or.inr ⟨rfl, .missing⟩
  | genpsbt args =>
      refine Or.inl ⟨Or.inl (doGenpsbt_spec (Option.some.inj finished)), ?_⟩
      intro failed
      cases failed
  | solvepsbt grindCmd =>
      refine Or.inl ⟨Or.inl (doSolvepsbt_spec (Option.some.inj finished)), ?_⟩
      intro failed
      cases failed
  | generate args =>
      rcases doGenerate_spec finished with ⟨none, succeeded⟩ | failed
      · exact Or.inl ⟨Or.inl none, succeeded⟩
      · exact Or.inr failed
  | calibrate args =>
      rcases doCalibrate_spec (Option.some.inj finished) with ⟨zero, succeeded⟩ | failed
      · exact Or.inl ⟨Or.inr zero, succeeded⟩
      · exact Or.inr failed

end Commands

/-- The exit status of a run that ends with a value is right exactly when there
was no failure to report. -/
theorem visible_iff {env : Environment} {command : Command} {returned : Returned}
    (finished : main env command = some (.ok returned)) :
    Visible returned (exitStatus (.ok returned)) <-> ¬ FailureReported env command := by
  rcases main_spec finished with ⟨fine, succeeded⟩ | ⟨one, failed⟩
  · constructor
    · intro _
      exact succeeded
    · intro _
      refine ⟨?_, fun _ => rfl⟩
      intro reported same nonzero
      subst same
      rcases fine with impossible | zero
      · cases impossible
      · cases zero
        exact absurd rfl nonzero
  · constructor
    · intro visible
      exact absurd rfl (visible.failure 1 one (by decide))
    · intro succeeded
      exact absurd failed succeeded

/-- A node that is never asked anything. -/
def sampleEnvironment : Environment where
  hash256 := zeroHash
  base64 := hexBase64
  delta := fun _ _ _ => .ok 600
  stdinTemplate := .error (.valueError "Expecting value")
  stdinText := ""
  reward :=
    { deriveaddresses := fun _ _ => .error .calledProcessError
      getaddressinfo := fun _ => .error .calledProcessError }
  run := noCommand
  clock := 0
  answers := []
  elapsed := 0

/-- Without a sub-command `main` returns one, and the program exits with zero. -/
theorem missing_invisible :
    main sampleEnvironment .missing = some (.ok (some 1)) ∧
      exitStatus (.ok (some 1)) = 0 ∧ ¬ Visible (some 1) (exitStatus (.ok (some 1))) := by
  refine ⟨rfl, rfl, ?_⟩
  intro visible
  exact visible.failure 1 rfl (by decide) rfl

theorem visible_iff_sample :
    main sampleEnvironment (.calibrate { nbits := some "1e0377a", grindCmd := "grind" }) =
        some (.ok (some 1)) ∧
      (Visible (some 1) (exitStatus (.ok (some 1))) <-> ¬ FailureReported sampleEnvironment
        (.calibrate { nbits := some "1e0377a", grindCmd := "grind" })) := by
  have finished : main sampleEnvironment
      (.calibrate { nbits := some "1e0377a", grindCmd := "grind" }) = some (.ok (some 1)) := by
    have wrong : (some "1e0377a").map String.length ≠ some 8 := by decide +kernel
    exact congrArg some ((if_neg (by decide)).trans (if_pos ⟨rfl, wrong⟩))
  exact ⟨finished, visible_iff finished⟩

end Miner
end MutinyNet
