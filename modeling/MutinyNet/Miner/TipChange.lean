import MutinyNet.Miner.RunSafety

namespace MutinyNet
namespace Miner

open Codec Python Messages Transition

/-!
# A tip that changes between two questions

The template of an iteration may build on another block than the one the node
reported a moment before.  `gbt` means to try again then, but the warning it
logs first names a variable of its caller, so such an iteration ends the
command.  A run does what is meant exactly if it never meets such a template.
-/

variable {self : Session} {state : LoopState} {answers : Answers}

/-- The tip and the schedule of an iteration that asks for a template. -/
def Asks (self : Session) (state : LoopState) (answers : Answers) (bestblockhash : String)
    (planned : Schedule) : Prop :=
  Exists fun header => Exists fun observed =>
    self.observe state answers = .ok (bestblockhash, header, observed) ∧
      self.gen.nextBlockTime self.delta answers.now header (state.minedBlocks == 0) = .ok planned ∧
      (planned.actionTime : ℚ) ≤ answers.now

/-- The iteration gets a template that does not build on the tip it was told. -/
def TipChanged (self : Session) (state : LoopState) (answers : Answers) : Prop :=
  Exists fun bestblockhash => Exists fun planned => Exists fun tmpl =>
    Asks self state answers bestblockhash planned ∧ answers.getblocktemplate = .ok tmpl ∧
      tmpl.previousblockhash ≠ bestblockhash

/-- What is meant to happen to a template.  One for another tip is not used:
nothing is submitted, no block is counted, and the loop goes on.  One for this
tip is used, unless its minimum time lies in the future. -/
structure Retried (session : Session) (state : LoopState) (answers : Answers) : Prop where
  other : forall bestblockhash planned tmpl, Asks session state answers bestblockhash planned ->
    answers.getblocktemplate = .ok tmpl -> tmpl.previousblockhash ≠ bestblockhash ->
      (Exists fun schedule =>
        gbt answers.getblocktemplate planned bestblockhash answers.now = .ok (none, schedule)) ∧
      (session.iterate state answers).1 = none ∧
      Exists fun state' => session.nextState state answers = some state' ∧
        state'.minedBlocks = state.minedBlocks
  same : forall bestblockhash planned tmpl, Asks session state answers bestblockhash planned ->
    answers.getblocktemplate = .ok tmpl -> tmpl.previousblockhash = bestblockhash ->
      (tmpl.mintime : ℚ) ≤ answers.now ->
        Exists fun schedule =>
          gbt answers.getblocktemplate planned bestblockhash answers.now = .ok (some tmpl, schedule)

/-! ## One iteration -/

theorem gbt_of_ne {template : Except PyError BlockTemplate} {tmpl : BlockTemplate}
    (given : template = .ok tmpl) {bestblockhash : String}
    (other : tmpl.previousblockhash ≠ bestblockhash) (planned : Schedule) (now : ℚ) :
    gbt template planned bestblockhash now = .error (.nameError "bci") := by
  rw [given]
  exact if_pos other

theorem gbt_of_eq {template : Except PyError BlockTemplate} {tmpl : BlockTemplate}
    (given : template = .ok tmpl) {bestblockhash : String}
    (same : tmpl.previousblockhash = bestblockhash) (planned : Schedule) {now : ℚ}
    (past : (tmpl.mintime : ℚ) ≤ now) :
    Exists fun schedule => gbt template planned bestblockhash now = .ok (some tmpl, schedule) := by
  rw [given]
  unfold gbt
  simp only [bind, Except.bind]
  rw [if_neg (not_not.mpr same), if_neg (not_lt.mpr past)]
  split
  · exact ⟨_, rfl⟩
  · exact ⟨_, rfl⟩

/-- An iteration that gets a template for another tip ends the command. -/
theorem iterate_of_tipChanged (changed : TipChanged self state answers) :
    self.iterate state answers = (none, .error (.raised (.nameError "bci"))) := by
  rcases changed with ⟨best, planned, tmpl, ⟨header, observed, seen, scheduled, ready⟩, given, other⟩
  have stops : self.plan state answers = .error (.nameError "bci") := by
    unfold Session.plan Session.planWith
    rw [seen]
    simp only [bind, Except.bind]
    rw [(observe_spec seen).2.2.2, scheduled]
    dsimp only
    rw [if_neg (not_lt.mpr ready), gbt_of_ne given other]
  rw [Session.iterate_eq]
  rw [stops]

theorem retried_iff : Retried self state answers <-> ¬ TipChanged self state answers := by
  constructor
  · intro retried changed
    have raised := iterate_of_tipChanged changed
    rcases changed with ⟨best, planned, tmpl, asks, given, other⟩
    rcases (retried.other best planned tmpl asks given other).2.2 with ⟨state', next, -⟩
    rw [Session.nextState_eq] at next
    rw [raised] at next
    cases next
  · intro unchanged
    exact
      { other := fun best planned tmpl asks given other =>
          absurd ⟨best, planned, tmpl, asks, given, other⟩ unchanged
        same := fun best planned tmpl _ given same past => gbt_of_eq given same planned past }

/-! ## Whole runs -/

/-- In a run every template is treated as it is meant to be exactly if no
iteration gets a template for another tip than it was told. -/
theorem retried_run_iff (session : Session) (reward : RewardState) (told : List Answers) :
    (forall visit, visit ∈ session.run reward told -> Retried session visit.1 visit.2) <->
      forall visit, visit ∈ session.run reward told -> ¬ TipChanged session visit.1 visit.2 :=
  forall_congr' fun _ => imp_congr_right fun _ => retried_iff

/-- The sample answers with a template for another tip. -/
def changedAnswers : Answers :=
  { sampleAnswers with
    getblocktemplate := .ok
      { sampleTemplate with
        previousblockhash := "0000000000000000000000000000000000000000000000000000000000000a0c" } }

/-- The first iteration of an ordinary command meets a new tip and raises. -/
theorem tipChanged_raises :
    startSession zeroHash (shortBase64 sampleKnown) sampleDelta sampleArgs 0 =
      .ok (.passed (sampleSession, sampleReward)) ∧
    ({ reward := sampleReward }, changedAnswers) ∈
      sampleSession.run sampleReward [changedAnswers] ∧
    TipChanged sampleSession { reward := sampleReward } changedAnswers ∧
    (sampleSession.iterate { reward := sampleReward } changedAnswers).2 =
      .error (.raised (.nameError "bci")) ∧
    ¬ Retried sampleSession { reward := sampleReward } changedAnswers := by
  have changed : TipChanged sampleSession { reward := sampleReward } changedAnswers := by
    refine ⟨_, _, _, ⟨_, _, rfl, rfl, ?_⟩, rfl, ?_⟩
    · decide +kernel
    · decide +kernel
  exact ⟨rfl, List.mem_cons_self, changed, congrArg Prod.snd (iterate_of_tipChanged changed),
    fun retried => retried_iff.mp retried changed⟩

end Miner
end MutinyNet
