import MutinyNet.Miner.Loop

namespace MutinyNet
namespace Miner

open Codec Python Messages Transition

/-!
# What a run submits

The times of a submission come from four places: the schedule's clamp, the wait
test, the template's minimum and the block time of the request.  One lemma for
each stage of an iteration says what it passes on, a submission is then safe by
arithmetic, and the run rule lifts this to every iteration of a run.
-/

variable {self : Session} {state state' : LoopState} {answers : Answers}
  {nextBlockTime : Scheduler}

/-! ## One stage after another -/

/-- The tip's header is the cached one or was just fetched, and nothing else
that matters to the schedule changes. -/
theorem observe_spec {bestblockhash : String} {header : HeaderInfo}
    (run : self.observe state answers = .ok (bestblockhash, header, state')) :
    answers.getblockchaininfo = .ok bestblockhash ∧
      (state.bestheader = some header ∧ header.hash = bestblockhash ∨
        answers.getblockheader bestblockhash = .ok header) ∧
      state'.bestheader = some header ∧ state'.minedBlocks = state.minedBlocks := by
  simp only [Session.observe, bind_eq_ok] at run
  rcases run with ⟨best, reported, header', found, _, -, assembled⟩
  cases assembled
  refine ⟨reported, ?_, rfl, rfl⟩
  unfold Session.tipHeader at found
  split at found
  · next cached known =>
      split at found
      · next same =>
          cases found
          exact Or.inl ⟨known, same⟩
      · exact Or.inr found
  · exact Or.inr found

/-- A template that `gbt` returns builds on the tip; the block time is its
minimum only if that is not in the future. -/
theorem gbt_spec {template : Except PyError BlockTemplate} {planned schedule : Schedule}
    {bestblockhash : String} {now : ℚ} {tmpl : BlockTemplate}
    (run : gbt template planned bestblockhash now = .ok (some tmpl, schedule)) :
    template = .ok tmpl ∧ tmpl.previousblockhash = bestblockhash ∧
      tmpl.mintime ≤ schedule.mineTime ∧
      (schedule.mineTime = planned.mineTime ∨ (schedule.mineTime : ℚ) ≤ now) := by
  rcases bind_eq_ok.mp run with ⟨tmpl', given, rest⟩
  split at rest
  · cases rest
  · next same =>
      have builds : tmpl'.previousblockhash = bestblockhash := not_not.mp same
      split at rest
      · dsimp only at rest
        split at rest
        · cases rest
        · next past =>
            cases rest
            exact ⟨given, builds, le_refl _, Or.inr (not_lt.mp past)⟩
      · next early =>
          cases rest
          exact ⟨given, builds, not_lt.mp early, Or.inl rfl⟩

/-- The block time is the planned one, or the template's minimum if that is later. -/
theorem mineTime_of_gbt {template : Except PyError BlockTemplate} {planned schedule : Schedule}
    {bestblockhash : String} {now : ℚ} {tmpl : BlockTemplate}
    (run : gbt template planned bestblockhash now = .ok (some tmpl, schedule)) :
    schedule.mineTime = max planned.mineTime tmpl.mintime := by
  rcases bind_eq_ok.mp run with ⟨tmpl', given, rest⟩
  split at rest
  · cases rest
  · split at rest
    · next early =>
        dsimp only at rest
        split at rest
        · cases rest
        · cases rest
          exact (max_eq_right (le_of_lt early)).symm
    · next late =>
        cases rest
        exact (max_eq_left (not_lt.mp late)).symm

/-- What a planned attempt is made of. -/
theorem planWith_spec {attempt : Attempt}
    (run : self.planWith nextBlockTime state answers = .ok (.attempt attempt, state')) :
    self.observe state answers = .ok (attempt.bestblockhash, attempt.header, state') ∧
      nextBlockTime answers.now attempt.header (state.minedBlocks == 0) = .ok attempt.planned ∧
      (attempt.planned.actionTime : ℚ) ≤ answers.now ∧
      gbt answers.getblocktemplate attempt.planned attempt.bestblockhash answers.now =
        .ok (some attempt.template, attempt.schedule) ∧
      attempt.now = answers.now ∧ attempt.minedBefore = state.minedBlocks := by
  simp only [Session.planWith, bind_eq_ok] at run
  rcases run with ⟨⟨best, header, observed⟩, seen, planned, scheduled, rest⟩
  have same := (observe_spec seen).2.2.2
  split at rest
  · cases rest
  · next ready =>
      rcases bind_eq_ok.mp rest with ⟨⟨tmpl, schedule⟩, asked, assembled⟩
      cases tmpl with
      | none => cases assembled
      | some template =>
          cases assembled
          rw [same] at scheduled
          exact ⟨seen, scheduled, not_lt.mp ready, asked, rfl, same⟩

theorem plan_spec {attempt : Attempt}
    (run : self.plan state answers = .ok (.attempt attempt, state')) :
    self.observe state answers = .ok (attempt.bestblockhash, attempt.header, state') ∧
      self.gen.nextBlockTime self.delta answers.now attempt.header (state.minedBlocks == 0) =
        .ok attempt.planned ∧
      (attempt.planned.actionTime : ℚ) ≤ answers.now ∧
      gbt answers.getblocktemplate attempt.planned attempt.bestblockhash answers.now =
        .ok (some attempt.template, attempt.schedule) ∧
      attempt.now = answers.now ∧ attempt.minedBefore = state.minedBlocks :=
  planWith_spec run

/-- A submission was planned and mined in the same iteration. -/
theorem iterateWith_spec {submission : Submission}
    (submitted : (self.iterateWith nextBlockTime state answers).1 = some submission) :
    Exists fun state' => Exists fun state'' =>
      self.planWith nextBlockTime state answers = .ok (.attempt submission.attempt, state') ∧
        self.mineAttempt state' answers submission.attempt = .ok (some submission.block, state'') := by
  unfold Session.iterateWith at submitted
  split at submitted
  · cases submitted
  · cases submitted
  · next attempt planned run =>
      split at submitted
      · cases submitted
      · cases submitted
      · next block mined done =>
          unfold Session.submit at submitted
          split at submitted
          · cases submitted
          · cases submitted
            exact ⟨planned, mined, run, done⟩

theorem iterate_spec {submission : Submission}
    (submitted : (self.iterate state answers).1 = some submission) :
    Exists fun state' => Exists fun state'' =>
      self.plan state answers = .ok (.attempt submission.attempt, state') ∧
        self.mineAttempt state' answers submission.attempt = .ok (some submission.block, state'') :=
  iterateWith_spec submitted

/-! ## The block that comes back from the wallet -/

/-- A wallet that leaves the block in the PSBT as it found it, as the format
asks of every signer for fields it does not know. -/
def KeepsBlock (base64 : Base64) (wallet : String -> Except PyError SignedPsbt) : Prop :=
  forall text answer request signed, wallet text = .ok answer ->
    PSBT.fromBase64 base64 text = .ok request -> PSBT.fromBase64 base64 answer.psbt = .ok signed ->
      signed.g.get? psbtSignetBlock = request.g.get? psbtSignetBlock

theorem decodePsbt_spec {base64 : Base64} {text : String} {block : CBlock} {solution : Bytes}
    (run : decodePsbt base64 text = .ok (block, solution)) :
    Exists fun psbt => Exists fun embedded => PSBT.fromBase64 base64 text = .ok psbt ∧
      psbt.g.get? psbtSignetBlock = some embedded ∧
      Exists fun left => CBlock.deserialize.run embedded = .ok (block, left) := by
  rcases bind_eq_ok.mp run with ⟨psbt, parsed, rest⟩
  cases unsigned : psbt.tx with
  | none =>
      rw [unsigned] at rest
      cases rest
  | some tx =>
      rw [unsigned] at rest
      simp only [bind_eq_ok] at rest
      rcases rest with ⟨_, -, _, -, rest⟩
      cases found : psbt.g.get? psbtSignetBlock with
      | none =>
          rw [found] at rest
          cases rest
      | some embedded =>
          rw [found] at rest
          dsimp only at rest
          split at rest
          · cases rest
          · simp only [bind_eq_ok] at rest
            rcases rest with ⟨block', binary, script, -, assembled⟩
            cases assembled
            simp only [fromBinary, bind_eq_ok] at binary
            rcases binary with ⟨⟨block', left⟩, deserialized, _, -, same⟩
            cases same
            exact ⟨psbt, embedded, parsed, found, left, deserialized⟩

/-- The request that was generated holds the block it was generated for. -/
theorem fromBase64_of_generatePsbt {hash256 : Hash256} {base64 : Base64} {tmpl : BlockTemplate}
    {rewardSpk : Bytes} {blocktime nversion : Option Int} {poolid : Option Bytes} {text : String}
    (run : generatePsbt hash256 base64 tmpl rewardSpk blocktime poolid nversion = .ok text) :
    Exists fun request => Exists fun block => Exists fun embedded =>
      PSBT.fromBase64 base64 text = .ok request ∧
        Embeds hash256 tmpl rewardSpk blocktime poolid nversion request block embedded := by
  rcases bind_eq_ok.mp run with ⟨psbt, built, encoded⟩
  rcases embeds_of_generatePsbt run encoded with ⟨block, embedded, embeds⟩
  rcases bind_eq_ok.mp encoded with ⟨bytes, wrote, same⟩
  cases same
  rcases PSBT.readsBack_deserialize wrote with ⟨_, tx, -, -, -, -, read⟩
  exact ⟨{ psbt with tx := some tx }, block, embedded, PSBT.fromBase64_encode base64 read,
    embeds.assembled, embeds.wrote, embeds.entry⟩

/-- A mined block has the previous hash of the template and the later of the
schedule's time and the template's minimum. -/
theorem mine_spec {schedule : Schedule} {tmpl : BlockTemplate} {rewardSpk : Bytes} {block : CBlock}
    (keeps : KeepsBlock self.base64 answers.walletprocesspsbt)
    (run : self.mine answers schedule tmpl rewardSpk = .ok (some block)) :
    intFromHex tmpl.previousblockhash = .ok block.hashPrevBlock ∧
      block.nTime = blockTime tmpl (some schedule.mineTime) := by
  simp only [Session.mine, bind_eq_ok] at run
  rcases run with ⟨text, generated, signed, processed, rest⟩
  split at rest
  · cases rest
  · simp only [bind_eq_ok] at rest
    rcases rest with ⟨⟨decoded, solution⟩, answer, finished, finish, assembled⟩
    cases assembled
    rcases fromBase64_of_generatePsbt generated with ⟨request, sent, embedded, parsed, embeds⟩
    rcases decodePsbt_spec answer with ⟨psbt, embedded', parsed', found, left, deserialized⟩
    rw [keeps text signed request psbt processed parsed parsed', embeds.entry] at found
    cases found
    -- The decoded header is the one that was embedded, whatever follows it.
    rcases CBlock.serialize_eq_ok.mp embeds.wrote with ⟨header, vtx, wrote, -, whole⟩
    rw [whole] at deserialized
    have same := CBlock.header_of_run wrote deserialized
    rcases embeds.drafted with ⟨built, draft, sameBuilt, drafted⟩
    have mine := drafted.header_of_same sameBuilt
    rcases finishOf_finishBlock finish with ⟨full, others, middle, finishOf⟩
    have kept := finishOf.header
    rw [kept.2.1, kept.2.2.1, same]
    exact ⟨drafted.hashPrevBlock.trans (congrArg Except.ok mine.2.1.symm), mine.2.2.1⟩

/-! ## Safety -/

/-- The bounds on a submitted block, in terms of the iteration that submitted
it. -/
structure SafeSubmissionWith (nextBlockTime : Scheduler) (state : LoopState) (answers : Answers)
    (submission : Submission) : Prop where
  reported : answers.getblockchaininfo = .ok submission.attempt.bestblockhash
  previous : intFromHex submission.attempt.bestblockhash = .ok submission.block.hashPrevBlock
  header : submission.attempt.header.hash = submission.attempt.bestblockhash
  scheduled : nextBlockTime answers.now submission.attempt.header (state.minedBlocks == 0) =
    .ok submission.attempt.planned
  acted : (submission.attempt.planned.actionTime : ℚ) ≤ answers.now
  template : answers.getblocktemplate = .ok submission.attempt.template
  time : submission.block.nTime =
    max submission.attempt.planned.mineTime submission.attempt.template.mintime
  mintime : submission.attempt.template.mintime ≤ submission.block.nTime
  future : (submission.block.nTime : ℚ) ≤ answers.now + 6900

abbrev SafeSubmission (session : Session) : LoopState -> Answers -> Submission -> Prop :=
  SafeSubmissionWith (session.gen.nextBlockTime session.delta)

/-- A scheduler that lets nobody act long before the time it gives the block. -/
def Clamped (nextBlockTime : Scheduler) : Prop :=
  forall now header isFirstBlock schedule, nextBlockTime now header isFirstBlock = .ok schedule ->
    schedule.mineTime - 6900 ≤ schedule.actionTime

/-- One iteration: the clamp keeps the planned time near the action time, which
has passed, and anything later than the plan is not in the future. -/
theorem iterateWith_safe {submission : Submission} (clamped : Clamped nextBlockTime)
    (honest : forall hash header, answers.getblockheader hash = .ok header -> header.hash = hash)
    (keeps : KeepsBlock self.base64 answers.walletprocesspsbt)
    (submitted : (self.iterateWith nextBlockTime state answers).1 = some submission) :
    SafeSubmissionWith nextBlockTime state answers submission := by
  rcases iterateWith_spec submitted with ⟨state', state'', planned, mined⟩
  rcases planWith_spec planned with ⟨seen, scheduled, ready, asked, -, -⟩
  rcases observe_spec seen with ⟨reported, known, -, -⟩
  rcases gbt_spec asked with ⟨given, builds, minimum, time⟩
  simp only [Session.mineAttempt, bind_eq_ok] at mined
  rcases mined with ⟨⟨reward, rewardState⟩, -, block, mined, assembled⟩
  cases assembled
  rcases mine_spec keeps mined with ⟨previous, nTime⟩
  rw [blockTime_of_le minimum] at nTime
  have clamp := clamped _ _ _ _ scheduled
  exact
    { reported := reported
      previous := builds ▸ previous
      header := known.elim (fun cached => cached.2) (honest _ _)
      scheduled := scheduled
      acted := ready
      template := given
      time := nTime.trans (mineTime_of_gbt asked)
      mintime := nTime ▸ minimum
      future := by
        rw [nTime]
        rcases time with same | past
        · have whole : submission.attempt.planned.mineTime ≤
              submission.attempt.planned.actionTime + 6900 := by omega
          have bound : (submission.attempt.planned.mineTime : ℚ) ≤
              submission.attempt.planned.actionTime + 6900 := by exact_mod_cast whole
          rw [same]
          linarith
        · linarith }

/-! ## Whole runs -/

/-- Planning changes the state only by what it observes. -/
theorem observed_of_planWith {plan : Plan}
    (run : self.planWith nextBlockTime state answers = .ok (plan, state')) :
    Exists fun bestblockhash => Exists fun header =>
      self.observe state answers = .ok (bestblockhash, header, state') := by
  simp only [Session.planWith, bind_eq_ok] at run
  rcases run with ⟨⟨best, header, observed⟩, seen, planned, -, rest⟩
  refine ⟨best, header, ?_⟩
  split at rest
  · cases rest
    exact seen
  · rcases bind_eq_ok.mp rest with ⟨⟨tmpl, schedule⟩, -, assembled⟩
    cases tmpl with
    | none =>
        cases assembled
        exact seen
    | some template =>
        cases assembled
        exact seen

theorem bestheader_of_mineAttempt {attempt : Attempt} {mined : Option CBlock}
    (run : self.mineAttempt state answers attempt = .ok (mined, state')) :
    state'.bestheader = state.bestheader := by
  simp only [Session.mineAttempt, bind_eq_ok] at run
  rcases run with ⟨_, -, block, -, assembled⟩
  cases assembled
  rfl

theorem bestheader_of_submit {attempt : Attempt} {block : CBlock}
    (run : (self.submit state answers attempt block).2 = .ok state') :
    state'.bestheader = state.bestheader := by
  unfold Session.submit at run
  split at run
  · cases run
  · next bytes wrote =>
      cases told : answers.submitblock (toHex bytes) with
      | error err =>
          rw [told] at run
          cases run
      | ok reply =>
          rw [told] at run
          change (self.report state block).mapError Stop.raised = .ok state' at run
          unfold Session.report at run
          split at run
          · cases run
          · next hash known =>
              cases noted : self.reportNext block.nBits hash with
              | error err =>
                  rw [noted] at run
                  cases run
              | ok _ =>
                  rw [noted] at run
                  cases run
                  rfl

/-- An iteration that does not end the command leaves the header it observed. -/
theorem iterateWith_observed (run : (self.iterateWith nextBlockTime state answers).2 = .ok state') :
    Exists fun bestblockhash => Exists fun header => Exists fun observed =>
      self.observe state answers = .ok (bestblockhash, header, observed) ∧
        state'.bestheader = observed.bestheader := by
  unfold Session.iterateWith at run
  split at run
  · cases run
  · next waited planned =>
      cases run
      rcases observed_of_planWith planned with ⟨best, header, seen⟩
      exact ⟨best, header, _, seen, rfl⟩
  · next attempt observed planned =>
      rcases observed_of_planWith planned with ⟨best, header, seen⟩
      split at run
      · cases run
      · cases run
      · next block mined done =>
          refine ⟨best, header, observed, seen, ?_⟩
          rw [bestheader_of_submit run, bestheader_of_mineAttempt done]

/-- The cached header is one that an iteration was told. -/
def HeaderTold (told : List Answers) (state : LoopState) : Prop :=
  forall header, state.bestheader = some header ->
    Exists fun answers => answers ∈ told ∧ answers.getblockheader header.hash = .ok header

/-- An observed header was told, if the cached one was. -/
theorem headerTold_of_observe {told : List Answers} {bestblockhash : String} {header : HeaderInfo}
    (member : answers ∈ told)
    (honest : forall hash header, answers.getblockheader hash = .ok header -> header.hash = hash)
    (before : HeaderTold told state)
    (run : self.observe state answers = .ok (bestblockhash, header, state')) :
    Exists fun asked => asked ∈ told ∧ asked.getblockheader header.hash = .ok header := by
  rcases (observe_spec run).2.1 with cached | fetched
  · exact before header cached.1
  · exact ⟨answers, member, honest bestblockhash header fetched ▸ fetched⟩

theorem headerTold_of_nextStateWith {told : List Answers} (member : answers ∈ told)
    (honest : forall hash header, answers.getblockheader hash = .ok header -> header.hash = hash)
    (before : HeaderTold told state)
    (next : self.nextStateWith nextBlockTime state answers = some state') :
    HeaderTold told state' := by
  unfold Session.nextStateWith at next
  split at next
  · cases next
  · next after run =>
      split at next
      · cases next
        rcases iterateWith_observed run with ⟨best, header, observed, seen, kept⟩
        intro cached known
        rw [kept, (observe_spec seen).2.2.1] at known
        cases known
        exact headerTold_of_observe member honest before seen
      · cases next

theorem headerTold_of_visits {reward : RewardState} {told : List Answers}
    (honest : forall answers, answers ∈ told -> forall hash header,
      answers.getblockheader hash = .ok header -> header.hash = hash) :
    forall visit, visit ∈ visits (self.nextStateWith nextBlockTime) (self.start reward) told ->
      HeaderTold told visit.1 ∧ visit.2 ∈ told := by
  apply visits_invariant
  · intro state first
    unfold Session.start at first
    split at first
    · cases first
      intro header known
      cases known
    · cases first
  · intro state answers state' inside
    exact headerTold_of_nextStateWith inside (honest answers inside)

/-- A block is submitted on the tip it was scheduled by, with a header that the
node had given. -/
theorem safe_of_headerTold {told : List Answers} {submission : Submission}
    (clamped : Clamped nextBlockTime)
    (honest : forall hash header, answers.getblockheader hash = .ok header -> header.hash = hash)
    (keeps : KeepsBlock self.base64 answers.walletprocesspsbt)
    (before : HeaderTold told state) (member : answers ∈ told)
    (submitted : (self.iterateWith nextBlockTime state answers).1 = some submission) :
    SafeSubmissionWith nextBlockTime state answers submission ∧
      Exists fun asked => asked ∈ told ∧
        asked.getblockheader submission.attempt.bestblockhash =
          .ok submission.attempt.header := by
  have safe := iterateWith_safe clamped honest keeps submitted
  rcases iterateWith_spec submitted with ⟨_, _, planned, -⟩
  have asked := headerTold_of_observe member honest before (planWith_spec planned).1
  rw [safe.header] at asked
  exact ⟨safe, asked⟩

theorem base64_of_startSession {hash256 : Hash256} {base64 : Base64}
    {delta : Generate -> Int -> String -> Except PyError ℚ} {args : GenerateArgs} {clock : ℚ}
    {reward : RewardState}
    (started : startSession hash256 base64 delta args clock = .ok (.passed (self, reward))) :
    self.base64 = base64 := by
  rcases bind_eq_ok.mp started with ⟨checked, -, rest⟩
  cases checked with
  | refused message => cases rest
  | passed value =>
      cases rest
      rfl

/-- Every block that a run of `generate` submits extends the tip that its
iteration was told and scheduled by, whose header the node had given, and its
time is neither before the template's minimum nor more than 6900 seconds after
the clock of that iteration. -/
theorem safe_of_run {hash256 : Hash256} {base64 : Base64}
    {delta : Generate -> Int -> String -> Except PyError ℚ} {args : GenerateArgs} {clock : ℚ}
    {session : Session} {reward : RewardState}
    (started : startSession hash256 base64 delta args clock = .ok (.passed (session, reward)))
    {told : List Answers}
    (honest : forall answers, answers ∈ told -> forall hash header,
      answers.getblockheader hash = .ok header -> header.hash = hash)
    (keeps : forall answers, answers ∈ told -> KeepsBlock base64 answers.walletprocesspsbt) :
    forall visit, visit ∈ session.run reward told -> forall submission,
      (session.iterate visit.1 visit.2).1 = some submission ->
        SafeSubmission session visit.1 visit.2 submission ∧
          Exists fun asked => asked ∈ told ∧
            asked.getblockheader submission.attempt.bestblockhash =
              .ok submission.attempt.header := by
  intro visit member submission submitted
  have reached := headerTold_of_visits honest visit member
  have same := base64_of_startSession started
  exact safe_of_headerTold (fun _ _ _ _ => Generate.actionTime_of_nextBlockTime)
    (honest visit.2 reached.2) (same ▸ keeps visit.2 reached.2) reached.1 reached.2 submitted

/-! ## A sample run -/

theorem toHex_ne_known (bytes : Bytes) : toHex bytes ≠ "known" := by
  have fails : (fromHex "known").isOk = false := by decide +kernel
  intro same
  rw [← same, fromHex_toHex] at fails
  cases fails

/-- A base64 with a short name for one text, which spares the evaluation of long
strings. -/
def shortBase64 (known : Bytes) : Base64 where
  encode := fun bytes => if bytes = known then "known" else toHex bytes
  decode := fun text => if text = "known" then .ok known else fromHex text
  decode_encode := by
    intro bytes
    split
    · next same => rw [if_pos rfl, same]
    · rw [if_neg (toHex_ne_known bytes), fromHex_toHex]

def sampleArgs : GenerateArgs where
  ongoing := true
  nbits := some "1e0377ae"
  address := some "address"

def sampleDelta : Generate -> Int -> String -> Except PyError ℚ := fun _ _ _ => .ok 600

/-- The request of the sample run. -/
def sampleKnown : Bytes :=
  (signingPsbt zeroHash sampleTemplate [0x51] (some 1700000000) none none
    >>= PSBT.serialize).toOption.getD []

/-- The session that the sample options start. -/
def sampleSession : Session where
  hash256 := zeroHash
  base64 := shortBase64 sampleKnown
  delta := fun _ _ => .ok 600
  gen :=
    { multiLow := 0, multiHigh := 1, multiPeriod := 1
      ultimateTarget := nbitsToTarget 0x1e0377ae
      poisson := false
      maxInterval := 1800
      standbyDelay := 0
      backupDelay := 300
      setBlockTime := none
      poolid := none
      nversion := none }
  grindCmd := none
  blocks := none

def sampleReward : RewardState where
  address := some "address"
  descriptor := none

def sampleAnswers : Answers where
  getblockchaininfo := .ok sampleTemplate.previousblockhash
  getblockheader := fun hash => .ok { hash, height := 299, bits := "1e0377ae", time := 1699999400 }
  now := 1700000000
  getblocktemplate := .ok sampleTemplate
  reward :=
    { deriveaddresses := fun _ _ => .ok []
      getaddressinfo := fun _ => .ok "51" }
  walletprocesspsbt := fun psbt => .ok { complete := true, psbt }
  run := noCommand
  submitblock := fun _ => .ok ""

theorem startSession_sample :
    startSession zeroHash (shortBase64 sampleKnown) sampleDelta sampleArgs 0 =
      .ok (.passed (sampleSession, sampleReward)) :=
  rfl

theorem safe_of_run_sample :
    Exists fun submission =>
      (sampleSession.iterate { reward := sampleReward } sampleAnswers).1 = some submission ∧
      SafeSubmission sampleSession { reward := sampleReward } sampleAnswers submission ∧
      Exists fun asked => asked ∈ [sampleAnswers] ∧
        asked.getblockheader submission.attempt.bestblockhash = .ok submission.attempt.header := by
  have submits :
      (sampleSession.iterate { reward := sampleReward } sampleAnswers).1.isSome = true := by
    decide +kernel
  rcases Option.isSome_iff_exists.mp submits with ⟨submission, submitted⟩
  have honest : forall answers, answers ∈ [sampleAnswers] -> forall hash header,
      answers.getblockheader hash = .ok header -> header.hash = hash := by
    intro answers inside hash header told
    cases List.mem_singleton.mp inside
    cases told
    rfl
  have keeps : forall answers, answers ∈ [sampleAnswers] ->
      KeepsBlock (shortBase64 sampleKnown) answers.walletprocesspsbt := by
    intro answers inside text answer request signed told parsed parsed'
    cases List.mem_singleton.mp inside
    cases told
    rw [parsed] at parsed'
    cases parsed'
    rfl
  exact ⟨submission, submitted, safe_of_run startSession_sample honest keeps
    ({ reward := sampleReward }, sampleAnswers) List.mem_cons_self submission submitted⟩

end Miner
end MutinyNet
