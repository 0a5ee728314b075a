import MutinyNet.Miner.Handoff
import MutinyNet.Miner.Finish
import MutinyNet.Miner.Reward
import MutinyNet.Transition.Driven

namespace MutinyNet
namespace Miner

open Codec Python Messages Transition

/-!
# The main loop of `generate`

One iteration asks the node for its tip, computes a schedule from the tip's
header, and then waits, tries again, or mines and submits a block.  Everything
it asks for is in one record of `Answers`, with the clock reading the schedule
is computed from.  Clock readings that only enter log messages are left out.
-/

/-- An answer of `walletprocesspsbt`; a missing `complete` counts as false. -/
structure SignedPsbt where
  complete : Bool
  psbt : String
  deriving DecidableEq, Repr

/-- What one iteration is told by the node, the clock and the grinder. -/
structure Answers where
  getblockchaininfo : Except PyError String
  getblockheader : String -> Except PyError HeaderInfo
  now : ℚ
  getblocktemplate : Except PyError BlockTemplate
  reward : RewardNode
  walletprocesspsbt : String -> Except PyError SignedPsbt
  run : RunCommand
  submitblock : String -> Except PyError String

/-- The variables of the loop. -/
structure LoopState where
  minedBlocks : Int := 0
  bestheader : Option HeaderInfo := none
  lastheader : Option String := none
  reward : RewardState
  deriving DecidableEq

/-- How the command ends: with a status, or by an exception. -/
inductive Stop where
  | returned (status : Int)
  | raised (err : PyError)
  deriving DecidableEq, Repr

/-- `Generate.gbt`.  The warning about an unexpected block names `bci`, which is
a variable of the caller, so building it raises. -/
def gbt (template : Except PyError BlockTemplate) (schedule : Schedule) (bestblockhash : String)
    (now : ℚ) : Except PyError (Option BlockTemplate × Schedule) := do
  let tmpl ← template
  if tmpl.previousblockhash ≠ bestblockhash then .error (.nameError "bci")
  else if schedule.mineTime < tmpl.mintime then
    let schedule := { schedule with mineTime := tmpl.mintime }
    if now < schedule.mineTime then pure (none, schedule)
    else pure (some tmpl, schedule)
  else pure (some tmpl, schedule)

/-- What stays the same while the loop runs.  `delta` computes the interval to
the next block from the compact target and the hash of a header. -/
structure Session where
  hash256 : Hash256
  base64 : Base64
  delta : Int -> String -> Except PyError ℚ
  gen : Generate
  grindCmd : Option String
  blocks : Option Int

/-- A block about to be mined: the tip it builds on, the clock reading, the
schedule of `next_block_time` and what `gbt` made of it, the template, and how
many blocks were mined before. -/
structure Attempt where
  bestblockhash : String
  header : HeaderInfo
  now : ℚ
  planned : Schedule
  schedule : Schedule
  template : BlockTemplate
  minedBefore : Int

/-- Whether an iteration mines; if not, it sleeps or starts over at once. -/
inductive Plan where
  | wait
  | attempt (attempt : Attempt)

/-- A block passed to `submitblock`. -/
structure Submission where
  attempt : Attempt
  block : CBlock

/-- How a tip is scheduled: `next_block_time` with the clock reading, the header and
whether this is the first block. -/
abbrev Scheduler :=
  ℚ -> HeaderInfo -> Bool -> Except PyError Schedule

namespace Session

variable (self : Session)

/-- `Generate.mine`: none stands for a signature that is not complete. -/
def mine (answers : Answers) (schedule : Schedule) (tmpl : BlockTemplate) (rewardSpk : Bytes) :
    Except PyError (Option CBlock) := do
  let psbt ← generatePsbt self.hash256 self.base64 tmpl rewardSpk (some schedule.mineTime)
    self.gen.poolid self.gen.nversion
  let psbtSigned ← answers.walletprocesspsbt psbt
  if psbtSigned.complete = false then pure none
  else do
    let (block, signetSolution) ← decodePsbt self.base64 psbtSigned.psbt
    let block ← finishBlock self.hash256 answers.run block signetSolution self.grindCmd
    pure (some block)

/-- The log line about the next block computes its interval and its owner. -/
def reportNext (nbits : Int) (hash : String) : Except PyError Unit := do
  let _ ← self.delta nbits hash
  let _ ← self.gen.nextBlockIsMine hash
  pure ()

/-- The header of the tip, which is fetched only if it is not the cached one. -/
def tipHeader (state : LoopState) (answers : Answers) (bestblockhash : String) :
    Except PyError HeaderInfo :=
  match state.bestheader with
  | some cached =>
      if cached.hash = bestblockhash then pure cached else answers.getblockheader bestblockhash
  | none => answers.getblockheader bestblockhash

/-- The log line about a header that is not this miner's last one. -/
def noteHeader (lastheader : Option String) (bestheader : HeaderInfo) : Except PyError Unit :=
  match lastheader with
  | none => pure ()
  | some lastheader =>
      if bestheader.hash = lastheader then pure ()
      else do
        let nbits ← intFromHex bestheader.bits
        self.reportNext nbits bestheader.hash

/-- The tip of this iteration and its header. -/
def observe (state : LoopState) (answers : Answers) :
    Except PyError (String × HeaderInfo × LoopState) := do
  let bestblockhash ← answers.getblockchaininfo
  let bestheader ← tipHeader state answers bestblockhash
  self.noteHeader state.lastheader bestheader
  pure (bestblockhash, bestheader,
    { state with bestheader := some bestheader, lastheader := some bestheader.hash })

/-- An iteration up to the point where it has a template and commits to it. -/
def planWith (nextBlockTime : Scheduler) (state : LoopState) (answers : Answers) :
    Except PyError (Plan × LoopState) := do
  let (bestblockhash, header, state) ← self.observe state answers
  let planned ← nextBlockTime answers.now header (state.minedBlocks == 0)
  if answers.now < planned.actionTime then pure (.wait, state)
  else do
    let (tmpl, schedule) ← gbt answers.getblocktemplate planned bestblockhash answers.now
    match tmpl with
    | none => pure (.wait, state)
    | some template =>
        pure (.attempt { bestblockhash, header, now := answers.now, planned, schedule, template,
                         minedBefore := state.minedBlocks }, state)

def plan (state : LoopState) (answers : Answers) : Except PyError (Plan × LoopState) :=
  self.planWith (self.gen.nextBlockTime self.delta) state answers

/-- Mining a planned block, up to its submission. -/
def mineAttempt (state : LoopState) (answers : Answers) (attempt : Attempt) :
    Except PyError (Option CBlock × LoopState) := do
  let ((_, rewardSpk), reward) ← state.reward.getRewardAddrSpk answers.reward
    attempt.template.height
  let state := { state with minedBlocks := state.minedBlocks + 1, reward }
  let block ← self.mine answers attempt.schedule attempt.template rewardSpk
  pure (block, state)

/-- What follows a submission; the submitted block was rehashed, so it has a hash. -/
def report (state : LoopState) (block : CBlock) : Except PyError LoopState :=
  match block.hash with
  | none => .error .typeError
  | some hash => do
      self.reportNext block.nBits hash
      pure { state with lastheader := some hash }

/-- `submitblock` with the block's bytes, and the report behind it. -/
def submit (state : LoopState) (answers : Answers) (attempt : Attempt) (block : CBlock) :
    Option Submission × Except Stop LoopState :=
  match block.serialize with
  | .error err => (none, .error (.raised err))
  | .ok bytes =>
      let after : Except PyError LoopState := do
        let _ ← answers.submitblock (toHex bytes)
        self.report state block
      (some { attempt, block }, after.mapError .raised)

/-- One iteration: what it submits, and the state it leaves or how it ends the
command. -/
def iterateWith (nextBlockTime : Scheduler) (state : LoopState) (answers : Answers) :
    Option Submission × Except Stop LoopState :=
  match self.planWith nextBlockTime state answers with
  | .error err => (none, .error (.raised err))
  | .ok (.wait, state) => (none, .ok state)
  | .ok (.attempt attempt, state) =>
      match self.mineAttempt state answers attempt with
      | .error err => (none, .error (.raised err))
      | .ok (none, _) => (none, .error (.returned 1))
      | .ok (some block, state) => self.submit state answers attempt block

def iterate (state : LoopState) (answers : Answers) : Option Submission × Except Stop LoopState :=
  self.iterateWith (self.gen.nextBlockTime self.delta) state answers

/-- The condition of the loop. -/
def goesOn (state : LoopState) : Bool :=
  match self.blocks with
  | none => true
  | some blocks => decide (state.minedBlocks < blocks)

/-- The state the next iteration starts in, if there is one. -/
def nextStateWith (nextBlockTime : Scheduler) (state : LoopState) (answers : Answers) :
    Option LoopState :=
  match (self.iterateWith nextBlockTime state answers).2 with
  | .error _ => none
  | .ok state => if self.goesOn state then some state else none

def nextState (state : LoopState) (answers : Answers) : Option LoopState :=
  self.nextStateWith (self.gen.nextBlockTime self.delta) state answers

theorem iterate_eq (state : LoopState) (answers : Answers) : self.iterate state answers =
    match self.plan state answers with
    | .error err => (none, .error (.raised err))
    | .ok (.wait, state) => (none, .ok state)
    | .ok (.attempt attempt, state) =>
        match self.mineAttempt state answers attempt with
        | .error err => (none, .error (.raised err))
        | .ok (none, _) => (none, .error (.returned 1))
        | .ok (some block, state) => self.submit state answers attempt block :=
  rfl

theorem nextState_eq (state : LoopState) (answers : Answers) : self.nextState state answers =
    match (self.iterate state answers).2 with
    | .error _ => none
    | .ok state => if self.goesOn state then some state else none :=
  rfl

/-- The state the loop is entered in, if it is entered. -/
def start (reward : RewardState) : Option LoopState :=
  if self.goesOn { reward } then some { reward } else none

/-- The iterations of a run on a sequence of answers: the state each one starts
in and the answers it gets. -/
def run (reward : RewardState) (answers : List Answers) : List (LoopState × Answers) :=
  visits self.nextState (self.start reward) answers

end Session

/-- `do_generate` up to its loop: the session its options start, and the
arguments that `get_reward_addr_spk` keeps its results in.  The intervals come
from `delta`. -/
def startSession (hash256 : Hash256) (base64 : Base64)
    (delta : Generate -> Int -> String -> Except PyError ℚ) (args : GenerateArgs) (clock : ℚ) :
    Except PyError (Check (Session × RewardState)) := do
  match ← setupGenerate args clock with
  | .refused message => pure (.refused message)
  | .passed (gen, blocks) =>
      let session : Session :=
        { hash256, base64, delta := delta gen, gen, grindCmd := args.grindCmd, blocks }
      pure (.passed (session, { address := args.address, descriptor := args.descriptor }))

end Miner
end MutinyNet
