import MutinyNet.Miner.Schedule

namespace MutinyNet
namespace Miner

open Codec Python

/-!
# The arguments of `generate`

What `do_generate` does before its loop: it checks the options one after
another, logs the first error it finds and returns one, or constructs the
`Generate` object.  A check that raises instead of returning is a third
possibility, so a result is a `Check` inside `Except`.
-/

/-- The options of the `generate` command, as the argument parser leaves them. -/
structure GenerateArgs where
  ongoing : Bool := false
  maxBlocks : Option Int := none
  setBlockTime : Option Int := none
  nbits : Option String := none
  minNbits : Bool := false
  poisson : Bool := false
  multiminer : Option String := none
  backupDelay : Int := 300
  standbyDelay : Int := 0
  maxInterval : Int := 1800
  address : Option String := none
  descriptor : Option String := none
  poolnum : Option Int := none
  poolid : Option ArgText := none
  nversion : Option String := none
  grindCmd : Option String := none
  deriving DecidableEq, Repr

/-- An error that is logged before the command returns one, or a value to go on
with. -/
inductive Check (A : Type) where
  | refused (message : String)
  | passed (value : A)
  deriving DecidableEq, Repr

/-! ## The range of a miner -/

/-- `RE_MULTIMINER`, from the digits behind the slash on: the end of the text, or
one line break before it. -/
def matchTotal (start : List Char) (stop : Option (List Char)) (rest : List Char) :
    Option (List Char × Option (List Char) × List Char) :=
  let total := rest.takeWhile isDecimal
  let behind := rest.dropWhile isDecimal
  if total = [] then none
  else if behind = [] ∨ behind = ['\n'] then some (start, stop, total)
  else none

/-- The groups of `RE_MULTIMINER`, `^(\d+)(-(\d+))?/(\d+)$`: the start, the stop
if there is one, and the total. -/
def matchMultiminer (text : String) : Option (List Char × Option (List Char) × List Char) :=
  let start := text.toList.takeWhile isDecimal
  if start = [] then none
  else match text.toList.dropWhile isDecimal with
    | '/' :: rest => matchTotal start none rest
    | '-' :: rest =>
        let stop := rest.takeWhile isDecimal
        if stop = [] then none
        else match rest.dropWhile isDecimal with
          | '/' :: rest => matchTotal start (some stop) rest
          | _ => none
    | _ => none

/-- The three integers of a `--multiminer` text that matches. -/
def multiminerRange (groups : List Char × Option (List Char) × List Char) :
    Except PyError (Int × Int × Int) := do
  let start ← intFromDecimals groups.1
  let stop ← intFromDecimals (groups.2.1.getD groups.1)
  let total ← intFromDecimals groups.2.2
  pure (start, stop, total)

/-- The `my_blocks` of a miner: the default, or the half-open range of an
accepted text. -/
def myBlocks (args : GenerateArgs) : Except PyError (Check (Int × Int × Int)) :=
  match args.multiminer with
  | none => pure (.passed (0, 1, 1))
  | some text =>
      if args.ongoing = false then
        pure (.refused "Cannot specify --multiminer without --ongoing")
      else match matchMultiminer text with
        | none => pure (.refused "--multiminer argument must be k/m or j-k/m")
        | some groups => do
            let (start, stop, total) ← multiminerRange groups
            if stop < start ∨ start ≤ 0 ∨ total < stop ∨ total = 0 then
              pure (.refused "Inconsistent values for --multiminer")
            else pure (.passed (start - 1, stop, total))

/-! ## All options -/

/-- `get_poolid`, which raises for a pool id that is not a text. -/
def getPoolid (args : GenerateArgs) : Except PyError (Option Bytes) :=
  match args.poolid, args.poolnum with
  | some poolid, _ => do
      let bytes ← encodeUtf8 poolid
      pure (some bytes)
  | none, some poolnum => pure (some ("/signet:" ++ toString poolnum ++ "/").toUTF8.toList)
  | none, none => pure none

/-- The number of blocks to mine; without one the loop goes on for ever. -/
def maxBlocks (args : GenerateArgs) : Check (Option Int) :=
  if args.setBlockTime.isSome then .passed (some 1)
  else match args.maxBlocks with
    | some maxBlocks =>
        if maxBlocks < 1 then .refused "--max_blocks must specify a positive integer"
        else .passed (some maxBlocks)
    | none => .passed (if args.ongoing then none else some 1)

/-- The block time to set; a negative one stands for the current time. -/
def setBlockTime (args : GenerateArgs) (clock : ℚ) : Option ℚ :=
  args.setBlockTime.map fun time : Int => if time < 0 then clock else (time : ℚ)

/-- The compact target; `--min-nbits` selects the one of an easy chain. -/
def chosenNbits (args : GenerateArgs) : Option String :=
  if args.minNbits then some "1e0377ae" else args.nbits

/-- `int(args.nbits, 16)`; there is no integer of `None`. -/
def parseNbits (nbits : Option String) : Except PyError Int :=
  match nbits with
  | none => .error .typeError
  | some text => intFromHex text

/-- `None if text is None else int(text, 16)`. -/
def parseNversion (nversion : Option String) : Except PyError (Option Int) :=
  match nversion with
  | none => pure none
  | some text => do
      let value ← intFromHex text
      pure (some value)

/-- `do_generate` up to its loop; `clock` is what `time.time()` returns there. -/
def setupGenerate (args : GenerateArgs) (clock : ℚ) :
    Except PyError (Check (Generate × Option Int)) :=
  match maxBlocks args with
  | .refused message => pure (.refused message)
  | .passed maxBlocks =>
      if args.setBlockTime = none ∧ (chosenNbits args).map String.length ≠ some 8 then
        pure (.refused "Must specify --nbits (use calibrate command to determine value)")
      else do
        match ← myBlocks args with
        | .refused message => pure (.refused message)
        | .passed (multiLow, multiHigh, multiPeriod) =>
            if args.maxInterval < 960 then
              pure (.refused "--max-interval must be at least 960 (16 minutes)")
            else do
              let poolid ← getPoolid args
              let nbits ← parseNbits (chosenNbits args)
              let nversion ← parseNversion args.nversion
              let gen : Generate :=
                { multiLow, multiHigh, multiPeriod
                  ultimateTarget := nbitsToTarget nbits
                  poisson := args.poisson
                  maxInterval := args.maxInterval
                  standbyDelay := args.standbyDelay
                  backupDelay := args.backupDelay
                  setBlockTime := setBlockTime args clock
                  poolid
                  nversion }
              pure (.passed (gen, maxBlocks))

/-! ## What an accepted set of options says -/

theorem passed_of_myBlocks {args : GenerateArgs} {text : String} {low high period : Int}
    (given : args.multiminer = some text)
    (run : myBlocks args = .ok (.passed (low, high, period))) :
    Exists fun groups => Exists fun start => matchMultiminer text = some groups ∧
      multiminerRange groups = .ok (start, high, period) ∧ low = start - 1 ∧ 1 ≤ start ∧
        start ≤ high ∧ high ≤ period := by
  unfold myBlocks at run
  rw [given] at run
  dsimp only at run
  split at run
  · cases run
  · split at run
    · cases run
    · next groups matched =>
        rcases bind_eq_ok.mp run with ⟨⟨start, stop, total⟩, ints, checked⟩
        dsimp only at checked
        split at checked
        · cases checked
        · next consistent =>
            cases checked
            exact ⟨groups, start, matched, ints, rfl, by omega, by omega, by omega⟩

/-- The options under which the loop was entered, one by one. -/
structure ReadyOf (args : GenerateArgs) (clock : ℚ) (gen : Generate) (blocks : Option Int) :
    Prop where
  maxBlocks : maxBlocks args = .passed blocks
  myBlocks : myBlocks args = .ok (.passed (gen.multiLow, gen.multiHigh, gen.multiPeriod))
  maxInterval : 960 ≤ args.maxInterval ∧ gen.maxInterval = args.maxInterval
  ultimateTarget : Exists fun nbits => parseNbits (chosenNbits args) = .ok nbits ∧
    gen.ultimateTarget = nbitsToTarget nbits
  poisson : gen.poisson = args.poisson
  standbyDelay : gen.standbyDelay = args.standbyDelay
  backupDelay : gen.backupDelay = args.backupDelay
  setBlockTime : gen.setBlockTime = setBlockTime args clock
  poolid : getPoolid args = .ok gen.poolid
  nversion : parseNversion args.nversion = .ok gen.nversion

theorem readyOf_setupGenerate {args : GenerateArgs} {clock : ℚ} {gen : Generate}
    {blocks : Option Int} (run : setupGenerate args clock = .ok (.passed (gen, blocks))) :
    ReadyOf args clock gen blocks := by
  unfold setupGenerate at run
  split at run
  · cases run
  · next number counted =>
      split at run
      · cases run
      · rcases bind_eq_ok.mp run with ⟨range, ranged, rest⟩
        cases range with
        | refused message => cases rest
        | passed range =>
            rcases range with ⟨low, high, period⟩
            dsimp only at rest
            split at rest
            · cases rest
            · next enough =>
                simp only [bind_eq_ok] at rest
                rcases rest with ⟨poolid, encoded, nbits, parsed, nversion, version, assembled⟩
                cases assembled
                exact
                  { maxBlocks := counted
                    myBlocks := ranged
                    maxInterval := ⟨by omega, rfl⟩
                    ultimateTarget := ⟨nbits, parsed, rfl⟩
                    poisson := rfl
                    standbyDelay := rfl
                    backupDelay := rfl
                    setBlockTime := rfl
                    poolid := encoded
                    nversion := version }

end Miner
end MutinyNet
