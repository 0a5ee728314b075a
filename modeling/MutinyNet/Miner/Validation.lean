import MutinyNet.Miner.Arguments

namespace MutinyNet
namespace Miner

open Codec Python

/-!
# Option sets that the checks of `generate` miss

The checks in front of the loop are meant to turn away every option set the
loop cannot work with.  They are not complete.  A missing `--nbits` is an error
only without `--set-block-time`, but the target is computed from it in both
cases; a number of `--multiminer` may have more digits than `int` converts; and
a `--poolid` that is not UTF-8 cannot be encoded.  Every other option set the
parser admits is turned away or accepted.
-/

/-- The option sets the argument parser admits: its groups of exclusive
options, and texts that are what their help says they are. -/
structure Admitted (args : GenerateArgs) : Prop where
  ongoing : args.ongoing = true -> args.maxBlocks = none ∧ args.setBlockTime = none
  howmany : args.maxBlocks = none ∨ args.setBlockTime = none
  nbitTarget : args.minNbits = true -> args.nbits = none
  payto : args.address.isSome = !args.descriptor.isSome
  pool : args.poolnum = none ∨ args.poolid = none
  nversion : forall text, args.nversion = some text ->
    Exists fun value => intFromHex text = .ok value
  nbits : forall text, args.nbits = some text ->
    forall char, char ∈ text.toList -> isHexDigit char = true

/-- The checks end without an exception, and the loop starts with a range of
blocks inside its period and with a maximal interval of 16 minutes or more. -/
def Validates (run : Except PyError (Check (Generate × Option Int))) : Prop :=
  Exists fun check => run = .ok check ∧ forall gen blocks, check = .passed (gen, blocks) ->
    0 ≤ gen.multiLow ∧ gen.multiLow < gen.multiHigh ∧ gen.multiHigh ≤ gen.multiPeriod ∧
      960 ≤ gen.maxInterval

/-- No number of a `--multiminer` text has too many digits. -/
def ShortNumbers (groups : List Char × Option (List Char) × List Char) : Prop :=
  groups.1.length ≤ maxStrDigits ∧ (groups.2.1.getD groups.1).length ≤ maxStrDigits ∧
    groups.2.2.length ≤ maxStrDigits

/-- The options for which the checks return one.  Numbers with too many digits
raise before the maximal interval is looked at. -/
inductive OptionsRefused (args : GenerateArgs) : Prop where
  | maxBlocks (unset : args.setBlockTime = none) (blocks : Int)
      (given : args.maxBlocks = some blocks) (small : blocks < 1)
  | nbits (unset : args.setBlockTime = none)
      (missing : (chosenNbits args).map String.length ≠ some 8)
  | alone (given : args.multiminer ≠ none) (single : args.ongoing = false)
  | pattern (text : String) (given : args.multiminer = some text)
      (mismatch : matchMultiminer text = none)
  | range (text : String) (groups : List Char × Option (List Char) × List Char)
      (start stop total : Int) (given : args.multiminer = some text)
      (matched : matchMultiminer text = some groups)
      (numbers : multiminerRange groups = .ok (start, stop, total))
      (inconsistent : stop < start ∨ start ≤ 0 ∨ total < stop ∨ total = 0)
  | maxInterval (small : args.maxInterval < 960)
      (short : forall text groups, args.multiminer = some text ->
        matchMultiminer text = some groups -> ShortNumbers groups)

/-- The options that the code behind the checks works with are there, and the
pool id of options that no check refuses is a text. -/
structure Supplied (args : GenerateArgs) : Prop where
  target : args.setBlockTime ≠ none -> args.multiminer = none -> 960 ≤ args.maxInterval ->
    args.minNbits = true ∨ Exists fun text => args.nbits = some text ∧ text ≠ ""
  range : args.ongoing = true ->
    args.minNbits = true ∨ args.nbits.map String.length = some 8 ->
      forall text groups, args.multiminer = some text -> matchMultiminer text = some groups ->
        ShortNumbers groups
  pool : ¬ OptionsRefused args -> forall text, args.poolid = some text ->
    forall byte, .surrogate byte ∉ text

/-! ## Single options -/

theorem intFromDecimals_isOk_iff {digits : List Char} :
    (Exists fun value => intFromDecimals digits = .ok value) <->
      digits.length ≤ maxStrDigits := by
  unfold intFromDecimals
  constructor
  · rintro ⟨value, run⟩
    split at run
    · cases run
    · next short => exact not_lt.mp short
  · intro short
    rw [if_neg (not_lt.mpr short)]
    exact ⟨_, rfl⟩

theorem multiminerRange_isOk_iff {groups : List Char × Option (List Char) × List Char} :
    (Exists fun range => multiminerRange groups = .ok range) <-> ShortNumbers groups := by
  simp only [multiminerRange, bind_eq_ok, ShortNumbers, ← intFromDecimals_isOk_iff]
  constructor
  · rintro ⟨range, start, first, stop, second, total, third, -⟩
    exact ⟨⟨start, first⟩, ⟨stop, second⟩, ⟨total, third⟩⟩
  · rintro ⟨⟨start, first⟩, ⟨stop, second⟩, ⟨total, third⟩⟩
    exact ⟨(start, stop, total), start, first, stop, second, total, third, rfl⟩

/-- The range of a miner is refused, accepted, or has too many digits. -/
theorem myBlocks_isOk_iff {args : GenerateArgs} :
    (Exists fun check => myBlocks args = .ok check) <->
      (args.ongoing = true -> forall text groups, args.multiminer = some text ->
        matchMultiminer text = some groups -> ShortNumbers groups) := by
  unfold myBlocks
  cases given : args.multiminer with
  | none =>
      constructor
      · intro _ _ text groups impossible
        cases impossible
      · intro _
        exact ⟨_, rfl⟩
  | some text =>
      dsimp only
      split
      · next single =>
          constructor
          · intro _ ongoing
            rw [single] at ongoing
            cases ongoing
          · intro _
            exact ⟨_, rfl⟩
      · next ongoing =>
          cases matched : matchMultiminer text with
          | none =>
              constructor
              · intro _ _ other groups same found
                cases same
                rw [matched] at found
                cases found
              · intro _
                exact ⟨_, rfl⟩
          | some groups =>
              constructor
              · rintro ⟨check, run⟩ _ other groups' same found
                cases same
                rw [matched] at found
                cases found
                rcases bind_eq_ok.mp run with ⟨range, ints, -⟩
                exact multiminerRange_isOk_iff.mp ⟨range, ints⟩
              · intro short
                have fits := short (by simpa using ongoing) text groups rfl matched
                rcases multiminerRange_isOk_iff.mpr fits with ⟨⟨start, stop, total⟩, ints⟩
                dsimp only
                rw [ints]
                simp only [bind, Except.bind]
                split <;> exact ⟨_, rfl⟩

theorem parseNbits_isOk_iff {args : GenerateArgs} (admitted : Admitted args) :
    (Exists fun nbits => parseNbits (chosenNbits args) = .ok nbits) <->
      args.minNbits = true ∨ Exists fun text => args.nbits = some text ∧ text ≠ "" := by
  unfold chosenNbits
  split
  · next least =>
      constructor
      · intro _
        exact Or.inl least
      · intro _
        exact ⟨0x1e0377ae, by decide +kernel⟩
  · next chosen =>
      cases given : args.nbits with
      | none =>
          constructor
          · rintro ⟨nbits, impossible⟩
            cases impossible
          · rintro (least | ⟨text, impossible, -⟩)
            · exact absurd least chosen
            · cases impossible
      | some text =>
          constructor
          · rintro ⟨nbits, run⟩
            refine Or.inr ⟨text, rfl, ?_⟩
            intro empty
            subst empty
            cases run
          · rintro (least | ⟨other, same, nonempty⟩)
            · exact absurd least chosen
            · cases same
              have digits : text.toList ≠ [] := by
                intro empty
                exact nonempty (String.toList_inj.mp empty)
              rcases intFromHex_of_digits digits (admitted.nbits text given)
                with ⟨value, parsed, -⟩
              exact ⟨value, parsed⟩

theorem parseNversion_isOk {args : GenerateArgs} (admitted : Admitted args) :
    Exists fun nversion => parseNversion args.nversion = .ok nversion := by
  cases given : args.nversion with
  | none => exact ⟨none, rfl⟩
  | some text =>
      rcases admitted.nversion text given with ⟨value, parsed⟩
      exact ⟨some value, bind_eq_ok.mpr ⟨value, parsed, rfl⟩⟩

/-- A pool id can be encoded if it is a text. -/
theorem getPoolid_isOk_iff {args : GenerateArgs} :
    (Exists fun poolid => getPoolid args = .ok poolid) <->
      forall text, args.poolid = some text -> forall byte, .surrogate byte ∉ text := by
  unfold getPoolid
  cases args.poolid with
  | none =>
      constructor
      · intro _ text impossible
        cases impossible
      · intro _
        cases args.poolnum <;> exact ⟨_, rfl⟩
  | some text =>
      constructor
      · rintro ⟨poolid, run⟩ other same
        cases same
        rcases bind_eq_ok.mp run with ⟨bytes, encoded, -⟩
        exact encodeUtf8_isOk_iff.mp ⟨bytes, encoded⟩
      · intro plain
        rcases encodeUtf8_isOk_iff.mpr (plain text rfl) with ⟨bytes, encoded⟩
        exact ⟨_, bind_eq_ok.mpr ⟨bytes, encoded, rfl⟩⟩

/-! ## All options -/

/-- Some target was selected: `--nbits` of eight digits or `--min-nbits`. -/
theorem selected_iff {args : GenerateArgs} :
    (chosenNbits args).map String.length = some 8 <->
      args.minNbits = true ∨ args.nbits.map String.length = some 8 := by
  unfold chosenNbits
  split
  · next least =>
      constructor
      · intro _
        exact Or.inl least
      · intro _
        exact (by decide +kernel : (some "1e0377ae").map String.length = some 8)
  · next chosen =>
      constructor
      · intro length
        exact Or.inr length
      · rintro (least | length)
        · exact absurd least chosen
        · exact length

/-- Only a miner of an ongoing run may have a range. -/
theorem multiminer_of_passed {args : GenerateArgs} {range : Int × Int × Int}
    (run : myBlocks args = .ok (.passed range)) (single : args.ongoing = false) :
    args.multiminer = none := by
  cases given : args.multiminer with
  | none => rfl
  | some text =>
      unfold myBlocks at run
      rw [given] at run
      dsimp only at run
      rw [if_pos single] at run
      cases run

/-- An accepted range comes from no option that is refused. -/
theorem consistent_of_passed {args : GenerateArgs} {range : Int × Int × Int}
    (run : myBlocks args = .ok (.passed range)) :
    (args.multiminer ≠ none -> args.ongoing = true) ∧
      forall text, args.multiminer = some text -> Exists fun groups => Exists fun start =>
        Exists fun stop => Exists fun total => matchMultiminer text = some groups ∧
          multiminerRange groups = .ok (start, stop, total) ∧
          ¬ (stop < start ∨ start ≤ 0 ∨ total < stop ∨ total = 0) := by
  constructor
  · intro given
    by_contra single
    exact given (multiminer_of_passed run (Bool.eq_false_of_not_eq_true single))
  · intro text given
    unfold myBlocks at run
    rw [given] at run
    dsimp only at run
    split at run
    · cases run
    · split at run
      · cases run
      · next groups matched =>
          rcases bind_eq_ok.mp run with ⟨⟨start, stop, total⟩, numbers, checked⟩
          dsimp only at checked
          split at checked
          · cases checked
          · next consistent =>
              exact ⟨groups, start, stop, total, matched, numbers, consistent⟩

/-! ## What is refused -/

theorem refused_of_maxBlocks {args : GenerateArgs} {message : String}
    (run : maxBlocks args = .refused message) : OptionsRefused args := by
  unfold maxBlocks at run
  split at run
  · cases run
  · next unset =>
      split at run
      · next blocks given =>
          split at run
          · next small =>
              exact .maxBlocks (Option.not_isSome_iff_eq_none.mp unset) blocks given small
          · cases run
      · cases run

theorem refused_of_myBlocks {args : GenerateArgs} {message : String}
    (run : myBlocks args = .ok (.refused message)) : OptionsRefused args := by
  unfold myBlocks at run
  split at run
  · cases run
  · next text given =>
      split at run
      · next single => exact .alone (by rw [given]; exact Option.some_ne_none text) single
      · split at run
        · next mismatch => exact .pattern text given mismatch
        · next groups matched =>
            rcases bind_eq_ok.mp run with ⟨⟨start, stop, total⟩, numbers, checked⟩
            dsimp only at checked
            split at checked
            · next inconsistent =>
                exact .range text groups start stop total given matched numbers inconsistent
            · cases checked

/-- An option set that no check turns away has no option that is refused. -/
theorem not_refused_of_passed {args : GenerateArgs} {blocks : Option Int} {range : Int × Int × Int}
    (counted : maxBlocks args = .passed blocks)
    (selected : ¬ (args.setBlockTime = none ∧ (chosenNbits args).map String.length ≠ some 8))
    (blocked : myBlocks args = .ok (.passed range)) (enough : ¬ args.maxInterval < 960) :
    ¬ OptionsRefused args := by
  intro refused
  have consistent := consistent_of_passed blocked
  cases refused with
  | maxBlocks unset blocks given small =>
      rw [maxBlocks, unset, given] at counted
      dsimp only [Option.isSome] at counted
      rw [if_neg (by decide), if_pos small] at counted
      cases counted
  | nbits unset missing => exact selected ⟨unset, missing⟩
  | alone given single =>
      rw [consistent.1 given] at single
      cases single
  | pattern text given mismatch =>
      rcases consistent.2 text given with ⟨groups, -, -, -, matched, -, -⟩
      rw [mismatch] at matched
      cases matched
  | range text groups start stop total given matched numbers inconsistent =>
      rcases consistent.2 text given with ⟨groups', start', stop', total', matched', numbers',
        bounds⟩
      rw [matched] at matched'
      cases matched'
      rw [numbers] at numbers'
      cases numbers'
      exact bounds inconsistent
  | maxInterval small short => exact enough small

theorem setupGenerate_refused_iff {args : GenerateArgs} {clock : ℚ}
    {check : Check (Generate × Option Int)} (run : setupGenerate args clock = .ok check) :
    (Exists fun message => check = .refused message) <-> OptionsRefused args := by
  unfold setupGenerate at run
  cases counted : maxBlocks args with
  | refused message =>
      rw [counted] at run
      cases run
      constructor
      · intro _
        exact refused_of_maxBlocks counted
      · intro _
        exact ⟨message, rfl⟩
  | passed blocks =>
      rw [counted] at run
      dsimp only at run
      split at run
      · next unselected =>
          cases run
          constructor
          · intro _
            exact .nbits unselected.1 unselected.2
          · intro _
            exact ⟨_, rfl⟩
      · next selected =>
          rcases bind_eq_ok.mp run with ⟨ranged, blocked, rest⟩
          cases ranged with
          | refused message =>
              cases rest
              constructor
              · intro _
                exact refused_of_myBlocks blocked
              · intro _
                exact ⟨message, rfl⟩
          | passed range =>
              rcases range with ⟨low, high, period⟩
              dsimp only at rest
              have consistent := consistent_of_passed blocked
              split at rest
              · next small =>
                  cases rest
                  constructor
                  · intro _
                    refine .maxInterval small ?_
                    intro text groups given matched
                    rcases consistent.2 text given with ⟨groups', start, stop, total, matched',
                      numbers, -⟩
                    rw [matched] at matched'
                    cases matched'
                    exact multiminerRange_isOk_iff.mp ⟨_, numbers⟩
                  · intro _
                    exact ⟨_, rfl⟩
              · next enough =>
                  simp only [bind_eq_ok] at rest
                  rcases rest with ⟨poolid, -, nbits, -, nversion, -, assembled⟩
                  cases assembled
                  constructor
                  · rintro ⟨message, impossible⟩
                    cases impossible
                  · intro refused
                    exact absurd refused (not_refused_of_passed counted selected blocked enough)

/-! ## What is accepted -/

/-- What is accepted satisfies the bounds the checks are there for. -/
theorem bounds_of_setupGenerate {args : GenerateArgs} {clock : ℚ} {gen : Generate}
    {blocks : Option Int} (run : setupGenerate args clock = .ok (.passed (gen, blocks))) :
    0 ≤ gen.multiLow ∧ gen.multiLow < gen.multiHigh ∧ gen.multiHigh ≤ gen.multiPeriod ∧
      960 ≤ gen.maxInterval := by
  have ready := readyOf_setupGenerate run
  have interval : 960 ≤ gen.maxInterval := by
    rw [ready.maxInterval.2]
    exact ready.maxInterval.1
  cases given : args.multiminer with
  | none =>
      have range := ready.myBlocks
      rw [myBlocks, given] at range
      have same := Check.passed.inj (Except.ok.inj range)
      have low := congrArg Prod.fst same
      have high := congrArg (fun range => range.2.1) same
      have period := congrArg (fun range => range.2.2) same
      dsimp only at low high period
      exact ⟨by omega, by omega, by omega, interval⟩
  | some text =>
      rcases passed_of_myBlocks given ready.myBlocks with ⟨-, start, -, -, low, positive, ordered,
        within⟩
      exact ⟨by omega, by omega, by omega, interval⟩

/-- Without an exception, an option set that has a target, short numbers and a pool
id that is a text is refused or accepted. -/
theorem setupGenerate_isOk {args : GenerateArgs} (clock : ℚ) (admitted : Admitted args)
    (supplied : Supplied args) : Exists fun check => setupGenerate args clock = .ok check := by
  unfold setupGenerate
  cases counted : maxBlocks args with
  | refused message => exact ⟨_, rfl⟩
  | passed blocks =>
      dsimp only
      split
      · exact ⟨_, rfl⟩
      · next selected =>
          have target : args.setBlockTime = none ->
              args.minNbits = true ∨ args.nbits.map String.length = some 8 := by
            intro unset
            apply selected_iff.mp
            by_contra other
            exact selected ⟨unset, other⟩
          have ranged : Exists fun check => myBlocks args = .ok check := by
            apply myBlocks_isOk_iff.mpr
            intro ongoing
            exact supplied.range ongoing (target (admitted.ongoing ongoing).2)
          rcases ranged with ⟨check, ranged⟩
          rw [ranged]
          simp only [bind, Except.bind]
          cases check with
          | refused message => exact ⟨_, rfl⟩
          | passed range =>
              rcases range with ⟨low, high, period⟩
              dsimp only
              split
              · exact ⟨_, rfl⟩
              · next enough =>
                  have parsed : Exists fun nbits => parseNbits (chosenNbits args) = .ok nbits := by
                    apply (parseNbits_isOk_iff admitted).mpr
                    by_cases unset : args.setBlockTime = none
                    · rcases target unset with least | length
                      · exact Or.inl least
                      · rcases Option.map_eq_some_iff.mp length with ⟨text, given, eight⟩
                        refine Or.inr ⟨text, given, ?_⟩
                        intro empty
                        subst empty
                        exact absurd eight (by decide)
                    · have single : args.ongoing = false := by
                        apply Bool.eq_false_of_not_eq_true
                        intro ongoing
                        exact unset (admitted.ongoing ongoing).2
                      exact supplied.target unset (multiminer_of_passed ranged single)
                        (not_lt.mp enough)
                  rcases parsed with ⟨nbits, parsed⟩
                  rcases parseNversion_isOk admitted with ⟨nversion, version⟩
                  rcases getPoolid_isOk_iff.mpr (supplied.pool
                    (not_refused_of_passed counted selected ranged enough)) with ⟨poolid, pool⟩
                  rw [pool, parsed, version]
                  exact ⟨_, rfl⟩

/-- The checks of `generate` end without an exception exactly when the options
that the code behind them works with are there. -/
theorem validates_iff {args : GenerateArgs} (clock : ℚ) (admitted : Admitted args) :
    Validates (setupGenerate args clock) <-> Supplied args := by
  constructor
  · rintro ⟨check, run, -⟩
    have refusal := setupGenerate_refused_iff run
    have accepted := @readyOf_setupGenerate args clock
    rw [run] at accepted
    unfold setupGenerate at run
    constructor
    · intro set alone interval
      have counted : maxBlocks args = .passed (some 1) := if_pos (Option.isSome_iff_ne_none.mpr set)
      have range : myBlocks args = .ok (.passed (0, 1, 1)) := by
        rw [myBlocks, alone]
        rfl
      rw [counted] at run
      dsimp only at run
      rw [if_neg (fun unset => set unset.1), range] at run
      simp only [bind, Except.bind] at run
      rw [if_neg (not_lt.mpr interval)] at run
      rcases bind_eq_ok.mp run with ⟨poolid, -, rest⟩
      rcases bind_eq_ok.mp rest with ⟨nbits, parsed, -⟩
      exact (parseNbits_isOk_iff admitted).mp ⟨nbits, parsed⟩
    · intro ongoing target
      have given := admitted.ongoing ongoing
      have counted : maxBlocks args = .passed none := by
        rw [maxBlocks, given.1, given.2, ongoing]
        rfl
      rw [counted] at run
      dsimp only at run
      rw [if_neg (fun missing => missing.2 (selected_iff.mpr target))] at run
      rcases bind_eq_ok.mp run with ⟨range, ranged, -⟩
      exact myBlocks_isOk_iff.mp ⟨range, ranged⟩ ongoing
    · intro notRefused
      cases check with
      | refused message => exact absurd (refusal.mp ⟨message, rfl⟩) notRefused
      | passed value =>
          rcases value with ⟨gen, blocks⟩
          exact getPoolid_isOk_iff.mp ⟨_, (accepted rfl).poolid⟩
  · intro supplied
    rcases setupGenerate_isOk clock admitted supplied with ⟨check, run⟩
    refine ⟨check, run, ?_⟩
    intro gen blocks passed
    rw [passed] at run
    exact bounds_of_setupGenerate run

/-- `generate --set-block-time 0` with an address. -/
def noTarget : GenerateArgs where
  setBlockTime := some 0
  address := some "tb1"

theorem admitted_noTarget : Admitted noTarget where
  ongoing := fun impossible => nomatch impossible
  howmany := Or.inl rfl
  nbitTarget := fun _ => rfl
  payto := rfl
  pool := Or.inl rfl
  nversion := fun _ impossible => nomatch impossible
  nbits := fun _ impossible => nomatch impossible

theorem setupGenerate_noTarget :
    Admitted noTarget ∧ setupGenerate noTarget 0 = .error .typeError ∧
      ¬ Validates (setupGenerate noTarget 0) := by
  refine ⟨admitted_noTarget, rfl, ?_⟩
  rintro ⟨check, run, -⟩
  cases run

theorem validates_iff_noTarget :
    Validates (setupGenerate noTarget 0) <-> Supplied noTarget :=
  validates_iff 0 admitted_noTarget

end Miner
end MutinyNet
