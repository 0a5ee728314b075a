import MutinyNet.Codec.Positional

namespace MutinyNet
namespace Mine

open Codec

/-!
# Waiting for the tip of the chain

`mine.sh` starts its loop when `wait_chain_sync.sh` has ended with zero.  The
script asks the node for the time of its tip again and again; every answer may
be an error or not what was expected, and each of these cases is a branch of its
own.  It compares 64-bit integers that the shell reads from texts, in octal where
a text starts with a zero, so what it computes is related to the numbers the
texts show.

The age that `mine.sh` hands over is an argument nothing reads.
-/

/-- What one attempt is answered: the output of each call where it succeeds, the
clock as `date +%s` prints it, and whether `sleep` ended with zero. -/
structure Attempt where
  getblockcount : Option (List Char)
  getblockhash : List Char -> Option (List Char)
  getblock : List Char -> Option (List (List Char))
  date : Option Int64
  slept : Bool

/-- `MAX_AGE`. -/
def maxAge : Int64 := 7200

/-! ## Texts and numbers of the shell -/

/-- `awk '{print $2}'` for one line. -/
def secondField (line : List Char) : List Char :=
  ((line.splitOnP fun char => char = ' ' || char = '\t').filter (· ≠ [])).getD 1 []

/-- `grep '"time"' | awk '{print $2}' | sed 's/,//g'`, captured; under `pipefail`
the pipeline fails where no line is found. -/
def timestampField (block : List (List Char)) : Option (List Char) :=
  let found := block.filter fun line => ['"', 't', 'i', 'm', 'e', '"'] <:+: line
  if found = [] then none
  else
    let output := found.map fun line => (secondField line).filter (· ≠ ',')
    some ((['\n'].intercalate output).rdropWhile (· = '\n'))

/-- `[[ "$text" =~ ^[0-9]+$ ]]`. -/
def isNumber (text : List Char) : Bool :=
  text ≠ [] && text.all fun char => '0' ≤ char && char ≤ '9'

/-- The value of a text of decimal digits in a base. -/
def valueIn (base : Nat) (text : List Char) : Nat :=
  ofBigEndian base (text.map fun char => char.toNat - '0'.toNat)

/-- An integer constant of a shell expression: a zero in front makes it octal,
an 8 or a 9 in an octal constant is an error, and large ones wrap around. -/
def constant (text : List Char) : Option Int64 :=
  match text with
  | '0' :: rest =>
      if rest.all fun char => decide (char < '8') then some (Int64.ofNat (valueIn 8 rest)) else none
  | _ => some (Int64.ofNat (valueIn 10 text))

/-! ## The two scripts -/

/-- `get_latest_block_timestamp`. -/
def getLatestBlockTimestamp (attempt : Attempt) : Option (List Char) := do
  let count ← attempt.getblockcount
  let hash ← attempt.getblockhash count
  let block ← attempt.getblock hash
  let timestamp ← timestampField block
  if isNumber timestamp then some timestamp else none

/-- `check_block_recency`: its status, or none where an expression that cannot
be evaluated ends the script. -/
def checkBlockRecency (attempt : Attempt) : Option Bool :=
  match getLatestBlockTimestamp attempt with
  | none => some false
  | some timestamp =>
      match attempt.date with
      | none => some false
      | some currentTime =>
          match constant timestamp with
          | none => none
          | some value =>
              let timeDiff := currentTime - value
              some (decide (timeDiff ≤ maxAge))

/-- `wait_chain_sync.sh`: the status it has ended with after some attempts, if it
has ended. -/
def waitChainSync (arguments : List Int) : List Attempt -> Option Nat
  | [] => none
  | attempt :: attempts =>
      match checkBlockRecency attempt with
      | none => some 1
      | some true => some 0
      | some false => if attempt.slept then waitChainSync arguments attempts else some 1

/-- Where `mine.sh` is: before its loop, in it, or ended by `errexit`. -/
inductive Phase where
  | waiting
  | mining
  | ended
  deriving DecidableEq, Repr

/-- `mine.sh` up to its loop. -/
def mine (chainTipAge : Int) (attempts : List Attempt) : Phase :=
  match waitChainSync [chainTipAge] attempts with
  | none => .waiting
  | some status => if status = 0 then .mining else .ended

/-! ## What the script computes -/

/-- A wrapped number is not above the number, and negative only for large ones. -/
theorem toInt_ofNat_spec (number : Nat) :
    (Int64.ofNat number).toInt ≤ number ∧
      ((Int64.ofNat number).toInt < 0 -> 2 ^ 63 ≤ (number : Int)) := by
  have size : ((Int64.size : Nat) : Int) = 2 ^ 64 := rfl
  rw [Int64.toInt_ofNat', Int.bmod_def, size]
  split <;> constructor <;> omega

/-- The value of a constant is not above the number its digits show in decimal. -/
theorem constant_spec {text : List Char} {value : Int64} (read : constant text = some value) :
    value.toInt ≤ valueIn 10 text ∧ (value.toInt < 0 -> 2 ^ 63 ≤ (valueIn 10 text : Int)) := by
  unfold constant at read
  split at read
  · next rest =>
      split at read
      · cases read
        have shown : valueIn 10 ('0' :: rest) = valueIn 10 rest := by
          simp [valueIn, ofBigEndian]
        have octal : valueIn 8 rest ≤ valueIn 10 rest := ofBigEndian_mono (by decide) _
        have wrapped := toInt_ofNat_spec (valueIn 8 rest)
        rw [shown]
        constructor <;> omega
      · cases read
  · cases read
    exact toInt_ofNat_spec _

/-- Where the difference does not look larger than the limit, it is not: it can
only have wrapped around from far below. -/
theorem difference_le {now value : Int64} {shown : Int}
    (spec : value.toInt ≤ shown ∧ (value.toInt < 0 -> 2 ^ 63 ≤ shown))
    (recent : now - value ≤ maxAge) : now.toInt - shown ≤ 7200 := by
  have limit : (now - value).toInt ≤ 7200 := Int64.le_iff_toInt_le.mp recent
  have above := Int64.toInt_lt now
  have size : (2 ^ 64 : Nat) = 18446744073709551616 := rfl
  rw [Int64.toInt_sub, Int.bmod_def, size] at limit
  by_cases negative : value.toInt < 0
  · have far := spec.2 negative
    omega
  · split at limit <;> omega

/-! ## Fresh tips -/

/-- Every call of an attempt succeeded, the block has a time, and by the clock that
time is at most `age` seconds ago. -/
structure Fresh (age : Int) (attempt : Attempt) (count hash : List Char)
    (block : List (List Char)) (timestamp : List Char) (now : Int64) : Prop where
  getblockcount : attempt.getblockcount = some count
  getblockhash : attempt.getblockhash count = some hash
  getblock : attempt.getblock hash = some block
  field : timestampField block = some timestamp
  number : isNumber timestamp = true
  date : attempt.date = some now
  recent : now.toInt - valueIn 10 timestamp ≤ age

/-- An attempt found a tip that is at most `age` seconds old. -/
def FoundFresh (age : Int) (attempt : Attempt) : Prop :=
  Exists fun count => Exists fun hash => Exists fun block => Exists fun timestamp =>
    Exists fun now => Fresh age attempt count hash block timestamp now

theorem getLatestBlockTimestamp_eq_some {attempt : Attempt} {timestamp : List Char}
    (read : getLatestBlockTimestamp attempt = some timestamp) :
    Exists fun count => Exists fun hash => Exists fun block =>
      attempt.getblockcount = some count ∧ attempt.getblockhash count = some hash ∧
        attempt.getblock hash = some block ∧ timestampField block = some timestamp ∧
        isNumber timestamp = true := by
  simp only [getLatestBlockTimestamp, Option.bind_eq_bind, Option.bind_eq_some_iff] at read
  rcases read with ⟨count, counted, hash, hashed, block, given, field, found, checked⟩
  split at checked
  · next number =>
      cases checked
      exact ⟨count, hash, block, counted, hashed, given, found, number⟩
  · cases checked

/-- No branch of the two functions leaks success: an attempt that passes found a
tip within the limit of the script. -/
theorem foundFresh_of_recent {attempt : Attempt} (passed : checkBlockRecency attempt = some true) :
    FoundFresh 7200 attempt := by
  unfold checkBlockRecency at passed
  split at passed
  · cases passed
  · next timestamp read =>
      split at passed
      · cases passed
      · next now clock =>
          split at passed
          · cases passed
          · next value evaluated =>
              have within : now - value ≤ maxAge := of_decide_eq_true (Option.some.inj passed)
              rcases getLatestBlockTimestamp_eq_some read with
                ⟨count, hash, block, counted, hashed, given, found, number⟩
              have recent := difference_le (constant_spec evaluated) within
              exact ⟨count, hash, block, timestamp, now, counted, hashed, given, found, number,
                clock, recent⟩

/-! ## Runs -/

/-- A script that has not ended goes on with the later attempts. -/
theorem waitChainSync_append {arguments : List Int} {before : List Attempt}
    (waiting : waitChainSync arguments before = none) (later : List Attempt) :
    waitChainSync arguments (before ++ later) = waitChainSync arguments later := by
  induction before with
  | nil => rfl
  | cons attempt before inductionHypothesis =>
      rw [waitChainSync] at waiting
      rw [List.cons_append, waitChainSync]
      split at waiting
      · cases waiting
      · cases waiting
      · split at waiting
        · next slept =>
            rw [if_pos slept]
            exact inductionHypothesis waiting
        · cases waiting

/-- `mine.sh` starts to mine only right behind an attempt that passed. -/
theorem recent_of_mining {chainTipAge : Int} {before : List Attempt} {attempt : Attempt}
    (waiting : mine chainTipAge before = .waiting)
    (mining : mine chainTipAge (before ++ [attempt]) = .mining) :
    checkBlockRecency attempt = some true := by
  have running : waitChainSync [chainTipAge] before = none := by
    unfold mine at waiting
    split at waiting
    · assumption
    · split at waiting <;> cases waiting
  rw [mine, waitChainSync_append running, waitChainSync] at mining
  cases checked : checkBlockRecency attempt with
  | none =>
      rw [checked] at mining
      cases mining
  | some recent =>
      cases recent with
      | true => rfl
      | false =>
          rw [checked] at mining
          cases slept : attempt.slept with
          | true =>
              rw [slept] at mining
              cases mining
          | false =>
              rw [slept] at mining
              cases mining

theorem FoundFresh.mono {age age' : Int} {attempt : Attempt} (found : FoundFresh age attempt)
    (le : age ≤ age') : FoundFresh age' attempt := by
  rcases found with ⟨count, hash, block, timestamp, now, fresh⟩
  exact ⟨count, hash, block, timestamp, now,
    { fresh with recent := le_trans fresh.recent le }⟩

/-- A node whose tip is two hours old. -/
def twoHours : Attempt where
  getblockcount := some ['7']
  getblockhash := fun _ => some ['a', 'b']
  getblock := fun _ => some ["  \"height\": 7,".toList, "  \"time\": 1700000000,".toList]
  date := some 1700007200
  slept := true

theorem not_foundFresh_twoHours {age : Int} (less : age < 7200) : ¬ FoundFresh age twoHours := by
  rintro ⟨count, hash, block, timestamp, now, fresh⟩
  have given := fresh.getblock
  have clock := fresh.date
  cases given
  cases clock
  have read : timestampField ["  \"height\": 7,".toList, "  \"time\": 1700000000,".toList] =
      some "1700000000".toList := by
    decide +kernel
  have same := Option.some.inj (read.symm.trans fresh.field)
  have recent := fresh.recent
  rw [← same] at recent
  have shown : valueIn 10 "1700000000".toList = 1700000000 := by decide +kernel
  have reading : (1700007200 : Int64).toInt = 1700007200 := by decide +kernel
  rw [shown, reading] at recent
  omega

/-- `mine.sh` leaves its waiting phase only behind an attempt that found a tip of
the configured age, for every sequence of attempts, exactly where the configured
age is at least the two hours of the script. -/
theorem waits_iff (chainTipAge : Int) :
    (forall (before : List Attempt) (attempt : Attempt), mine chainTipAge before = .waiting ->
      mine chainTipAge (before ++ [attempt]) = .mining -> FoundFresh chainTipAge attempt) <->
      7200 ≤ chainTipAge := by
  constructor
  · intro waits
    by_contra less
    have found := waits [] twoHours rfl (by rw [List.nil_append]; rfl)
    exact not_foundFresh_twoHours (not_le.mp less) found
  · intro enough before attempt waiting mining
    exact (foundFresh_of_recent (recent_of_mining waiting mining)).mono enough

/-- With an age of ten minutes, mining starts on a tip that is two hours old. -/
theorem stale_tip_mined :
    mine 600 [] = .waiting ∧ mine 600 [twoHours] = .mining ∧ ¬ FoundFresh 600 twoHours :=
  ⟨rfl, rfl, not_foundFresh_twoHours (by decide)⟩

end Mine
end MutinyNet
