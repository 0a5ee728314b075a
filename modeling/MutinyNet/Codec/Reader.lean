import MutinyNet.Codec.LittleEndian

namespace MutinyNet
namespace Codec

/-!
# Sequential readers and what they read back

A reader takes the remaining bytes and returns a value with what it left
unread, or fails.  `ReadsBack reader written value` is the one property the
development composes: after the string `written`, whatever follows it, the
reader returns exactly `value` and stops exactly behind `written`.  The rules
below follow the shape of a reader: a sequence of readers reads back the
concatenation of their strings, and a repeated reader reads back a flattened
list of strings.

Nothing here asks a reader to reject anything.  Readers of untrusted input may
accept a short string; such a reader simply reads back fewer strings.
-/

abbrev Reader (Err A : Type) := StateT Bytes (Except Err) A

variable {Err A B : Type}

theorem bind_eq_ok {first : Except Err A} {next : A -> Except Err B} {result : B} :
    (first >>= next) = .ok result <->
      Exists fun value => first = .ok value ∧ next value = .ok result := by
  cases first with
  | error err =>
      constructor
      · intro impossible
        cases impossible
      · rintro ⟨value, impossible, -⟩
        cases impossible
  | ok value =>
      constructor
      · intro run
        exact ⟨value, rfl, run⟩
      · rintro ⟨other, same, run⟩
        cases same
        exact run

theorem exists_of_isOk {run : Except Err A} (success : run.isOk = true) :
    Exists fun value => run = .ok value := by
  cases run with
  | error err => cases success
  | ok value => exact ⟨value, rfl⟩

theorem length_of_mapM {next : A -> Except Err B} {items : List A} {results : List B}
    (run : items.mapM next = .ok results) : results.length = items.length := by
  induction items generalizing results with
  | nil =>
      cases run
      rfl
  | cons item items inductionHypothesis =>
      simp only [List.mapM_cons, bind_eq_ok] at run
      rcases run with ⟨first, -, later, rest, assembled⟩
      cases assembled
      rw [List.length_cons, List.length_cons, inductionHypothesis rest]

/-- After `written`, and before anything else, the reader returns `value`. -/
def ReadsBack (reader : Reader Err A) (written : Bytes) (value : A) : Prop :=
  forall rest, reader.run (written ++ rest) = .ok (value, rest)

theorem readsBack_pure (value : A) : ReadsBack (pure value : Reader Err A) [] value :=
  fun _ => rfl

namespace ReadsBack

variable {reader : Reader Err A} {written : Bytes} {value : A}

theorem bind {next : A -> Reader Err B} {later : Bytes} {result : B}
    (first : ReadsBack reader written value) (second : ReadsBack (next value) later result) :
    ReadsBack (reader >>= next) (written ++ later) result := by
  intro rest
  rw [StateT.run_bind, List.append_assoc, first (later ++ rest)]
  exact second rest

/-- The last step of a reader that assembles its fields. -/
theorem last (first : ReadsBack reader written value) (assemble : A -> B) :
    ReadsBack (reader >>= fun field => pure (assemble field)) written (assemble value) := by
  have assembled : ReadsBack (reader >>= fun field => pure (assemble field)) (written ++ [])
      (assemble value) := first.bind (readsBack_pure (assemble value))
  rwa [List.append_nil] at assembled

theorem congr {other : Bytes} (read : ReadsBack reader written value) (same : written = other) :
    ReadsBack reader other value :=
  same ▸ read

theorem run_exact (read : ReadsBack reader written value) :
    reader.run written = .ok (value, []) := by
  have exactly := read []
  rwa [List.append_nil] at exactly

/-- A reader determines the value and the remainder from the whole stream. -/
theorem frame {written' : Bytes} {value' : A} {rest rest' : Bytes}
    (read : ReadsBack reader written value) (read' : ReadsBack reader written' value')
    (same : written ++ rest = written' ++ rest') : value = value' ∧ rest = rest' := by
  have first := read rest
  rw [same, read' rest'] at first
  cases first
  exact ⟨rfl, rfl⟩

theorem value_unique {value' : A} (read : ReadsBack reader written value)
    (read' : ReadsBack reader written value') : value = value' :=
  (read.frame read' (rfl : written ++ [] = written ++ [])).1

end ReadsBack

/-- A computation that reads nothing. -/
def attempt (result : Except Err A) : Reader Err A :=
  fun bytes => result.map fun value => (value, bytes)

theorem readsBack_attempt {result : Except Err A} {value : A} (success : result = .ok value) :
    ReadsBack (attempt result) [] value := by
  subst success
  exact fun _ => rfl

/-! ## Runs of a composed reader -/

theorem run_bind_eq_ok {reader : Reader Err A} {next : A -> Reader Err B} {bytes rest : Bytes}
    {result : B} : (reader >>= next).run bytes = .ok (result, rest) <->
      Exists fun value => Exists fun behind => reader.run bytes = .ok (value, behind) ∧
        (next value).run behind = .ok (result, rest) := by
  rw [StateT.run_bind, bind_eq_ok]
  constructor
  · rintro ⟨⟨value, behind⟩, first, second⟩
    exact ⟨value, behind, first, second⟩
  · rintro ⟨value, behind, first, second⟩
    exact ⟨(value, behind), first, second⟩

theorem run_attempt_eq_ok {result : Except Err A} {bytes rest : Bytes} {value : A} :
    (attempt result).run bytes = .ok (value, rest) <-> result = .ok value ∧ rest = bytes := by
  cases result with
  | error err =>
      constructor
      · intro impossible
        cases impossible
      · rintro ⟨impossible, -⟩
        cases impossible
  | ok returned =>
      constructor
      · intro run
        cases run
        exact ⟨rfl, rfl⟩
      · rintro ⟨same, unread⟩
        cases same
        cases unread
        rfl

theorem run_pure_eq_ok {bytes rest : Bytes} {value returned : A} :
    (pure returned : Reader Err A).run bytes = .ok (value, rest) <->
      value = returned ∧ rest = bytes := by
  constructor
  · intro run
    cases run
    exact ⟨rfl, rfl⟩
  · rintro ⟨same, unread⟩
    cases same
    cases unread
    rfl

/-! ## Bounded reads and repetition -/

/-- Take up to `count` bytes; a short stream gives a short result. -/
def readUpTo (count : Nat) : Reader Err Bytes :=
  fun bytes => .ok (bytes.take count, bytes.drop count)

theorem readsBack_readUpTo (written : Bytes) :
    ReadsBack (readUpTo written.length : Reader Err Bytes) written written := by
  intro rest
  change Except.ok ((written ++ rest).take written.length, (written ++ rest).drop written.length) = _
  rw [List.take_left, List.drop_left]

/-- Run a reader `count` times and collect the values in order. -/
def readMany (item : Reader Err A) : Nat -> Reader Err (List A)
  | 0 => pure []
  | count + 1 => do
      let value ← item
      let values ← readMany item count
      pure (value :: values)

theorem run_readMany_one_eq_ok {item : Reader Err A} {bytes rest : Bytes} {values : List A} :
    (readMany item 1).run bytes = .ok (values, rest) <->
      Exists fun value => item.run bytes = .ok (value, rest) ∧ values = [value] := by
  rw [readMany, run_bind_eq_ok]
  constructor
  · rintro ⟨value, behind, first, none⟩
    cases none
    exact ⟨value, first, rfl⟩
  · rintro ⟨value, first, one⟩
    exact ⟨value, rest, first, one ▸ rfl⟩

/-- Write the items one after another, failing with the first failure. -/
def writeMany (write : A -> Except Err Bytes) : List A -> Except Err Bytes
  | [] => pure []
  | item :: items => do
      let written ← write item
      let later ← writeMany write items
      pure (written ++ later)

theorem writeMany_cons_eq_ok {write : A -> Except Err Bytes} {item : A} {items : List A}
    {bytes : Bytes} :
    writeMany write (item :: items) = .ok bytes <->
      Exists fun written => Exists fun later =>
        write item = .ok written ∧ writeMany write items = .ok later ∧ bytes = written ++ later := by
  change (write item >>= fun written => writeMany write items >>= fun later =>
    Except.ok (written ++ later)) = .ok bytes <-> _
  simp only [bind_eq_ok]
  constructor
  · rintro ⟨written, first, later, second, assembled⟩
    cases assembled
    exact ⟨written, later, first, second, rfl⟩
  · rintro ⟨written, later, first, second, assembled⟩
    exact ⟨written, first, later, second, assembled ▸ rfl⟩

theorem writeMany_append_eq_ok {write : A -> Except Err Bytes} {items later : List A}
    {bytes : Bytes} (wrote : writeMany write (items ++ later) = .ok bytes) :
    Exists fun first => Exists fun second => writeMany write items = .ok first ∧
      writeMany write later = .ok second ∧ bytes = first ++ second := by
  induction items generalizing bytes with
  | nil => exact ⟨[], bytes, rfl, wrote, rfl⟩
  | cons item items inductionHypothesis =>
      rcases writeMany_cons_eq_ok.mp wrote with ⟨written, rest, head, tail, assembled⟩
      rcases inductionHypothesis tail with ⟨first, second, wroteFirst, wroteSecond, joined⟩
      refine ⟨written ++ first, second, writeMany_cons_eq_ok.mpr
        ⟨written, first, head, wroteFirst, rfl⟩, wroteSecond, ?_⟩
      rw [assembled, joined, List.append_assoc]

theorem writeMany_mem {write : A -> Except Err Bytes} {items : List A} {bytes : Bytes} {item : A}
    (wrote : writeMany write items = .ok bytes) (member : item ∈ items) :
    Exists fun written => write item = .ok written := by
  induction items generalizing bytes with
  | nil => cases member
  | cons head tail inductionHypothesis =>
      rcases writeMany_cons_eq_ok.mp wrote with ⟨written, later, first, second, -⟩
      rcases List.mem_cons.mp member with here | there
      · subst here
        exact ⟨written, first⟩
      · exact inductionHypothesis second there

/-- Items that are written alike are written alike one after another. -/
theorem writeMany_map {write : A -> Except Err Bytes} {change : A -> A}
    (same : forall item, write (change item) = write item) (items : List A) :
    writeMany write (items.map change) = writeMany write items := by
  induction items with
  | nil => rfl
  | cons item items inductionHypothesis =>
      rw [List.map_cons, writeMany, writeMany, same, inductionHypothesis]

theorem writeMany_of_forall₂ {write : A -> Except Err Bytes} {items : List A}
    {pieces : List Bytes}
    (each : List.Forall₂ (fun item piece => write item = .ok piece) items pieces) :
    writeMany write items = .ok pieces.flatten := by
  induction each with
  | nil => rfl
  | cons first _ inductionHypothesis =>
      exact writeMany_cons_eq_ok.mpr ⟨_, _, first, inductionHypothesis, rfl⟩

/-- A repeated write is read back item by item, up to the normal form in which
each item comes back. -/
theorem ReadsBack.many {write : A -> Except Err Bytes} {item : Reader Err A}
    {normal : A -> A} {items : List A} {bytes : Bytes}
    (each : forall value, value ∈ items -> forall written, write value = .ok written ->
      ReadsBack item written (normal value))
    (wrote : writeMany write items = .ok bytes) :
    ReadsBack (readMany item items.length) bytes (items.map normal) := by
  induction items generalizing bytes with
  | nil =>
      cases wrote
      exact readsBack_pure []
  | cons value values inductionHypothesis =>
      rcases writeMany_cons_eq_ok.mp wrote with ⟨written, later, first, second, assembled⟩
      have head := each value List.mem_cons_self written first
      have tail := inductionHypothesis
        (fun other member => each other (List.mem_cons_of_mem value member)) second
      rw [assembled]
      exact head.bind (tail.last fun values => normal value :: values)

end Codec
end MutinyNet
