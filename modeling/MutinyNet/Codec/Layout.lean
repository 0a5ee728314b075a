import MutinyNet.Codec.Reader

namespace MutinyNet
namespace Codec

/-!
# Where a string of fields may end

A reader that takes what it gets reads the first bytes of a string, too.  A number
without its upper bytes is the number that the others hold, and whatever is missing
altogether is zero or empty.  So a cut does not change what is read exactly if every
field behind it is still held by what is left of it: `Spared` says so of a list of
fields, and `Laid` connects a list of fields with a reader.  The rules follow the
shape of a reader, as those for `ReadsBack` do.
-/

/-- A field of a string: a number, a signed number, or bytes that stand for
themselves. -/
inductive Field where
  | number (width value : Nat)
  | signed (width : Nat) (value : Int)
  | exactly (bytes : Bytes)
  deriving DecidableEq, Repr

namespace Field

def bytes : Field -> Bytes
  | number width value => littleEndian width value
  | signed width value => littleEndian width (signedPattern width value)
  | exactly bytes => bytes

/-- The first `count` bytes hold the whole field. -/
def Spared : Field -> Nat -> Prop
  | number _ value, count => value < 256 ^ count
  | signed _ value, count => SignedFits count value
  | exactly bytes, count => bytes.length ≤ count

instance decidableSpared : (field : Field) -> (count : Nat) -> Decidable (field.Spared count)
  | number _ value, count => inferInstanceAs (Decidable (value < 256 ^ count))
  | signed _ value, count => inferInstanceAs (Decidable (SignedFits count value))
  | exactly bytes, count => inferInstanceAs (Decidable (bytes.length ≤ count))

end Field

/-- The bytes of a list of fields. -/
def fieldBytes (fields : List Field) : Bytes :=
  fields.flatMap Field.bytes

/-- The first `count` bytes hold every field of a list. -/
def Spared : List Field -> Nat -> Prop
  | [], _ => True
  | field :: fields, count => field.Spared count ∧ Spared fields (count - field.bytes.length)

instance decidableSparedFields : (fields : List Field) -> (count : Nat) ->
    Decidable (Spared fields count)
  | [], _ => isTrue trivial
  | field :: fields, count =>
      haveI := decidableSparedFields fields (count - field.bytes.length)
      inferInstanceAs (Decidable (field.Spared count ∧ _))

theorem fieldBytes_append (front back : List Field) :
    fieldBytes (front ++ back) = fieldBytes front ++ fieldBytes back :=
  List.flatMap_append

theorem spared_append {front back : List Field} {count : Nat} :
    Spared (front ++ back) count <->
      Spared front count ∧ Spared back (count - (fieldBytes front).length) := by
  induction front generalizing count with
  | nil => exact (and_iff_right trivial).symm
  | cons field front inductionHypothesis =>
      change field.Spared count ∧ Spared (front ++ back) _ <-> _
      rw [inductionHypothesis, and_assoc.symm]
      have offset : count - field.bytes.length - (fieldBytes front).length =
          count - (fieldBytes (field :: front)).length := by
        change _ = count - (field.bytes ++ fieldBytes front).length
        rw [List.length_append, Nat.sub_sub]
      rw [offset]
      rfl

/-- One byte holds a small number in a field of four, and an empty string behind it. -/
example : Spared ([.number 4 5] ++ [.exactly []]) 1 := by decide

variable {Err A B : Type}

/-- The reader reads `value` back from the bytes of the fields, and from the first of
them it reads to the end of the stream, and the same value exactly if they hold every
field. -/
structure Laid (reader : Reader Err A) (fields : List Field) (written : Bytes) (value : A) :
    Prop where
  bytes : fieldBytes fields = written
  full : forall count, written.length ≤ count -> Spared fields count
  whole : ReadsBack reader written value
  cut : forall count, count < written.length -> Exists fun other =>
    reader.run (written.take count) = .ok (other, []) ∧ (other = value <-> Spared fields count)

theorem laid_pure (value : A) : Laid (pure value : Reader Err A) [] [] value where
  bytes := rfl
  full := fun _ _ => trivial
  whole := readsBack_pure value
  cut := fun count inside => absurd inside (Nat.not_lt_zero count)

/-- Nothing to read gives items of nothing. -/
theorem run_readMany_nil {item : Reader Err A} {blank : A} (empty : item.run [] = .ok (blank, []))
    (count : Nat) : (readMany item count).run [] = .ok (List.replicate count blank, []) := by
  induction count with
  | zero => rfl
  | succ count inductionHypothesis =>
      rw [readMany, StateT.run_bind, empty]
      change ((readMany item count).run [] >>= fun read =>
        Except.ok (blank :: read.1, read.2)) = _
      rw [inductionHypothesis]
      rfl

namespace Laid

variable {reader : Reader Err A} {fields : List Field} {written : Bytes} {value : A}

/-- Any number of the bytes may be left. -/
theorem run_take (laid : Laid reader fields written value) {count : Nat}
    (within : count ≤ written.length) : Exists fun other =>
      reader.run (written.take count) = .ok (other, []) ∧
        (other = value <-> Spared fields count) := by
  rcases eq_or_lt_of_le within with whole | less
  · refine ⟨value, ?_, iff_of_true rfl (laid.full count whole.ge)⟩
    rw [whole, List.take_length]
    exact laid.whole.run_exact
  · exact laid.cut count less

/-- One reader behind another.  Behind a cut the second one reads nothing, which has to
succeed, and to give another result if the first one was misled. -/
theorem bind {next : A -> Reader Err B} {later : List Field} {written' : Bytes} {result : B}
    (first : Laid reader fields written value) (second : Laid (next value) later written' result)
    (lenient : forall other, Exists fun result' => (next other).run [] = .ok (result', []))
    (determined : forall count other, count < written.length ->
      reader.run (written.take count) = .ok (other, []) ->
        (next other).run [] = .ok (result, []) -> other = value) :
    Laid (reader >>= next) (fields ++ later) (written ++ written') result where
  bytes := by rw [fieldBytes_append, first.bytes, second.bytes]
  full := by
    intro count behind
    rw [List.length_append] at behind
    rw [spared_append, first.bytes]
    exact ⟨first.full count (by omega), second.full _ (by omega)⟩
  whole := first.whole.bind second.whole
  cut := by
    intro count inside
    rw [List.length_append] at inside
    by_cases behind : written.length ≤ count
    · rcases second.run_take (show count - written.length ≤ written'.length by omega)
        with ⟨other, run, same⟩
      refine ⟨other, ?_, ?_⟩
      · rw [List.take_append, List.take_of_length_le behind, StateT.run_bind, first.whole]
        exact run
      · rw [same, spared_append, first.bytes]
        exact (and_iff_right (first.full count behind)).symm
    · rcases first.cut count (not_le.mp behind) with ⟨other, run, same⟩
      rcases lenient other with ⟨result', empty⟩
      rcases second.run_take (Nat.zero_le _) with ⟨result'', empty', same'⟩
      rw [List.take_zero] at empty'
      refine ⟨result', ?_, ?_⟩
      · rw [List.take_append_of_le_length (by omega), StateT.run_bind, run]
        exact empty
      · rw [spared_append, first.bytes, Nat.sub_eq_zero_of_le (by omega), ← same, ← same']
        constructor
        · intro equal
          have kept := determined count other (not_le.mp behind) run (equal ▸ empty)
          rw [kept, empty'] at empty
          cases empty
          exact ⟨kept, equal⟩
        · rintro ⟨kept, equal⟩
          rw [kept, empty'] at empty
          cases empty
          exact equal

/-- The last step of a reader that assembles its fields. -/
theorem last (laid : Laid reader fields written value) (assemble : A -> B)
    (determined : forall other, assemble other = assemble value -> other = value) :
    Laid (reader >>= fun field => pure (assemble field)) fields written (assemble value) := by
  have assembled : Laid (reader >>= fun field => pure (assemble field)) (fields ++ [])
      (written ++ []) (assemble value) :=
    laid.bind (laid_pure (assemble value)) (fun other => ⟨assemble other, rfl⟩)
      (fun _ other _ _ run => determined other (congrArg Prod.fst (Except.ok.inj run)))
  rwa [List.append_nil, List.append_nil] at assembled

/-- A repeated reader, item by item. -/
theorem many {write : A -> Except Err Bytes} {item : Reader Err A} {fieldsOf : A -> List Field}
    {normal : A -> A} {blank : A} {items : List A} {bytes : Bytes}
    (empty : item.run [] = .ok (blank, []))
    (each : forall value, value ∈ items -> forall written, write value = .ok written ->
      Laid item (fieldsOf value) written (normal value))
    (wrote : writeMany write items = .ok bytes) :
    Laid (readMany item items.length) (items.flatMap fieldsOf) bytes (items.map normal) := by
  induction items generalizing bytes with
  | nil =>
      cases wrote
      exact laid_pure []
  | cons value values inductionHypothesis =>
      rcases writeMany_cons_eq_ok.mp wrote with ⟨written, later, first, second, assembled⟩
      have head := each value List.mem_cons_self written first
      have tail := inductionHypothesis
        (fun other member => each other (List.mem_cons_of_mem value member)) second
      have nothing : forall other, (readMany item values.length >>= fun values =>
          (pure (other :: values) : Reader Err (List A))).run [] =
            .ok (other :: List.replicate values.length blank, []) := by
        intro other
        rw [StateT.run_bind, run_readMany_nil empty]
        rfl
      rw [assembled]
      refine head.bind (tail.last (fun values => normal value :: values) ?_)
        (fun other => ⟨_, nothing other⟩) ?_
      · intro other same
        exact (List.cons.inj same).2
      · intro _ other _ _ run
        rw [nothing] at run
        exact (List.cons.inj (congrArg Prod.fst (Except.ok.inj run))).1

end Laid

/-! ## Fields of a fixed width -/

/-- The first bytes of a number are a shorter number. -/
theorem take_littleEndian {width count : Nat} (within : count ≤ width) (value : Nat) :
    (littleEndian width value).take count = littleEndian count value := by
  induction count generalizing width value with
  | zero => rfl
  | succ count inductionHypothesis =>
      rcases Nat.exists_eq_succ_of_ne_zero (show width ≠ 0 by omega) with ⟨width, rfl⟩
      rw [littleEndian, littleEndian, List.take_succ_cons,
        inductionHypothesis (by omega) (value / 256)]

/-- Fewer bytes hold a number that is small enough for them. -/
theorem fromLittleEndian_take_iff {width count value : Nat} (within : count ≤ width) :
    fromLittleEndian ((littleEndian width value).take count) = value <-> value < 256 ^ count := by
  rw [take_littleEndian within, fromLittleEndian_littleEndian]
  constructor
  · intro same
    rw [← same]
    exact Nat.mod_lt _ (by positivity)
  · exact Nat.mod_eq_of_lt

/-- The same for a signed number, whose sign has to be left. -/
theorem twosComplement_take_iff {width count : Nat} {value : Int} (within : count ≤ width) :
    twosComplement count (fromLittleEndian
      ((littleEndian width (signedPattern width value)).take count)) = value <->
        SignedFits count value := by
  have narrow : signedPattern width value % 256 ^ count = signedPattern count value := by
    have divides : ((256 ^ count : Nat) : Int) ∣ ((256 ^ width : Nat) : Int) := by
      exact_mod_cast pow_dvd_pow 256 within
    have positive : (0 : Int) < ((256 ^ width : Nat) : Int) := by positivity
    have lower := Int.emod_nonneg value positive.ne'
    unfold signedPattern
    rw [← Int.emod_emod_of_dvd value divides, Int.toNat_emod lower (by positivity),
      Int.toNat_natCast]
  rw [take_littleEndian within, fromLittleEndian_littleEndian, narrow]
  constructor
  · intro same
    rw [← same]
    exact signedFits_twosComplement (signedPattern_lt count value)
  · exact twosComplement_signedPattern

end Codec
end MutinyNet
