import MutinyNet.Codec.Reader

namespace MutinyNet
namespace Codec

/-!
# What a reader accepts

A reader of untrusted input accepts strings that no writer would have written:
sizes in a longer form than needed, strings that end before their announced
length.  `Yields reader property` says of every value that the reader returns,
from whatever bytes, that it has the property.  With `Writable write` for the
property, everything the reader accepts has a normal form: what the writer
makes of the value.  The rules follow the shape of a reader, as those for
`ReadsBack` do.
-/

variable {Err A B : Type}

theorem ok_bind (value : A) (next : A -> Except Err B) :
    ((Except.ok value : Except Err A) >>= next) = next value :=
  rfl

/-- Whatever the bytes, a value that the reader returns has the property. -/
def Yields (reader : Reader Err A) (property : A -> Prop) : Prop :=
  forall bytes value rest, reader.run bytes = .ok (value, rest) -> property value

/-- The value can be written. -/
def Writable (write : A -> Except Err Bytes) (value : A) : Prop :=
  Exists fun written => write value = .ok written

theorem yields_pure {property : A -> Prop} {value : A} (holds : property value) :
    Yields (pure value : Reader Err A) property := by
  intro bytes returned rest run
  rw [(run_pure_eq_ok.mp run).1]
  exact holds

theorem yields_readUpTo (count : Nat) :
    Yields (readUpTo count : Reader Err Bytes) fun bytes => bytes.length ≤ count := by
  intro bytes value rest run
  cases run
  exact List.length_take_le count bytes

namespace Yields

variable {reader : Reader Err A} {property : A -> Prop}

theorem bind {next : A -> Reader Err B} {later : B -> Prop} (first : Yields reader property)
    (second : forall value, property value -> Yields (next value) later) :
    Yields (reader >>= next) later := by
  intro bytes result rest run
  rcases run_bind_eq_ok.mp run with ⟨value, behind, read, readNext⟩
  exact second value (first bytes value behind read) behind result rest readNext

theorem mono {weaker : A -> Prop} (yields : Yields reader property)
    (implies : forall value, property value -> weaker value) : Yields reader weaker :=
  fun bytes value rest run => implies value (yields bytes value rest run)

/-- The last step of a reader that assembles its fields. -/
theorem last {assemble : A -> B} {later : B -> Prop} (first : Yields reader property)
    (implies : forall value, property value -> later (assemble value)) :
    Yields (reader >>= fun field => pure (assemble field)) later :=
  first.bind fun value holds => yields_pure (implies value holds)

/-- A repeated reader returns as many items as it is asked for. -/
theorem many (yields : Yields reader property) (count : Nat) :
    Yields (readMany reader count) fun values =>
      values.length = count ∧ forall value, value ∈ values -> property value := by
  induction count with
  | zero => exact yields_pure ⟨rfl, fun value impossible => by cases impossible⟩
  | succ count inductionHypothesis =>
      refine yields.bind fun first holds => inductionHypothesis.last fun values each => ?_
      refine ⟨by rw [List.length_cons, each.1], ?_⟩
      intro value member
      rcases List.mem_cons.mp member with here | there
      · rw [here]
        exact holds
      · exact each.2 value there

end Yields

/-- Items that can be written can be written one after another. -/
theorem writable_many {write : A -> Except Err Bytes} {items : List A}
    (each : forall item, item ∈ items -> Writable write item) :
    Writable (writeMany write) items := by
  induction items with
  | nil => exact ⟨[], rfl⟩
  | cons item items inductionHypothesis =>
      rcases each item List.mem_cons_self with ⟨written, first⟩
      rcases inductionHypothesis fun other member => each other (List.mem_cons_of_mem item member)
        with ⟨later, rest⟩
      exact ⟨written ++ later, writeMany_cons_eq_ok.mpr ⟨written, later, first, rest, rfl⟩⟩

/-- Items that are each written as their normal form are written as these. -/
theorem writeMany_map_of_mem {write : A -> Except Err Bytes} {normal : A -> A} {items : List A}
    (same : forall item, item ∈ items -> write (normal item) = write item) :
    writeMany write (items.map normal) = writeMany write items := by
  induction items with
  | nil => rfl
  | cons item items inductionHypothesis =>
      have rest := inductionHypothesis fun other member =>
        same other (List.mem_cons_of_mem item member)
      rw [List.map_cons, writeMany, writeMany, same item List.mem_cons_self, rest]

end Codec
end MutinyNet
