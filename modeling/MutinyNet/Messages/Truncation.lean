import MutinyNet.Messages.Psbt

namespace MutinyNet
namespace Messages

open Codec Python

/-!
# What is left of a PSBT that was cut off

No reader notices the end of its stream: a size that was cut counts as the
bytes that are left, a string ends where the stream does, and a map whose end
marker is missing ends there as well.  So the first bytes of a map read as the
entries in front of the cut and what is left of the entry it goes through.
-/

/-! ## Strings -/

/-- The bytes of a compact size. -/
def compactLength (l : Nat) : Nat :=
  if l < 253 then 1 else if l < 0x10000 then 3 else if l < 0x100000000 then 5 else 9

def stringLength (s : Bytes) : Nat :=
  compactLength s.length + s.length

/-- What is left of a string in the first bytes of its serialization. -/
def cutString (s : Bytes) (count : Nat) : Bytes :=
  s.take (count - compactLength s.length)

theorem compactLength_pos (l : Nat) : 0 < compactLength l := by
  unfold compactLength
  split
  · decide
  · split
    · decide
    · split <;> decide

theorem length_serCompactSize {l : Nat} {bytes : Bytes} (wrote : serCompactSize l = .ok bytes) :
    bytes.length = compactLength l := by
  unfold serCompactSize at wrote
  unfold compactLength
  split
  · next small =>
      rw [if_pos small] at wrote
      exact length_of_intToBytes wrote
  · next large =>
      rw [if_neg large] at wrote
      split
      · next small =>
          rw [if_pos small] at wrote
          rcases bind_eq_ok.mp wrote with ⟨size, field, assembled⟩
          cases assembled
          rw [List.length_cons, length_of_intToBytes field]
      · next large =>
          rw [if_neg large] at wrote
          split
          · next small =>
              rw [if_pos small] at wrote
              rcases bind_eq_ok.mp wrote with ⟨size, field, assembled⟩
              cases assembled
              rw [List.length_cons, length_of_intToBytes field]
          · next large =>
              rw [if_neg large] at wrote
              rcases bind_eq_ok.mp wrote with ⟨size, field, assembled⟩
              cases assembled
              rw [List.length_cons, length_of_intToBytes field]

theorem length_serString {s bytes : Bytes} (wrote : serString s = .ok bytes) :
    bytes.length = stringLength s := by
  rcases bind_eq_ok.mp wrote with ⟨size, sized, assembled⟩
  cases assembled
  rw [List.length_append, length_serCompactSize sized]
  rfl

/-- The bytes of a compact size, or none of them. -/
theorem serCompactSize_shape {l : Nat} {size : Bytes} (wrote : serCompactSize l = .ok size) :
    size.length = 1 ∨ Exists fun marker : UInt8 => Exists fun field : Bytes =>
      size = marker :: field ∧
        deserCompactTail marker.toNat = (readInt field.length false : Stream Int) := by
  unfold serCompactSize at wrote
  split at wrote
  · exact Or.inl (length_of_intToBytes wrote)
  · split at wrote
    · rcases bind_eq_ok.mp wrote with ⟨field, written, assembled⟩
      cases assembled
      exact Or.inr ⟨253, field, rfl, by rw [length_of_intToBytes written]; rfl⟩
    · split at wrote
      · rcases bind_eq_ok.mp wrote with ⟨field, written, assembled⟩
        cases assembled
        exact Or.inr ⟨254, field, rfl, by rw [length_of_intToBytes written]; rfl⟩
      · rcases bind_eq_ok.mp wrote with ⟨field, written, assembled⟩
        cases assembled
        exact Or.inr ⟨255, field, rfl, by rw [length_of_intToBytes written]; rfl⟩

theorem exists_serCompactSize_iff {l : Nat} :
    (Exists fun size => serCompactSize l = .ok size) <-> l < 256 ^ 8 := by
  have field : forall {width : Nat}, l < 256 ^ width ->
      intToBytes width false l = .ok (littleEndian width l) := by
    intro width fits
    rw [intToBytes, if_neg Bool.false_ne_true,
      if_pos ⟨Int.natCast_nonneg l, by exact_mod_cast fits⟩, Int.toNat_natCast]
  constructor
  · rintro ⟨size, sized⟩
    unfold serCompactSize at sized
    split at sized
    · omega
    · split at sized
      · omega
      · split at sized
        · omega
        · rcases bind_eq_ok.mp sized with ⟨written, fits, -⟩
          unfold intToBytes at fits
          rw [if_neg Bool.false_ne_true] at fits
          split at fits
          · next inside => exact_mod_cast inside.2
          · cases fits
  · intro fits
    unfold serCompactSize
    split
    · exact ⟨_, field (by omega)⟩
    · split
      · exact ⟨_, bind_eq_ok.mpr ⟨_, field (by omega), rfl⟩⟩
      · split
        · exact ⟨_, bind_eq_ok.mpr ⟨_, field (by omega), rfl⟩⟩
        · exact ⟨_, bind_eq_ok.mpr ⟨_, field fits, rfl⟩⟩

/-- A shorter string can be written as well. -/
theorem exists_serString_of_le {s shorter bytes : Bytes} (wrote : serString s = .ok bytes)
    (within : shorter.length ≤ s.length) : Exists fun bytes => serString shorter = .ok bytes := by
  rcases bind_eq_ok.mp wrote with ⟨size, sized, -⟩
  have bound := exists_serCompactSize_iff.mp ⟨size, sized⟩
  rcases exists_serCompactSize_iff.mpr (lt_of_le_of_lt within bound) with ⟨size', sized'⟩
  exact ⟨_, bind_eq_ok.mpr ⟨size', sized', rfl⟩⟩

theorem deserCompactSize_nil : deserCompactSize.run [] = .ok (0, []) :=
  rfl

theorem deserString_nil : deserString.run [] = .ok ([], []) :=
  rfl

/-- A cut size leaves nothing unread. -/
theorem deserCompactSize_take {l : Nat} {size : Bytes} (wrote : serCompactSize l = .ok size)
    {count : Nat} (less : count < size.length) :
    Exists fun nit => deserCompactSize.run (size.take count) = .ok (nit, []) := by
  cases count with
  | zero => exact ⟨0, deserCompactSize_nil⟩
  | succ count =>
      rcases serCompactSize_shape wrote with single | ⟨marker, field, shape, tail⟩
      · omega
      · rw [shape, List.length_cons] at less
        have first : (readInt 1 false).run (marker :: field.take count) =
            .ok ((marker.toNat : Int), field.take count) := by
          have byte : intToBytes 1 false (marker.toNat : Int) = .ok [marker] := by
            have single : [marker].length = 1 := rfl
            simpa only [intFromBytes, fromLittleEndian, Bool.false_eq_true, if_false, Nat.mul_zero,
              Nat.add_zero] using intToBytes_intFromBytes false single
          exact readsBack_readInt byte (field.take count)
        rw [shape, List.take_succ_cons, deserCompactSize, StateT.run_bind, first]
        change Exists fun nit => ((deserCompactTail marker.toNat).run (field.take count) >>=
          fun result => Except.ok (result.1.toNat, result.2)) = Except.ok (nit, [])
        rw [tail]
        refine ⟨(intFromBytes false ((field.take count).take field.length)).toNat, ?_⟩
        have empty : (field.take count).drop field.length = [] := by
          rw [List.drop_eq_nil_iff, List.length_take]
          omega
        change Except.ok (_, (field.take count).drop field.length) = _
        rw [empty]

/-- Reading the first bytes of a string gives what is left of it, to the end of
the stream. -/
theorem deserString_take {s bytes : Bytes} (wrote : serString s = .ok bytes) {count : Nat}
    (within : count ≤ bytes.length) :
    deserString.run (bytes.take count) = .ok (cutString s count, []) := by
  rcases bind_eq_ok.mp wrote with ⟨size, sized, assembled⟩
  cases assembled
  have length := length_serCompactSize sized
  rw [List.length_append] at within
  unfold cutString
  by_cases whole : size.length ≤ count
  · rw [List.take_append, List.take_of_length_le whole, deserString, StateT.run_bind,
      readsBack_deserCompactSize sized, length]
    change Except.ok ((s.take (count - compactLength s.length)).take s.length,
      (s.take (count - compactLength s.length)).drop s.length) = _
    rw [List.take_of_length_le (by rw [List.length_take]; omega),
      List.drop_eq_nil_iff.mpr (by rw [List.length_take]; omega)]
  · rcases deserCompactSize_take sized (not_le.mp whole) with ⟨nit, read⟩
    rw [List.take_append_of_le_length (by omega), deserString, StateT.run_bind, read,
      show count - compactLength s.length = 0 by omega, List.take_zero]
    change Except.ok (([] : Bytes).take nit, ([] : Bytes).drop nit) = _
    rw [List.take_nil, List.drop_nil]

/-! ## Maps -/

def entryLength (entry : PSBTKey × Bytes) : Nat :=
  stringLength entry.1.raw + stringLength entry.2

/-- What is left of the entries of a map in its first bytes: the entries in
front of the cut, and what is left of the one it goes through. -/
def cutEntries : List (PSBTKey × Bytes) -> Nat -> List (PSBTKey × Bytes)
  | [], _ => []
  | (key, value) :: rest, count =>
      if entryLength (key, value) ≤ count then
        (key, value) :: cutEntries rest (count - entryLength (key, value))
      else match PSBTKey.ofRaw (cutString key.raw count) with
        | none => []
        | some cut => [(cut, cutString value (count - stringLength key.raw))]

/-- What is left of an entry is the front of its value; behind a cut key nothing is
left. -/
theorem prefix_of_lookup_cutEntries {entries : List (PSBTKey × Bytes)} {key : PSBTKey}
    {whole left : Bytes} {count : Nat} (found : entries.lookup key = some whole)
    (kept : (cutEntries entries count).lookup key = some left) : left <+: whole := by
  induction entries generalizing count with
  | nil => cases found
  | cons entry entries inductionHypothesis =>
      rcases entry with ⟨head, value⟩
      rw [cutEntries] at kept
      split at kept
      · rw [List.lookup_cons] at found kept
        split at found
        · next same =>
            rw [same] at kept
            cases found
            cases kept
            exact List.prefix_refl _
        · next different =>
            rw [different] at kept
            exact inductionHypothesis found kept
      · next cutHere =>
          split at kept
          · cases kept
          · next cut shape =>
              rw [List.lookup_cons] at found kept
              split at kept
              · next same =>
                  cases kept
                  split at found
                  · cases found
                    exact List.take_prefix _ _
                  · next different =>
                      have short : count < stringLength head.raw := by
                        by_contra behind
                        have uncut : cutString head.raw count = head.raw := by
                          unfold cutString
                          unfold stringLength at behind
                          exact List.take_of_length_le (by omega)
                        rw [uncut, PSBTKey.ofRaw_raw] at shape
                        cases shape
                        rw [same] at different
                        cases different
                      rw [cutString, show count - stringLength head.raw = 0 by omega,
                        Nat.zero_sub, List.take_zero]
                      exact List.nil_prefix
              · cases kept

namespace PSBTMap

/-- The bytes of a map. -/
def length (self : PSBTMap) : Nat :=
  (self.map.map entryLength).sum + 1

/-- Storing entries one after another; a key that is there already is refused. -/
def addAll (self : PSBTMap) : List (PSBTKey × Bytes) -> Except PyError PSBTMap
  | [] => .ok self
  | (key, value) :: rest =>
      if fresh : key ∉ self.keys then (self.insertNew key value fresh).addAll rest
      else .error .assertionError

/-- The map read from the first bytes of a map. -/
def cut (self : PSBTMap) (count : Nat) : Except PyError PSBTMap :=
  ({} : PSBTMap).addAll (cutEntries self.map count)

theorem length_of_writeMany {entries : List (PSBTKey × Bytes)} {bytes : Bytes}
    (wrote : writeMany serializeEntry entries = .ok bytes) :
    bytes.length = (entries.map entryLength).sum := by
  induction entries generalizing bytes with
  | nil =>
      cases wrote
      rfl
  | cons entry entries inductionHypothesis =>
      rcases writeMany_cons_eq_ok.mp wrote with ⟨written, later, first, second, assembled⟩
      simp only [serializeEntry, bind_eq_ok] at first
      rcases first with ⟨k, keyed, v, valued, entryBytes⟩
      cases entryBytes
      rw [assembled, List.length_append, List.length_append, length_serString keyed,
        length_serString valued, inductionHypothesis second]
      rfl

theorem length_of_serialize {self : PSBTMap} {bytes : Bytes} (wrote : self.serialize = .ok bytes) :
    bytes.length = self.length := by
  rcases bind_eq_ok.mp wrote with ⟨entries, written, assembled⟩
  cases assembled
  rw [List.length_append, length_of_writeMany written]
  rfl

theorem deserEntries_nil (fuel : Nat) (before : PSBTMap) :
    (deserEntries (fuel + 1) before).run [] = .ok (before, []) :=
  rfl

/-- A round of the loop that reads the rest of the stream is the last one but
the one that finds its end. -/
theorem deserEntries_end {fuel : Nat} {before : PSBTMap} {bytes rest raw value : Bytes}
    (first : deserString.run bytes = .ok (raw, rest))
    (second : deserString.run rest = .ok (value, []))
    (stops : PSBTKey.ofRaw raw = none -> rest = []) :
    (deserEntries (fuel + 2) before).run bytes =
      (before.addAll (match PSBTKey.ofRaw raw with
        | none => []
        | some cut => [(cut, value)])).map fun result => (result, []) := by
  rw [deserEntries, StateT.run_bind, first]
  simp only [bind, Except.bind]
  cases key : PSBTKey.ofRaw raw with
  | none =>
      rw [stops key]
      rfl
  | some cut =>
      change ((deserString.run rest) >>= fun read =>
        (if fresh : cut ∉ before.keys then
          deserEntries (fuel + 1) (before.insertNew cut read.1 fresh)
        else throw PyError.assertionError : Stream PSBTMap).run read.2) = _
      rw [second, addAll]
      simp only [bind, Except.bind]
      by_cases fresh : cut ∉ before.keys
      · rw [dif_pos fresh, dif_pos fresh, deserEntries_nil]
        rfl
      · rw [dif_neg fresh, dif_neg fresh]
        rfl

/-- A cut through an entry, in front of its value or inside it. -/
theorem deserEntries_cut {key : PSBTKey} {value k v : Bytes} (keyed : serString key.raw = .ok k)
    (valued : serString value = .ok v) {fuel count : Nat} (enough : count < fuel)
    (inside : count < k.length + v.length) (before : PSBTMap) :
    (deserEntries fuel before).run ((k ++ v).take count) =
      (before.addAll (match PSBTKey.ofRaw (cutString key.raw count) with
        | none => []
        | some cut => [(cut, cutString value (count - stringLength key.raw))])).map
          fun result => (result, []) := by
  have keyLength := length_serString keyed
  have valueLength := length_serString valued
  rcases Nat.exists_eq_add_of_lt enough with ⟨more, rfl⟩
  cases count with
  | zero =>
      have gone : cutString key.raw 0 = [] := by
        rw [cutString, Nat.zero_sub, List.take_zero]
      rw [gone, List.take_zero]
      exact deserEntries_nil _ before
  | succ count =>
      rw [show count + 1 + more + 1 = count + more + 2 by omega]
      by_cases behind : k.length ≤ count + 1
      · have kept : cutString key.raw (count + 1) = key.raw := by
          unfold cutString
          rw [keyLength] at behind
          unfold stringLength at behind
          exact List.take_of_length_le (by omega)
        have pieces : (k ++ v).take (count + 1) = k ++ v.take (count + 1 - k.length) := by
          rw [List.take_append, List.take_of_length_le behind]
        rw [pieces, kept, ← keyLength]
        apply deserEntries_end (readsBack_deserString keyed _) (deserString_take valued (by omega))
        intro none
        rw [PSBTKey.ofRaw_raw] at none
        cases none
      · have gone : cutString value (count + 1 - stringLength key.raw) = [] := by
          unfold cutString
          rw [show count + 1 - stringLength key.raw = 0 by omega, Nat.zero_sub, List.take_zero]
        rw [List.take_append_of_le_length (by omega), gone]
        exact deserEntries_end (deserString_take keyed (by omega)) deserString_nil fun _ => rfl

/-- Reading the first bytes of entries adds what is left of them. -/
theorem deserEntries_take {entries : List (PSBTKey × Bytes)} {bytes : Bytes} {fuel : Nat}
    {before : PSBTMap} (wrote : writeMany serializeEntry entries = .ok bytes) {count : Nat}
    (enough : count < fuel) (within : count ≤ bytes.length) :
    (deserEntries fuel before).run (bytes.take count) =
      (before.addAll (cutEntries entries count)).map fun result => (result, []) := by
  induction entries generalizing fuel before bytes count with
  | nil =>
      cases wrote
      rcases Nat.exists_eq_add_of_lt enough with ⟨more, rfl⟩
      rw [List.take_nil]
      exact deserEntries_nil _ before
  | cons entry entries inductionHypothesis =>
      rcases entry with ⟨key, value⟩
      rcases writeMany_cons_eq_ok.mp wrote with ⟨written, later, first, second, assembled⟩
      simp only [serializeEntry, bind_eq_ok] at first
      rcases first with ⟨k, keyed, v, valued, entryBytes⟩
      cases entryBytes
      have size : entryLength (key, value) = k.length + v.length := by
        rw [length_serString keyed, length_serString valued]
        rfl
      rw [assembled, List.length_append, List.length_append] at within
      rw [assembled, cutEntries]
      by_cases whole : entryLength (key, value) ≤ count
      · -- The entry is in front of the cut.
        have nonempty : 0 < k.length := by
          rw [length_serString keyed]
          exact Nat.add_pos_left (compactLength_pos _) _
        have pieces : ((k ++ v) ++ later).take count =
            k ++ (v ++ later.take (count - entryLength (key, value))) := by
          rw [List.take_append, List.take_of_length_le (by rw [List.length_append]; omega),
            List.append_assoc, List.length_append, size]
        rcases Nat.exists_eq_add_of_lt enough with ⟨more, rfl⟩
        rw [pieces, if_pos whole, deserEntries_entry keyed valued, addAll]
        by_cases fresh : key ∉ before.keys
        · rw [dif_pos fresh, dif_pos fresh]
          exact inductionHypothesis second (by omega) (by omega)
        · rw [dif_neg fresh, dif_neg fresh]
          rfl
      · rw [if_neg whole, List.take_append_of_le_length (by rw [List.length_append]; omega)]
        exact deserEntries_cut keyed valued enough (by omega) before

theorem addAll_of_nodup {entries : List (PSBTKey × Bytes)} {before after : PSBTMap}
    (whole : after.map = before.map ++ entries) : before.addAll entries = .ok after := by
  induction entries generalizing before with
  | nil =>
      rw [List.append_nil] at whole
      exact congrArg Except.ok (ext_map whole.symm)
  | cons entry entries inductionHypothesis =>
      rcases entry with ⟨key, value⟩
      have fresh : key ∉ before.keys := by
        have nodup := after.nodup
        rw [whole, List.map_append, List.map_cons, List.nodup_append] at nodup
        intro member
        exact nodup.2.2 key member key List.mem_cons_self rfl
      rw [addAll, dif_pos fresh]
      apply inductionHypothesis
      rw [whole, insertNew, List.append_assoc]
      rfl

theorem cutEntries_of_le {entries : List (PSBTKey × Bytes)} {count : Nat}
    (within : (entries.map entryLength).sum ≤ count) : cutEntries entries count = entries := by
  induction entries generalizing count with
  | nil => rfl
  | cons entry entries inductionHypothesis =>
      rcases entry with ⟨key, value⟩
      rw [List.map_cons, List.sum_cons] at within
      rw [cutEntries, if_pos (by omega), inductionHypothesis (by omega)]

/-- A cut that takes away nothing but the end marker changes nothing. -/
theorem cut_of_le {self : PSBTMap} {count : Nat} (within : self.length ≤ count + 1) :
    self.cut count = .ok self := by
  unfold length at within
  rw [cut, cutEntries_of_le (by omega)]
  exact addAll_of_nodup rfl

/-- Reading a map from the first bytes of a stream. -/
theorem deserialize_take {self : PSBTMap} {bytes : Bytes} (wrote : self.serialize = .ok bytes)
    (rest : Bytes) (count : Nat) :
    deserialize.run ((bytes ++ rest).take count) =
      (self.cut count).map fun result => (result, rest.take (count - self.length)) := by
  have length := length_of_serialize wrote
  by_cases whole : self.length ≤ count
  · rw [cut_of_le (by omega), List.take_append, List.take_of_length_le (by omega), length]
    exact readsBack_deserialize wrote (rest.take (count - self.length))
  · rcases bind_eq_ok.mp wrote with ⟨entries, written, assembled⟩
    cases assembled
    rw [List.length_append, List.length_singleton] at length
    rw [List.take_append_of_le_length (by rw [List.length_append]; omega),
      List.take_append_of_le_length (by omega), show count - self.length = 0 by omega,
      List.take_zero]
    have short : (entries.take count).length = count := by
      rw [List.length_take]
      omega
    change (deserEntries ((entries.take count).length + 1) {}).run (entries.take count) = _
    rw [short]
    exact deserEntries_take written (by omega) (by omega)

/-- Entries with distinct keys are stored, and a repeated key is refused. -/
theorem addAll_eq (before : PSBTMap) (entries : List (PSBTKey × Bytes)) :
    before.addAll entries = if distinct : ((before.map ++ entries).map Prod.fst).Nodup then
      .ok { map := before.map ++ entries, nodup := distinct } else .error .assertionError := by
  split
  · next distinct => exact addAll_of_nodup rfl
  · next repeated =>
      induction entries generalizing before with
      | nil =>
          rw [List.append_nil] at repeated
          exact absurd before.nodup repeated
      | cons entry entries inductionHypothesis =>
          rcases entry with ⟨key, value⟩
          rw [addAll]
          split
          · next fresh =>
              apply inductionHypothesis
              rwa [insertNew, List.append_assoc]
          · rfl

/-- The map read from what is left of a map, if no key is there twice. -/
theorem cut_eq_ok {self result : PSBTMap} {count : Nat} :
    self.cut count = .ok result <-> result.map = cutEntries self.map count := by
  rw [cut, addAll_eq]
  constructor
  · intro read
    split at read
    · cases read
      rfl
    · cases read
  · intro same
    have distinct := result.nodup
    rw [same] at distinct
    exact (dif_pos distinct).trans (congrArg Except.ok (ext_map same.symm))

theorem exists_cut {self : PSBTMap} {count : Nat}
    (distinct : ((cutEntries self.map count).map Prod.fst).Nodup) :
    Exists fun result => self.cut count = .ok result :=
  ⟨⟨cutEntries self.map count, distinct⟩, cut_eq_ok.mpr rfl⟩

/-- Every value that is left of a serialized map can be written again. -/
theorem serString_of_mem_cutEntries {entries : List (PSBTKey × Bytes)} {bytes : Bytes}
    {count : Nat} {entry : PSBTKey × Bytes} (wrote : writeMany serializeEntry entries = .ok bytes)
    (member : entry ∈ cutEntries entries count) :
    Exists fun written => serString entry.2 = .ok written := by
  induction entries generalizing bytes count with
  | nil => cases member
  | cons head entries inductionHypothesis =>
      rcases head with ⟨key, value⟩
      rcases writeMany_cons_eq_ok.mp wrote with ⟨written, later, first, second, -⟩
      simp only [serializeEntry, bind_eq_ok] at first
      rcases first with ⟨k, keyed, v, valued, -⟩
      rw [cutEntries] at member
      split at member
      · rcases List.mem_cons.mp member with here | there
        · subst here
          exact ⟨v, valued⟩
        · exact inductionHypothesis second there
      · split at member
        · cases member
        · rw [List.mem_singleton.mp member]
          apply exists_serString_of_le valued
          exact List.length_take_le' _ _

theorem cut_zero (self : PSBTMap) : self.cut 0 = .ok {} := by
  have nothing : cutEntries self.map 0 = [] := by
    cases entries : self.map with
    | nil => rfl
    | cons entry rest =>
        have positive : ¬ entryLength entry ≤ 0 := by
          have size := compactLength_pos entry.1.raw.length
          unfold entryLength stringLength
          omega
        rw [cutEntries, if_neg positive, cutString, Nat.zero_sub, List.take_zero]
        rfl
  exact cut_eq_ok.mpr nothing.symm

end PSBTMap

/-! ## Whole transactions -/

theorem map_eq_ok {A : Type} {run : Except PyError A} {value : A} {rest rest' : Bytes} :
    (run.map fun result => (result, rest')) = .ok (value, rest) <->
      run = .ok value ∧ rest = rest' := by
  cases run with
  | error err =>
      constructor
      · intro impossible
        cases impossible
      · rintro ⟨impossible, -⟩
        cases impossible
  | ok returned =>
      constructor
      · intro run
        cases run
        exact ⟨rfl, rfl⟩
      · rintro ⟨same, unread⟩
        cases same
        cases unread
        rfl

namespace PSBT

theorem deserialize_run_eq_ok {f rest : Bytes} {psbt : PSBT} :
    deserialize.run f = .ok (psbt, rest) <->
      Exists fun g => Exists fun i => Exists fun o => Exists fun unsigned => Exists fun tx =>
        Exists fun behindG => Exists fun behindI =>
          f.take 5 = psbtMagic ∧ PSBTMap.deserialize.run (f.drop 5) = .ok (g, behindG) ∧
          g.get? psbtGlobalUnsignedTx = some unsigned ∧
          fromBinary CTransaction.deserialize unsigned = .ok tx ∧
          (readMany PSBTMap.deserialize tx.vin.length).run behindG = .ok (i, behindI) ∧
          (readMany PSBTMap.deserialize tx.vout.length).run behindI = .ok (o, rest) ∧
          psbt = { g, i, o, tx := some tx } := by
  unfold deserialize
  simp only [run_bind_eq_ok, run_attempt_eq_ok, assert_eq_ok, beq_iff_eq]
  constructor
  · rintro ⟨magic, behind, first, -, behindMagic, ⟨checked, unread⟩, g, behindG, readG, rest⟩
    cases first
    subst unread
    cases found : g.get? psbtGlobalUnsignedTx with
    | none =>
        rw [found] at rest
        cases rest
    | some unsigned =>
        rw [found] at rest
        simp only [run_bind_eq_ok, run_attempt_eq_ok, run_pure_eq_ok] at rest
        rcases rest with ⟨tx, behindTx, ⟨parsed, unread⟩, i, behindI, readI, o, behindO, readO,
          assembled, unread'⟩
        subst unread unread'
        exact ⟨g, i, o, unsigned, tx, behindTx, behindI, checked, readG, found, parsed, readI, readO,
          assembled⟩
  · rintro ⟨g, i, o, unsigned, tx, behindG, behindI, checked, readG, found, parsed, readI, readO,
      assembled⟩
    refine ⟨f.take 5, f.drop 5, rfl, (), f.drop 5, ⟨checked, rfl⟩, g, behindG, readG, ?_⟩
    rw [found]
    simp only [run_bind_eq_ok, run_attempt_eq_ok, run_pure_eq_ok]
    exact ⟨tx, behindG, ⟨parsed, rfl⟩, i, behindI, readI, o, rest, readO, assembled, rfl⟩

theorem serialize_parts {psbt : PSBT} {input output : PSBTMap} {bytes : Bytes}
    (wrote : psbt.serialize = .ok bytes) (inputs : psbt.i = [input]) (outputs : psbt.o = [output]) :
    Exists fun wroteG => Exists fun wroteI => Exists fun wroteO =>
      psbt.g.serialize = .ok wroteG ∧ input.serialize = .ok wroteI ∧
        output.serialize = .ok wroteO ∧ bytes = psbtMagic ++ (wroteG ++ (wroteI ++ wroteO)) := by
  unfold serialize at wrote
  split at wrote
  · cases wrote
  · rw [inputs, outputs] at wrote
    simp only [bind_eq_ok] at wrote
    rcases wrote with ⟨tx, -, -, -, -, -, maps, written, assembled⟩
    cases assembled
    rcases writeMany_cons_eq_ok.mp written with ⟨wroteG, later, first, written, assembled⟩
    rcases writeMany_cons_eq_ok.mp written with ⟨wroteI, later', second, written', assembled'⟩
    rcases writeMany_cons_eq_ok.mp written' with ⟨wroteO, nothing, third, none, assembled''⟩
    cases none
    refine ⟨wroteG, wroteI, wroteO, first, second, third, ?_⟩
    rw [assembled, assembled', assembled'', List.append_nil]

/-- What is read from the first bytes of a PSBT with one input and one output,
when it still has one of each: what is left of its three maps. -/
theorem fromBinary_take {psbt result : PSBT} {input output : PSBTMap} {bytes : Bytes}
    (wrote : psbt.serialize = .ok bytes) (inputs : psbt.i = [input]) (outputs : psbt.o = [output])
    (count : Nat) :
    (fromBinary deserialize (bytes.take count) = .ok result ∧
      Exists fun tx => result.tx = some tx ∧ tx.vin.length = 1 ∧ tx.vout.length = 1) <->
    psbtMagic.length ≤ count ∧
      Exists fun g => Exists fun input' => Exists fun output' => Exists fun unsigned =>
        Exists fun tx =>
          psbt.g.cut (count - psbtMagic.length) = .ok g ∧
          input.cut (count - psbtMagic.length - psbt.g.length) = .ok input' ∧
          output.cut (count - psbtMagic.length - psbt.g.length - input.length) = .ok output' ∧
          g.get? psbtGlobalUnsignedTx = some unsigned ∧
          fromBinary CTransaction.deserialize unsigned = .ok tx ∧ tx.vin.length = 1 ∧
          tx.vout.length = 1 ∧ result = { g, i := [input'], o := [output'], tx := some tx } := by
  rcases serialize_parts wrote inputs outputs with ⟨wroteG, wroteI, wroteO, first, second, third,
    assembled⟩
  have readG := PSBTMap.deserialize_take first (wroteI ++ wroteO) (count - psbtMagic.length)
  have readI := PSBTMap.deserialize_take second wroteO
    (count - psbtMagic.length - psbt.g.length)
  have readO := PSBTMap.deserialize_take third []
    (count - psbtMagic.length - psbt.g.length - input.length)
  rw [List.append_nil, List.take_nil] at readO
  rw [fromBinary_eq_ok, deserialize_run_eq_ok, assembled]
  by_cases enough : psbtMagic.length ≤ count
  · have pieces : (psbtMagic ++ (wroteG ++ (wroteI ++ wroteO))).take count =
        psbtMagic ++ (wroteG ++ (wroteI ++ wroteO)).take (count - psbtMagic.length) := by
      rw [List.take_append, List.take_of_length_le enough]
    have magic : forall rest : Bytes, (psbtMagic ++ rest).take 5 = psbtMagic := fun _ => rfl
    have behind : forall rest : Bytes, (psbtMagic ++ rest).drop 5 = rest := fun _ => rfl
    rw [pieces, magic, behind, readG]
    constructor
    · rintro ⟨⟨g, i, o, unsigned, tx, behindG, behindI, -, cutG, found, parsed, cutI, cutO, same⟩,
        tx', sameTx, vin, vout⟩
      subst same
      cases sameTx
      rcases map_eq_ok.mp cutG with ⟨leftG, unread⟩
      subst unread
      rw [vin, run_readMany_one_eq_ok, readI] at cutI
      rcases cutI with ⟨input', cutI, one⟩
      rcases map_eq_ok.mp cutI with ⟨leftI, unread⟩
      subst one unread
      rw [vout, run_readMany_one_eq_ok, readO] at cutO
      rcases cutO with ⟨output', cutO, one⟩
      subst one
      exact ⟨enough, g, input', output', unsigned, tx, leftG, leftI, (map_eq_ok.mp cutO).1,
        found, parsed, vin, vout, rfl⟩
    · rintro ⟨-, g, input', output', unsigned, tx, cutG, cutI, cutO, found, parsed, vin, vout, same⟩
      have leftI : (readMany PSBTMap.deserialize tx.vin.length).run
          ((wroteI ++ wroteO).take (count - psbtMagic.length - psbt.g.length)) = .ok ([input'],
            wroteO.take (count - psbtMagic.length - psbt.g.length - input.length)) := by
        rw [vin, run_readMany_one_eq_ok, readI]
        exact ⟨input', map_eq_ok.mpr ⟨cutI, rfl⟩, rfl⟩
      have leftO : (readMany PSBTMap.deserialize tx.vout.length).run
          (wroteO.take (count - psbtMagic.length - psbt.g.length - input.length)) =
            .ok ([output'], []) := by
        rw [vout, run_readMany_one_eq_ok, readO]
        exact ⟨output', map_eq_ok.mpr ⟨cutO, rfl⟩, rfl⟩
      exact ⟨⟨g, [input'], [output'], unsigned, tx, _, _, rfl, map_eq_ok.mpr ⟨cutG, rfl⟩, found,
        parsed, leftI, leftO, same⟩, tx, same ▸ rfl, vin, vout⟩
  · -- A shorter string is not the magic string.
    constructor
    · rintro ⟨⟨g, i, o, unsigned, tx, behindG, behindI, magic, -⟩, -⟩
      have short := congrArg List.length magic
      rw [List.length_take, List.length_take] at short
      omega
    · rintro ⟨enough', -⟩
      exact absurd enough' enough

end PSBT

end Messages
end MutinyNet
