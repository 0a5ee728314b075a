import MutinyNet.Messages.Block

namespace MutinyNet
namespace Messages

open Codec Python

/-!
# Partially signed transactions

A PSBT is a magic string and a sequence of maps, one global, one for each input
and one for each output of the unsigned transaction in the global map.  A map
is a list of key and value strings ended by an empty key.  In memory a key of
one byte is an integer and a longer key stays a string, so no two keys of a map
share their bytes.
-/

/-- A map key: the empty key is the end marker and cannot be built, and a key
of one byte is always the integer. -/
inductive PSBTKey where
  | int (k : UInt8)
  | bytes (first second : UInt8) (rest : Bytes)
  deriving DecidableEq, Repr

namespace PSBTKey

def raw : PSBTKey -> Bytes
  | .int k => [k]
  | .bytes first second rest => first :: second :: rest

def ofRaw : Bytes -> Option PSBTKey
  | [] => none
  | [k] => some (.int k)
  | first :: second :: rest => some (.bytes first second rest)

@[simp] theorem ofRaw_raw (key : PSBTKey) : ofRaw key.raw = some key := by
  cases key <;> rfl

end PSBTKey

def psbtGlobalUnsignedTx : PSBTKey := .int 0x00
def psbtInNonWitnessUtxo : PSBTKey := .int 0x00
def psbtInFinalScriptsig : PSBTKey := .int 0x07
def psbtInFinalScriptwitness : PSBTKey := .int 0x08

theorem nodup_no_keys : (([] : List (PSBTKey × Bytes)).map Prod.fst).Nodup :=
  List.nodup_nil

/-- A Python dictionary in insertion order. -/
structure PSBTMap where
  map : List (PSBTKey × Bytes) := []
  nodup : (map.map Prod.fst).Nodup := by first | exact nodup_no_keys | decide
  deriving DecidableEq

namespace PSBTMap

def keys (self : PSBTMap) : List PSBTKey :=
  self.map.map Prod.fst

/-- `self.map.get(key)`. -/
def get? (self : PSBTMap) (key : PSBTKey) : Option Bytes :=
  self.map.lookup key

/-- `m[key] = value` for a key that is not in `m`. -/
def insertNew (self : PSBTMap) (key : PSBTKey) (value : Bytes) (fresh : key ∉ self.keys) :
    PSBTMap where
  map := self.map ++ [(key, value)]
  nodup := by
    rw [List.map_append]
    refine List.nodup_append.mpr ⟨self.nodup, List.nodup_singleton key, ?_⟩
    intro present member other only
    rw [List.map_singleton, List.mem_singleton] at only
    intro same
    subst same
    subst only
    exact fresh member

/-- The loop of `deserialize`; every round but the last reads at least two
bytes, so the length of the stream bounds the rounds. -/
def deserEntries : Nat -> PSBTMap -> Stream PSBTMap
  | 0, _ => throw .assertionError
  | fuel + 1, m => do
      let k ← deserString
      match PSBTKey.ofRaw k with
      | none => pure m
      | some key => do
          let v ← deserString
          if fresh : key ∉ m.keys then deserEntries fuel (m.insertNew key v fresh)
          else throw .assertionError

def deserialize : Stream PSBTMap := fun f => (deserEntries (f.length + 1) {}).run f

def serializeEntry (entry : PSBTKey × Bytes) : Except PyError Bytes := do
  let k ← serString entry.1.raw
  let v ← serString entry.2
  pure (k ++ v)

def serialize (self : PSBTMap) : Except PyError Bytes := do
  let entries ← writeMany serializeEntry self.map
  pure (entries ++ [0])

theorem ext_map {self other : PSBTMap} (same : self.map = other.map) : self = other := by
  cases self
  cases other
  cases same
  rfl

/-- A key of the map has the value it was stored with. -/
theorem get?_of_mem {self : PSBTMap} {key : PSBTKey} {value : Bytes}
    (member : (key, value) ∈ self.map) : self.get? key = some value := by
  rcases self with ⟨entries, nodup⟩
  unfold get?
  induction entries with
  | nil => cases member
  | cons head tail inductionHypothesis =>
      rcases head with ⟨headKey, headValue⟩
      have parts := List.nodup_cons.mp nodup
      rcases List.mem_cons.mp member with here | there
      · cases here
        exact List.lookup_cons_self
      · have different : (key == headKey) = false := by
          apply beq_eq_false_iff_ne.mpr
          intro same
          exact parts.1 (List.mem_map.mpr ⟨(key, value), there, same⟩)
        change List.lookup key ((headKey, headValue) :: tail) = some value
        rw [List.lookup_cons, different]
        exact inductionHypothesis parts.2 there

theorem mem_of_get? {self : PSBTMap} {key : PSBTKey} {value : Bytes}
    (found : self.get? key = some value) : (key, value) ∈ self.map := by
  rw [get?, List.lookup_eq_some_iff] at found
  rcases found with ⟨front, back, whole, -⟩
  rw [whole]
  exact List.mem_append_right front List.mem_cons_self

/-- One round of the loop on a serialized entry. -/
theorem deserEntries_entry {key : PSBTKey} {value k v : Bytes} (keyed : serString key.raw = .ok k)
    (valued : serString value = .ok v) (fuel : Nat) (before : PSBTMap) (rest : Bytes) :
    (deserEntries (fuel + 1) before).run (k ++ (v ++ rest)) =
      if fresh : key ∉ before.keys then
        (deserEntries fuel (before.insertNew key value fresh)).run rest
      else .error .assertionError := by
  rw [deserEntries, StateT.run_bind, readsBack_deserString keyed]
  simp only [bind, Except.bind]
  rw [PSBTKey.ofRaw_raw]
  change ((deserString.run (v ++ rest)) >>= fun read =>
    (if fresh : key ∉ before.keys then
      deserEntries fuel (before.insertNew key read.1 fresh)
    else throw PyError.assertionError : Stream PSBTMap).run read.2) = _
  rw [readsBack_deserString valued]
  simp only [bind, Except.bind]
  split <;> rfl

/-- Reading the remaining entries of a map extends what was read before. -/
private theorem readsBack_deserEntries {entries : List (PSBTKey × Bytes)} {bytes : Bytes}
    {fuel : Nat} {before after : PSBTMap} (enough : entries.length < fuel)
    (wrote : writeMany serializeEntry entries = .ok bytes)
    (whole : after.map = before.map ++ entries) :
    ReadsBack (deserEntries fuel before) (bytes ++ [0]) after := by
  rcases Nat.exists_eq_add_of_lt enough with ⟨more, rfl⟩
  induction entries generalizing before bytes with
  | nil =>
      cases wrote
      have same : before = after := ext_map (by rw [whole, List.append_nil])
      have stop : ReadsBack deserString [0] [] :=
        readsBack_deserString (rfl : serString [] = .ok [0])
      have done : ReadsBack (pure before : Stream PSBTMap) [] after :=
        same ▸ readsBack_pure before
      rw [deserEntries]
      exact (stop.bind done).congr rfl
  | cons entry entries inductionHypothesis =>
      rcases entry with ⟨key, value⟩
      rcases writeMany_cons_eq_ok.mp wrote with ⟨written, later, first, second, assembled⟩
      simp only [serializeEntry, bind_eq_ok] at first
      rcases first with ⟨k, keyed, v, valued, entryBytes⟩
      cases entryBytes
      have fresh : key ∉ before.keys := by
        have nodup := after.nodup
        rw [whole, List.map_append, List.map_cons, List.nodup_append] at nodup
        intro member
        exact nodup.2.2 key member key List.mem_cons_self rfl
      have extended : after.map = (before.insertNew key value fresh).map ++ entries := by
        rw [whole, insertNew, List.append_assoc]
        rfl
      have bound : entries.length < entries.length + more + 1 := by omega
      intro rest
      have pieces : bytes ++ [0] ++ rest = k ++ (v ++ (later ++ [0] ++ rest)) := by
        rw [assembled]
        simp only [List.append_assoc]
      rw [pieces, List.length_cons, show entries.length + 1 + more + 1 =
        entries.length + more + 1 + 1 by omega, deserEntries_entry keyed valued, dif_pos fresh]
      exact inductionHypothesis second extended bound rest

private theorem length_le_of_writeMany {entries : List (PSBTKey × Bytes)} {bytes : Bytes}
    (wrote : writeMany serializeEntry entries = .ok bytes) : entries.length ≤ bytes.length := by
  induction entries generalizing bytes with
  | nil => exact Nat.zero_le _
  | cons entry entries inductionHypothesis =>
      rcases writeMany_cons_eq_ok.mp wrote with ⟨written, later, first, second, assembled⟩
      simp only [serializeEntry, serString, bind_eq_ok] at first
      rcases first with ⟨k, ⟨size, sized, keyBytes⟩, v, valued, entryBytes⟩
      cases keyBytes
      cases entryBytes
      have shorter := inductionHypothesis second
      have keyed : 0 < entry.1.raw.length := by
        cases entry.1 <;> exact Nat.succ_pos _
      rw [assembled]
      simp only [List.length_append, List.length_cons]
      omega

/-- Every value of a serialized map fits its length field. -/
theorem serString_of_mem {self : PSBTMap} {bytes : Bytes} {entry : PSBTKey × Bytes}
    (wrote : self.serialize = .ok bytes) (member : entry ∈ self.map) :
    Exists fun written => serString entry.2 = .ok written := by
  rcases bind_eq_ok.mp wrote with ⟨entries, written, -⟩
  rcases writeMany_mem written member with ⟨one, first⟩
  simp only [serializeEntry, bind_eq_ok] at first
  rcases first with ⟨k, -, v, valued, -⟩
  exact ⟨v, valued⟩

theorem readsBack_deserialize {self : PSBTMap} {bytes : Bytes}
    (wrote : self.serialize = .ok bytes) : ReadsBack deserialize bytes self := by
  rcases bind_eq_ok.mp wrote with ⟨entries, written, assembled⟩
  cases assembled
  intro rest
  have bound := length_le_of_writeMany written
  have enough : self.map.length < (entries ++ [0] ++ rest).length + 1 := by
    simp only [List.length_append]
    omega
  have whole : self.map = ({} : PSBTMap).map ++ self.map := rfl
  exact readsBack_deserEntries enough written whole rest

end PSBTMap

/-! ## Whole transactions -/

structure PSBT where
  g : PSBTMap := {}
  i : List PSBTMap := []
  o : List PSBTMap := []
  tx : Option CTransaction := none
  deriving DecidableEq

/-- The bytes of `psbt` and 255. -/
def psbtMagic : Bytes := [0x70, 0x73, 0x62, 0x74, 0xff]

namespace PSBT

def deserialize : Stream PSBT := do
  let magic ← read 5
  let _ ← attempt (assert (magic == psbtMagic))
  let g ← PSBTMap.deserialize
  match g.get? psbtGlobalUnsignedTx with
  | none => throw .assertionError
  | some unsigned => do
      let tx ← attempt (fromBinary CTransaction.deserialize unsigned)
      let i ← readMany PSBTMap.deserialize tx.vin.length
      let o ← readMany PSBTMap.deserialize tx.vout.length
      pure { g, i, o, tx := some tx }

def serialize (self : PSBT) : Except PyError Bytes :=
  match self.g.get? psbtGlobalUnsignedTx with
  | none => .error .assertionError
  | some unsigned => do
      let tx ← fromBinary CTransaction.deserialize unsigned
      assert (tx.vin.length == self.i.length)
      assert (tx.vout.length == self.o.length)
      let psbt ← writeMany PSBTMap.serialize ([self.g] ++ self.i ++ self.o)
      pure (psbtMagic ++ psbt)

private theorem readsBack_maps {maps : List PSBTMap} {bytes : Bytes}
    (wrote : writeMany PSBTMap.serialize maps = .ok bytes) :
    ReadsBack (readMany PSBTMap.deserialize maps.length) bytes maps := by
  have each : forall value, value ∈ maps -> forall written,
      PSBTMap.serialize value = .ok written ->
        ReadsBack PSBTMap.deserialize written (id value) :=
    fun _ _ _ written => PSBTMap.readsBack_deserialize written
  have read := ReadsBack.many each wrote
  rwa [List.map_id] at read

theorem serialize_maps {self : PSBT} {bytes : Bytes} (wrote : self.serialize = .ok bytes) :
    forall map, map ∈ [self.g] ++ self.i ++ self.o ->
      Exists fun written => map.serialize = .ok written := by
  intro map member
  unfold serialize at wrote
  split at wrote
  · cases wrote
  · simp only [bind_eq_ok] at wrote
    rcases wrote with ⟨tx, -, -, -, -, -, psbt, written, -⟩
    exact writeMany_mem written member

/-- A serialized PSBT is read back with its three parts, and the unsigned
transaction is parsed from the global map. -/
theorem readsBack_deserialize {self : PSBT} {bytes : Bytes} (wrote : self.serialize = .ok bytes) :
    Exists fun unsigned => Exists fun tx => self.g.get? psbtGlobalUnsignedTx = some unsigned ∧
      fromBinary CTransaction.deserialize unsigned = .ok tx ∧
      tx.vin.length = self.i.length ∧ tx.vout.length = self.o.length ∧
      ReadsBack deserialize bytes { self with tx := some tx } := by
  unfold serialize at wrote
  cases found : self.g.get? psbtGlobalUnsignedTx with
  | none =>
      rw [found] at wrote
      cases wrote
  | some unsigned =>
      rw [found] at wrote
      simp only [bind_eq_ok, assert_eq_ok, beq_iff_eq] at wrote
      rcases wrote with ⟨tx, parsed, -, inputs, -, outputs, psbt, written, assembled⟩
      cases assembled
      rcases writeMany_append_eq_ok written with ⟨front, o, wroteFront, wroteO, joined⟩
      rcases writeMany_append_eq_ok wroteFront with ⟨g, i, wroteG, wroteI, joinedFront⟩
      rcases writeMany_cons_eq_ok.mp wroteG with ⟨g', later, wroteMap, wroteNil, joinedG⟩
      cases wroteNil
      rw [List.append_nil] at joinedG
      subst joinedG
      refine ⟨unsigned, tx, rfl, parsed, inputs, outputs, ?_⟩
      have magic : ReadsBack (read 5) psbtMagic psbtMagic := readsBack_read rfl
      have checked : ReadsBack (attempt (assert (psbtMagic == psbtMagic))) [] () :=
        readsBack_attempt rfl
      have pieces : psbtMagic ++ psbt = psbtMagic ++ ([] ++ (g ++ ([] ++ (i ++ o)))) := by
        rw [joined, joinedFront]
        simp only [List.append_assoc, List.nil_append]
      have readI : ReadsBack (readMany PSBTMap.deserialize tx.vin.length) i self.i := by
        rw [inputs]
        exact readsBack_maps wroteI
      have readO : ReadsBack (readMany PSBTMap.deserialize tx.vout.length) o self.o := by
        rw [outputs]
        exact readsBack_maps wroteO
      rw [pieces]
      refine magic.bind (checked.bind ((PSBTMap.readsBack_deserialize wroteMap).bind ?_))
      rw [found]
      refine (readsBack_attempt parsed).bind (readI.bind ?_)
      exact readO.last fun o => ({ g := self.g, i := self.i, o, tx := some tx } : PSBT)

end PSBT

/-- A text encoding of byte strings and its inverse, `base64` in the source. -/
structure Base64 where
  encode : Bytes -> String
  decode : String -> Except PyError Bytes
  decode_encode : forall bytes, decode (encode bytes) = .ok bytes

namespace PSBT

def toBase64 (base64 : Base64) (self : PSBT) : Except PyError String := do
  let bytes ← self.serialize
  pure (base64.encode bytes)

def fromBase64 (base64 : Base64) (b64psbt : String) : Except PyError PSBT := do
  let bytes ← base64.decode b64psbt
  fromBinary deserialize bytes

theorem fromBase64_encode (base64 : Base64) {bytes : Bytes} {value : PSBT}
    (read : ReadsBack deserialize bytes value) :
    fromBase64 base64 (base64.encode bytes) = .ok value := by
  rw [fromBase64, base64.decode_encode]
  exact fromBinary_of_readsBack read

/-- The text of a PSBT determines its three parts. -/
theorem toBase64_injective {base64 : Base64} {self other : PSBT} {text : String}
    (wrote : self.toBase64 base64 = .ok text) (wrote' : other.toBase64 base64 = .ok text) :
    self.g = other.g ∧ self.i = other.i ∧ self.o = other.o := by
  rcases bind_eq_ok.mp wrote with ⟨bytes, written, encoded⟩
  rcases bind_eq_ok.mp wrote' with ⟨bytes', written', encoded'⟩
  cases encoded
  have sameText : base64.encode bytes' = base64.encode bytes := Except.ok.inj encoded'
  have sameBytes := base64.decode_encode bytes'
  rw [sameText, base64.decode_encode] at sameBytes
  cases sameBytes
  rcases readsBack_deserialize written with ⟨_, tx, -, -, -, -, read⟩
  rcases readsBack_deserialize written' with ⟨_, tx', -, -, -, -, read'⟩
  have same := read.value_unique read'
  rcases PSBT.mk.inj same with ⟨g, i, o, -⟩
  exact ⟨g, i, o⟩

end PSBT

end Messages
end MutinyNet
