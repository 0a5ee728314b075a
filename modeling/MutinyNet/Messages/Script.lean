import MutinyNet.Messages.Serialize

namespace MutinyNet
namespace Messages

open Codec Python

/-!
# Scripts

The pushes and opcodes of `script.py` that the miner writes, and `raw_iter`,
the parser that takes them apart again.  A push is written in the shortest of
four forms, which change at lengths 76, 256 and 65536.
-/

def opReturn : UInt8 := 0x6a

/-- `CScriptOp.encode_op_pushdata`. -/
def encodeOpPushdata (d : Bytes) : Except PyError Bytes :=
  if d.length < 0x4c then .ok (UInt8.ofNat d.length :: d)
  else if d.length ≤ 0xff then .ok (0x4c :: (UInt8.ofNat d.length :: d))
  else if d.length ≤ 0xffff then .ok (0x4d :: (littleEndian 2 d.length ++ d))
  else if d.length ≤ 0xffffffff then .ok (0x4e :: (littleEndian 4 d.length ++ d))
  else .error (.valueError "Data too long to encode in a PUSHDATA op")

/-- `CScriptOp.encode_op_n`. -/
def encodeOpN (n : Int) : Except PyError UInt8 :=
  if 0 ≤ n ∧ n ≤ 16 then
    .ok (if n = 0 then 0x00 else UInt8.ofNat (0x51 + n.toNat - 1))
  else .error (.valueError ("Integer must be in range 0 <= n <= 16, got " ++ toString n))

/-- The bytes of a positive number, least significant first, without leading
zeros; zero has no bytes. -/
def minimalBytes : Nat -> Nat -> Bytes
  | 0, _ => []
  | fuel + 1, absvalue =>
      if absvalue = 0 then []
      else UInt8.ofNat (absvalue % 256) :: minimalBytes fuel (absvalue / 256)

/-- The sign goes into the top bit of the last byte, or into a byte of its own
where that bit is taken. -/
def signedMagnitude (negative : Bool) (r : Bytes) : Bytes :=
  match r.getLast? with
  | none => r
  | some last =>
      if last &&& 0x80 ≠ 0 then r ++ [if negative then 0x80 else 0]
      else if negative then r.dropLast ++ [last ||| 0x80]
      else r

/-- `CScriptNum.encode`. -/
def encodeScriptNum (value : Int) : Except PyError Bytes :=
  if value = 0 then .ok []
  else
    let r := signedMagnitude (decide (value < 0)) (minimalBytes value.natAbs value.natAbs)
    if r.length < 256 then .ok (UInt8.ofNat r.length :: r)
    else .error (.valueError "bytes must be in range(0, 256)")

/-- `script_BIP34_coinbase_height`. -/
def scriptBIP34CoinbaseHeight (height : Int) : Except PyError Bytes :=
  if height ≤ 16 then do
    let res ← encodeOpN height
    pure [res, 0x00]
  else encodeScriptNum height

def witnessCommitmentHeader : Bytes := [0xaa, 0x21, 0xa9, 0xed]

/-- `get_witness_script`. -/
def getWitnessScript (hash256 : Hash256) (witnessRoot witnessNonce : Int) :
    Except PyError Bytes := do
  let root ← serUint256 witnessRoot
  let nonce ← serUint256 witnessNonce
  let commitment ← serUint256 (uint256FromStr (hash256 (root ++ nonce)))
  let push ← encodeOpPushdata (witnessCommitmentHeader ++ commitment)
  pure (opReturn :: push)

/-! ## Parsing -/

/-- One step of `raw_iter`: the opcode, the pushed data if it is a push, and
the index of the opcode in the script. -/
structure ScriptItem where
  opcode : UInt8
  data : Option Bytes
  sopIdx : Nat
  deriving DecidableEq, Repr

/-- The length field of a push: its name, its width and the length it holds. -/
def lengthField (pushdataType : String) (width : Nat) (rest : Bytes) :
    Except PyError (String × Nat × Nat) :=
  if rest.length < width then .error (.scriptInvalid (pushdataType ++ ": missing data length"))
  else .ok (pushdataType, width, fromLittleEndian (rest.take width))

/-- The four push forms; the shortest one keeps the length in the opcode. -/
def pushHeader (opcode : Nat) (rest : Bytes) : Except PyError (String × Nat × Nat) :=
  if opcode < 0x4c then .ok ("PUSHDATA(" ++ toString opcode ++ ")", 0, opcode)
  else if opcode = 0x4c then lengthField "PUSHDATA1" 1 rest
  else if opcode = 0x4d then lengthField "PUSHDATA2" 2 rest
  else lengthField "PUSHDATA4" 4 rest

/-- `raw_iter` from index `i`, where `rest` is what the script has left.  Every
step takes at least its opcode, so the length of the script bounds the steps. -/
def rawIterFrom : Nat -> Nat -> Bytes -> Except PyError (List ScriptItem)
  | _, _, [] => .ok []
  | 0, _, _ :: _ => .ok []
  | fuel + 1, i, opcode :: rest =>
      if opcode.toNat > 0x4e then do
        let items ← rawIterFrom fuel (i + 1) rest
        pure ({ opcode, data := none, sopIdx := i } :: items)
      else do
        let (pushdataType, width, datasize) ← pushHeader opcode.toNat rest
        let data := (rest.drop width).take datasize
        if data.length < datasize then
          .error (.scriptTruncated (pushdataType ++ ": truncated data") data)
        else do
          let items ← rawIterFrom fuel (i + 1 + width + datasize) (rest.drop (width + datasize))
          pure ({ opcode, data := some data, sopIdx := i } :: items)

def rawIter (script : Bytes) : Except PyError (List ScriptItem) :=
  rawIterFrom script.length 0 script

theorem rawIterFrom_nil (fuel i : Nat) : rawIterFrom fuel i [] = .ok [] := by
  cases fuel <;> rfl

theorem rawIterFrom_opcode {opcode : UInt8} (large : opcode.toNat > 0x4e) (fuel i : Nat)
    (rest : Bytes) :
    rawIterFrom (fuel + 1) i (opcode :: rest) =
      (rawIterFrom fuel (i + 1) rest).map
        (fun items => { opcode, data := none, sopIdx := i } :: items) := by
  rw [rawIterFrom, if_pos large]
  rfl

theorem lengthField_littleEndian (pushdataType : String) {width value : Nat}
    (fits : value < 256 ^ width) (rest : Bytes) :
    lengthField pushdataType width (littleEndian width value ++ rest) =
      .ok (pushdataType, width, value) := by
  have long : ¬ (littleEndian width value ++ rest).length < width := by
    rw [List.length_append, length_littleEndian]
    omega
  rw [lengthField, if_neg long, List.take_left' (length_littleEndian width value),
    fromLittleEndian_littleEndian_of_lt fits]

/-- The four forms of a push have one shape: an opcode, a length field of some
width, and the data it announces. -/
theorem encodeOpPushdata_shape {d bytes : Bytes} (wrote : encodeOpPushdata d = .ok bytes) :
    Exists fun opcode : UInt8 => Exists fun field => bytes = opcode :: (field ++ d) ∧
      ¬ opcode.toNat > 0x4e ∧ forall rest, Exists fun kind =>
        pushHeader opcode.toNat (field ++ rest) = .ok (kind, field.length, d.length) := by
  unfold encodeOpPushdata at wrote
  split at wrote
  · next direct =>
      cases wrote
      have value : (UInt8.ofNat d.length).toNat = d.length := by
        rw [UInt8.toNat_ofNat']
        omega
      refine ⟨UInt8.ofNat d.length, [], rfl, by omega,
        fun rest => ⟨"PUSHDATA(" ++ toString d.length ++ ")", ?_⟩⟩
      rw [value, pushHeader, if_pos direct]
      rfl
  · split at wrote
    · cases wrote
      refine ⟨0x4c, littleEndian 1 d.length, ?_, by decide, fun rest => ⟨"PUSHDATA1", ?_⟩⟩
      · rw [littleEndian, littleEndian, Nat.mod_eq_of_lt (by omega)]
        rfl
      · rw [length_littleEndian]
        exact lengthField_littleEndian _ (by omega : d.length < 256 ^ 1) rest
    · split at wrote
      · cases wrote
        refine ⟨0x4d, littleEndian 2 d.length, rfl, by decide, fun rest => ⟨"PUSHDATA2", ?_⟩⟩
        rw [length_littleEndian]
        exact lengthField_littleEndian _ (by omega : d.length < 256 ^ 2) rest
      · split at wrote
        · cases wrote
          refine ⟨0x4e, littleEndian 4 d.length, rfl, by decide, fun rest => ⟨"PUSHDATA4", ?_⟩⟩
          rw [length_littleEndian]
          exact lengthField_littleEndian _ (by omega : d.length < 256 ^ 4) rest
        · cases wrote

/-- Whatever form a push takes, the parser returns its data as one item and
goes on behind it. -/
theorem rawIterFrom_push {d bytes : Bytes} (wrote : encodeOpPushdata d = .ok bytes)
    (fuel i : Nat) (rest : Bytes) :
    Exists fun opcode => Exists fun next => rawIterFrom (fuel + 1) i (bytes ++ rest) =
      (rawIterFrom fuel next rest).map
        (fun items => { opcode, data := some d, sopIdx := i } :: items) := by
  rcases encodeOpPushdata_shape wrote with ⟨opcode, field, shape, small, announces⟩
  rcases announces (d ++ rest) with ⟨kind, header⟩
  have data : ((field ++ (d ++ rest)).drop field.length).take d.length = d := by
    rw [List.drop_left, List.take_left]
  have behind : (field ++ (d ++ rest)).drop (field.length + d.length) = rest := by
    rw [← List.drop_drop, List.drop_left, List.drop_left]
  refine ⟨opcode, i + 1 + field.length + d.length, ?_⟩
  rw [shape, List.cons_append, List.append_assoc, rawIterFrom, if_neg small, header]
  simp only [bind, Except.bind, data, behind, lt_irrefl, if_false]
  rfl

/-- Distinct data never share a push. -/
theorem encodeOpPushdata_injective {d d' bytes : Bytes} (wrote : encodeOpPushdata d = .ok bytes)
    (wrote' : encodeOpPushdata d' = .ok bytes) : d = d' := by
  rcases rawIterFrom_push wrote 0 0 [] with ⟨opcode, next, parsed⟩
  rcases rawIterFrom_push wrote' 0 0 [] with ⟨opcode', next', parsed'⟩
  rw [parsed, rawIterFrom_nil, rawIterFrom_nil] at parsed'
  simp only [Except.map, Except.ok.injEq, List.cons.injEq, ScriptItem.mk.injEq,
    Option.some.injEq] at parsed'
  exact parsed'.1.2.1

theorem length_encodeOpPushdata {d bytes : Bytes} (wrote : encodeOpPushdata d = .ok bytes) :
    d.length < bytes.length := by
  rcases encodeOpPushdata_shape wrote with ⟨opcode, field, shape, -⟩
  rw [shape]
  simp only [List.length_cons, List.length_append]
  omega

end Messages
end MutinyNet
