import MutinyNet.Messages.Layout
import MutinyNet.Miner.Handoff

namespace MutinyNet
namespace Miner

open Codec Python Messages

/-!
# Decoding a signed PSBT that was cut off

`solvepsbt` reads a PSBT from a pipe.  No reader below `decode_psbt` asks for
more bytes than the stream has, so the first bytes of a PSBT are a PSBT again:
its maps hold what is left of the entries.  The decoder turns some of these
away, and of the others it returns what was in front of the cut.  Which ones it turns
away, and which cuts take nothing that it looks at, depends on where the cut is.
-/

/-- What is left of the global map in the first bytes of a PSBT. -/
def globalsLeft (psbt : PSBT) (count : Nat) : List (PSBTKey × Bytes) :=
  cutEntries psbt.g.map (count - psbtMagic.length)

/-- What is left of the first input map. -/
def inputLeft (psbt : PSBT) (count : Nat) : List (PSBTKey × Bytes) :=
  cutEntries (psbt.i.headD {}).map (count - psbtMagic.length - psbt.g.length)

def DistinctKeys (entries : List (PSBTKey × Bytes)) : Prop :=
  (entries.map Prod.fst).Nodup

/-- A PSBT as the standard asks for it: the unsigned transaction has inputs and is
written without a witness, and the block is written like any other. -/
structure WellFormed (psbt : PSBT) (tx : CTransaction) (block : CBlock) : Prop where
  inputs : tx.vin ≠ []
  unsigned : Exists fun bytes => psbt.g.get? psbtGlobalUnsignedTx = some bytes ∧
    tx.serializeWithoutWitness = .ok bytes
  readable : block.Readable
  embedded : Exists fun bytes => psbt.g.get? psbtSignetBlock = some bytes ∧
    block.serialize = .ok bytes

/-- The cuts for which the first bytes of a PSBT are turned away: inside the magic
bytes, inside a key so that it repeats another one, in front of the count of the
outputs of the unsigned transaction, and inside or in front of the key of the block. -/
inductive Refused (psbt : PSBT) (tx : CTransaction) (count : Nat) : Prop where
  | magic (short : count < psbtMagic.length)
  | globals (repeated : ¬ DistinctKeys (globalsLeft psbt count))
  | input (repeated : ¬ DistinctKeys (inputLeft psbt count))
  | unsigned (short : forall unsigned,
      (globalsLeft psbt count).lookup psbtGlobalUnsignedTx = some unsigned ->
        unsigned.length ≤ tx.inputsEnd)
  | block (missing : (globalsLeft psbt count).lookup psbtSignetBlock = none)

/-- The cut takes nothing the decoder looks at: the bytes that are left of the block
hold its fields, and the two fields of the signature are as they were. -/
structure Kept (psbt : PSBT) (block : CBlock) (count : Nat) : Prop where
  block : forall embedded, (globalsLeft psbt count).lookup psbtSignetBlock = some embedded ->
    Spared block.fields embedded.length
  scriptSig : ((inputLeft psbt count).lookup psbtInFinalScriptsig).getD [] =
    (inputField psbt psbtInFinalScriptsig).getD []
  scriptWitness : ((inputLeft psbt count).lookup psbtInFinalScriptwitness).getD [0x00] =
    (inputField psbt psbtInFinalScriptwitness).getD [0x00]

/-! ## What the decoder reads -/

theorem decodePsbt_eq_ok {base64 : Base64} {text : String} {block : CBlock} {solution : Bytes} :
    decodePsbt base64 text = .ok (block, solution) <->
      Exists fun psbt => Exists fun tx => Exists fun embedded => Exists fun script =>
        PSBT.fromBase64 base64 text = .ok psbt ∧ psbt.tx = some tx ∧ tx.vin.length = 1 ∧
          tx.vout.length = 1 ∧ psbt.g.get? psbtSignetBlock = some embedded ∧ psbt.i ≠ [] ∧
          fromBinary CBlock.deserialize embedded = .ok block ∧
          serString ((inputField psbt psbtInFinalScriptsig).getD []) = .ok script ∧
          solution = script ++ (inputField psbt psbtInFinalScriptwitness).getD [0x00] := by
  unfold decodePsbt
  rw [bind_eq_ok]
  constructor
  · rintro ⟨psbt, decoded, run⟩
    cases unsigned : psbt.tx with
    | none =>
        rw [unsigned] at run
        cases run
    | some tx =>
        rw [unsigned] at run
        simp only [bind_eq_ok, assert_eq_ok, beq_iff_eq] at run
        rcases run with ⟨-, vin, -, vout, run⟩
        cases found : psbt.g.get? psbtSignetBlock with
        | none =>
            rw [found] at run
            cases run
        | some embedded =>
            rw [found] at run
            cases inputs : psbt.i with
            | nil =>
                rw [inputs] at run
                cases run
            | cons input later =>
                rw [inputs] at run
                simp only [bind_eq_ok] at run
                rcases run with ⟨parsed, parse, script, scripted, same⟩
                cases same
                have field : forall key, inputField psbt key = input.get? key := by
                  intro key
                  rw [inputField, inputs]
                  rfl
                refine ⟨psbt, tx, embedded, script, decoded, unsigned, vin, vout, found, ?_, parse,
                  ?_, ?_⟩
                · rw [inputs]
                  exact List.cons_ne_nil _ _
                · rw [field]
                  exact scripted
                · rw [field]
  · rintro ⟨psbt, tx, embedded, script, decoded, unsigned, vin, vout, found, some, parse, scripted,
      same⟩
    refine ⟨psbt, decoded, ?_⟩
    cases inputs : psbt.i with
    | nil => exact absurd inputs some
    | cons input later =>
        have field : forall key, inputField psbt key = input.get? key := by
          intro key
          rw [inputField, inputs]
          rfl
        rw [field] at scripted
        rw [unsigned, same, field]
        simp only [found, bind_eq_ok, assert_eq_ok, beq_iff_eq]
        exact ⟨(), vin, (), vout, block, parse, script, scripted, rfl⟩

/-- A solution determines the two fields it is made of. -/
theorem solution_injective {scriptSig scriptSig' script script' witness witness' : Bytes}
    (wrote : serString scriptSig = .ok script) (wrote' : serString scriptSig' = .ok script')
    (same : script ++ witness = script' ++ witness') :
    scriptSig = scriptSig' ∧ witness = witness' :=
  (readsBack_deserString wrote).frame (readsBack_deserString wrote') same

/-- An accepted PSBT has one input and one output. -/
theorem single_of_decodePsbt {base64 : Base64} {psbt : PSBT} {bytes : Bytes}
    {result : CBlock × Bytes} (wrote : psbt.serialize = .ok bytes)
    (accepted : decodePsbt base64 (base64.encode bytes) = .ok result) :
    Exists fun input => Exists fun output => psbt.i = [input] ∧ psbt.o = [output] := by
  rcases decodePsbt_eq_ok.mp accepted with ⟨decoded, tx, -, -, read, unsigned, vin, vout, -⟩
  rcases PSBT.readsBack_deserialize wrote with ⟨-, tx', -, -, inputs, outputs, readsBack⟩
  rw [PSBT.fromBase64_encode base64 readsBack] at read
  cases read
  cases unsigned
  rw [vin] at inputs
  rw [vout] at outputs
  rcases List.length_eq_one_iff.mp inputs.symm with ⟨input, first⟩
  rcases List.length_eq_one_iff.mp outputs.symm with ⟨output, second⟩
  exact ⟨input, output, first, second⟩

section Cut

variable {base64 : Base64} {psbt : PSBT} {input output : PSBTMap} {bytes : Bytes}

/-- What the decoder returns for the first bytes of a PSBT: the fields that are
left in its maps. -/
theorem decodePsbt_take (wrote : psbt.serialize = .ok bytes) (inputs : psbt.i = [input])
    (outputs : psbt.o = [output]) (count : Nat) {block : CBlock} {solution : Bytes} :
    decodePsbt base64 (base64.encode (bytes.take count)) = .ok (block, solution) <->
      psbtMagic.length ≤ count ∧
        Exists fun output' => Exists fun unsigned => Exists fun tx => Exists fun embedded =>
          Exists fun script =>
            DistinctKeys (globalsLeft psbt count) ∧ DistinctKeys (inputLeft psbt count) ∧
            output.cut (count - psbtMagic.length - psbt.g.length - input.length) = .ok output' ∧
            (globalsLeft psbt count).lookup psbtGlobalUnsignedTx = some unsigned ∧
            fromBinary CTransaction.deserialize unsigned = .ok tx ∧ tx.vin.length = 1 ∧
            tx.vout.length = 1 ∧ (globalsLeft psbt count).lookup psbtSignetBlock = some embedded ∧
            fromBinary CBlock.deserialize embedded = .ok block ∧
            serString (((inputLeft psbt count).lookup psbtInFinalScriptsig).getD []) = .ok script ∧
            solution = script ++
              ((inputLeft psbt count).lookup psbtInFinalScriptwitness).getD [0x00] := by
  have here : inputLeft psbt count =
      cutEntries input.map (count - psbtMagic.length - psbt.g.length) := by
    rw [inputLeft, inputs]
    rfl
  rw [decodePsbt_eq_ok, here]
  simp only [PSBT.fromBase64, base64.decode_encode, bind, Except.bind]
  constructor
  · rintro ⟨read, tx, embedded, script, decoded, unsigned, vin, vout, found, -, parse, scripted,
      same⟩
    rcases (PSBT.fromBinary_take wrote inputs outputs count).mp ⟨decoded, tx, unsigned, vin, vout⟩
      with ⟨enough, g, input', output', unsigned', tx', leftG, leftI, leftO, present, parsed, vin',
        vout', shape⟩
    subst shape
    have mapG := PSBTMap.cut_eq_ok.mp leftG
    have mapI := PSBTMap.cut_eq_ok.mp leftI
    have distinct := g.nodup
    have distinct' := input'.nodup
    rw [mapG] at distinct
    rw [mapI] at distinct'
    have field : forall key, inputField
        { g, i := [input'], o := [output'], tx := some tx' } key = input'.map.lookup key :=
      fun _ => rfl
    rw [field, mapI] at scripted
    rw [field, mapI] at same
    rw [PSBTMap.get?, mapG] at present found
    exact ⟨enough, output', unsigned', tx', embedded, script, distinct, distinct', leftO, present,
      parsed, vin', vout', found, parse, scripted, same⟩
  · rintro ⟨enough, output', unsigned, tx, embedded, script, distinct, distinct', leftO, present,
      parsed, vin, vout, found, parse, scripted, same⟩
    rcases PSBTMap.exists_cut distinct with ⟨g, leftG⟩
    rcases PSBTMap.exists_cut distinct' with ⟨input', leftI⟩
    have mapG := PSBTMap.cut_eq_ok.mp leftG
    have mapI := PSBTMap.cut_eq_ok.mp leftI
    have foundG : forall key, g.get? key = (globalsLeft psbt count).lookup key := fun key => by
      rw [PSBTMap.get?, mapG]
      rfl
    have read := (PSBT.fromBinary_take wrote inputs outputs count).mpr ⟨enough, g, input', output',
      unsigned, tx, leftG, leftI, leftO, (foundG _).trans present, parsed, vin, vout, rfl⟩
    have field : forall key, inputField { g, i := [input'], o := [output'], tx := some tx } key =
        (cutEntries input.map (count - psbtMagic.length - psbt.g.length)).lookup key := by
      intro key
      rw [← mapI]
      rfl
    refine ⟨_, tx, embedded, script, read.1, rfl, vin, vout, (foundG _).trans found,
      List.cons_ne_nil _ _, parse, ?_, ?_⟩
    · rw [field]
      exact scripted
    · rw [field]
      exact same

/-- What is left of a global entry is the front of its value. -/
theorem eq_take_of_globalsLeft {key : PSBTKey} {whole left : Bytes} {count : Nat}
    (found : psbt.g.get? key = some whole)
    (kept : (globalsLeft psbt count).lookup key = some left) :
    left = whole.take left.length :=
  List.prefix_iff_eq_take.mp (prefix_of_lookup_cutEntries found kept)

/-- What is left of the unsigned transaction has one input and one output exactly if it
holds the count of the outputs. -/
theorem single_of_globalsLeft {tx : CTransaction} {block : CBlock}
    (wellFormed : WellFormed psbt tx block) (vin : tx.vin.length = 1) (vout : tx.vout.length = 1)
    {count : Nat} {unsigned : Bytes}
    (kept : (globalsLeft psbt count).lookup psbtGlobalUnsignedTx = some unsigned) :
    Exists fun other => fromBinary CTransaction.deserialize unsigned = .ok other ∧
      (other.vin.length = 1 ∧ other.vout.length = 1 <-> tx.inputsEnd < unsigned.length) := by
  rcases wellFormed.unsigned with ⟨whole, found, wrote⟩
  have front := eq_take_of_globalsLeft found kept
  have within : unsigned.length ≤ whole.length := by
    rw [front, List.length_take]
    exact Nat.min_le_right _ _
  have cut := CTransaction.single_of_cut vin vout wrote within
  rwa [← front] at cut

/-- What is left of the block is the same block exactly if it holds its fields. -/
theorem block_of_globalsLeft {tx : CTransaction} {block : CBlock}
    (wellFormed : WellFormed psbt tx block) {count : Nat} {embedded : Bytes}
    (kept : (globalsLeft psbt count).lookup psbtSignetBlock = some embedded) :
    Exists fun other => fromBinary CBlock.deserialize embedded = .ok other ∧
      (other = block.uncached <-> Spared block.fields embedded.length) := by
  rcases wellFormed.embedded with ⟨whole, found, wrote⟩
  have front := eq_take_of_globalsLeft found kept
  have within : embedded.length ≤ whole.length := by
    rw [front, List.length_take]
    exact Nat.min_le_right _ _
  rcases (CBlock.laid_deserialize wellFormed.readable wrote).run_take within
    with ⟨other, run, same⟩
  rw [← front] at run
  exact ⟨other, fromBinary_eq_ok.mpr run, same⟩

/-- A cut behind the input map takes nothing the decoder looks at. -/
theorem kept_of_le {tx : CTransaction} {block : CBlock} (wellFormed : WellFormed psbt tx block)
    (inputs : psbt.i = [input]) {count : Nat}
    (behind : psbtMagic.length + psbt.g.length + input.length ≤ count) :
    Kept psbt block count := by
  have globals : globalsLeft psbt count = psbt.g.map := by
    apply PSBTMap.cutEntries_of_le
    have size : psbt.g.length = (psbt.g.map.map entryLength).sum + 1 := rfl
    omega
  have fields : inputLeft psbt count = input.map := by
    rw [inputLeft, inputs]
    change cutEntries input.map _ = input.map
    apply PSBTMap.cutEntries_of_le
    have size : input.length = (input.map.map entryLength).sum + 1 := rfl
    omega
  have field : forall key, inputField psbt key = input.map.lookup key := by
    intro key
    rw [inputField, inputs]
    rfl
  constructor
  · intro embedded found
    rcases wellFormed.embedded with ⟨whole, present, wrote⟩
    rw [globals, ← PSBTMap.get?, present] at found
    cases found
    exact (CBlock.laid_deserialize wellFormed.readable wrote).full _ (le_refl _)
  · rw [fields, field]
  · rw [fields, field]

/-- What the decoder found in the whole PSBT. -/
theorem fields_of_decodePsbt {block : CBlock} {solution : Bytes}
    (wrote : psbt.serialize = .ok bytes)
    (accepted : decodePsbt base64 (base64.encode bytes) = .ok (block, solution)) :
    Exists fun whole => Exists fun script => psbt.g.get? psbtSignetBlock = some whole ∧
      fromBinary CBlock.deserialize whole = .ok block ∧
      serString ((inputField psbt psbtInFinalScriptsig).getD []) = .ok script ∧
      solution = script ++ (inputField psbt psbtInFinalScriptwitness).getD [0x00] := by
  rcases decodePsbt_eq_ok.mp accepted with ⟨decoded, tx, whole, script, read, -, -, -, found, -,
    parse, scripted, same⟩
  rcases PSBT.readsBack_deserialize wrote with ⟨-, tx', -, -, -, -, readsBack⟩
  rw [PSBT.fromBase64_encode base64 readsBack] at read
  cases read
  exact ⟨whole, script, found, parse, scripted, same⟩

/-- What is left of a signature field can be written. -/
theorem serString_inputLeft (wrote : psbt.serialize = .ok bytes) (inputs : psbt.i = [input])
    (outputs : psbt.o = [output]) (count : Nat) (key : PSBTKey) :
    Exists fun script => serString (((inputLeft psbt count).lookup key).getD []) = .ok script := by
  rcases PSBT.serialize_parts wrote inputs outputs with ⟨-, wroteI, -, -, second, -, -⟩
  rcases bind_eq_ok.mp second with ⟨entries, written, -⟩
  cases found : (inputLeft psbt count).lookup key with
  | none => exact ⟨[0], rfl⟩
  | some value =>
      rcases List.lookup_eq_some_iff.mp found with ⟨front, back, whole, -⟩
      have member : (key, value) ∈ inputLeft psbt count := by
        rw [whole]
        exact List.mem_append_right front List.mem_cons_self
      rw [inputLeft, inputs] at member
      exact PSBTMap.serString_of_mem_cutEntries written member

/-- What is not turned away is decoded. -/
theorem decodes_of_not_refused (base64 : Base64) {tx : CTransaction} {block : CBlock}
    (wellFormed : WellFormed psbt tx block) (vin : tx.vin.length = 1) (vout : tx.vout.length = 1)
    (wrote : psbt.serialize = .ok bytes) (inputs : psbt.i = [input]) (outputs : psbt.o = [output])
    {count : Nat} (accepted : ¬ Refused psbt tx count)
    (within : count ≤ psbtMagic.length + psbt.g.length + input.length) :
    Exists fun result =>
      decodePsbt base64 (base64.encode (bytes.take count)) = .ok result := by
  have readable : Exists fun unsigned => Exists fun other =>
      (globalsLeft psbt count).lookup psbtGlobalUnsignedTx = some unsigned ∧
        fromBinary CTransaction.deserialize unsigned = .ok other ∧ other.vin.length = 1 ∧
        other.vout.length = 1 := by
    by_contra unreadable
    apply accepted
    apply Refused.unsigned
    intro unsigned found
    rcases single_of_globalsLeft wellFormed vin vout found with ⟨other, parsed, single⟩
    exact not_lt.mp fun enough => unreadable ⟨unsigned, other, found, parsed, single.mpr enough⟩
  have embeds : Exists fun embedded => Exists fun other =>
      (globalsLeft psbt count).lookup psbtSignetBlock = some embedded ∧
        fromBinary CBlock.deserialize embedded = .ok other := by
    cases found : (globalsLeft psbt count).lookup psbtSignetBlock with
    | none => exact absurd (.block found) accepted
    | some embedded =>
        rcases block_of_globalsLeft wellFormed found with ⟨other, parsed, -⟩
        exact ⟨embedded, other, rfl, parsed⟩
  have enough : psbtMagic.length ≤ count := by
    by_contra short
    exact accepted (.magic (not_le.mp short))
  have distinct : DistinctKeys (globalsLeft psbt count) := by
    by_contra repeated
    exact accepted (.globals repeated)
  have distinct' : DistinctKeys (inputLeft psbt count) := by
    by_contra repeated
    exact accepted (.input repeated)
  rcases readable with ⟨unsigned, other, present, parsed, vin, vout⟩
  rcases embeds with ⟨embedded, block, found, parse⟩
  rcases serString_inputLeft wrote inputs outputs count psbtInFinalScriptsig with
    ⟨script, scripted⟩
  have untouched : output.cut (count - psbtMagic.length - psbt.g.length - input.length) =
      .ok {} := by
    rw [show count - psbtMagic.length - psbt.g.length - input.length = 0 by omega]
    exact output.cut_zero
  exact ⟨(block, _), (decodePsbt_take wrote inputs outputs count).mpr ⟨enough, {}, unsigned, other,
    embedded, script, distinct, distinct', untouched, present, parsed, vin, vout, found, parse,
    scripted, rfl⟩⟩

/-- The unsigned transaction of an accepted PSBT has one input and one output, and its
block is the one that is embedded. -/
theorem result_of_wellFormed {base64 : Base64} {tx : CTransaction} {block other : CBlock}
    {solution : Bytes} (wellFormed : WellFormed psbt tx block)
    (wrote : psbt.serialize = .ok bytes)
    (accepted : decodePsbt base64 (base64.encode bytes) = .ok (other, solution)) :
    tx.vin.length = 1 ∧ tx.vout.length = 1 ∧ other = block.uncached := by
  rcases wellFormed.unsigned with ⟨unsigned, present, wroteTx⟩
  rcases wellFormed.embedded with ⟨whole, found, wroteBlock⟩
  rcases single_of_decodePsbt wrote accepted with ⟨input, output, inputs, outputs⟩
  rcases fields_of_decodePsbt wrote accepted with ⟨whole', -, found', parse, -⟩
  rcases PSBT.readsBack_deserialize wrote with ⟨unsigned', parsed, present', read, vin, vout, -⟩
  rw [present] at present'
  cases present'
  rw [found] at found'
  cases found'
  rw [fromBinary_of_readsBack (CTransaction.readsBack_withoutWitness wellFormed.inputs wroteTx)]
    at read
  cases read
  rw [fromBinary_of_readsBack (CBlock.readsBack_deserialize wellFormed.readable wroteBlock)]
    at parse
  cases parse
  rw [inputs] at vin
  rw [outputs] at vout
  exact ⟨vin, vout, rfl⟩

end Cut

/-- Decoding `part` gives the result it should give or fails. -/
def NotMisread (base64 : Base64) (part : Bytes) (result : CBlock × Bytes) : Prop :=
  forall other, decodePsbt base64 (base64.encode part) = .ok other -> other = result

theorem notMisread_take_iff {base64 : Base64} {psbt : PSBT} {tx : CTransaction} {block : CBlock}
    {bytes : Bytes} {result : CBlock × Bytes} (wellFormed : WellFormed psbt tx block)
    (wrote : psbt.serialize = .ok bytes)
    (accepted : decodePsbt base64 (base64.encode bytes) = .ok result) (count : Nat) :
    NotMisread base64 (bytes.take count) result <->
      Refused psbt tx count ∨ Kept psbt block count := by
  rcases result with ⟨decoded, solution⟩
  rcases result_of_wellFormed wellFormed wrote accepted with ⟨vinTx, voutTx, rfl⟩
  rcases single_of_decodePsbt wrote accepted with ⟨input, output, inputs, outputs⟩
  rcases fields_of_decodePsbt wrote accepted with ⟨whole, script, found, parse, scripted, same⟩
  constructor
  · intro faithful
    by_cases refused : Refused psbt tx count
    · exact Or.inl refused
    · apply Or.inr
      by_cases behind : psbtMagic.length + psbt.g.length + input.length ≤ count
      · exact kept_of_le wellFormed inputs behind
      · rcases decodes_of_not_refused base64 wellFormed vinTx voutTx wrote inputs outputs refused
          (by omega) with ⟨other, run⟩
        have unchanged := faithful other run
        subst unchanged
        rcases (decodePsbt_take wrote inputs outputs count).mp run with ⟨-, -, -, -, embedded,
          script', -, -, -, -, -, -, -, found', parse', scripted', same'⟩
        have fields := solution_injective scripted' scripted (same'.symm.trans same)
        refine ⟨?_, fields.1, fields.2⟩
        intro other' present
        rw [found'] at present
        cases present
        rcases block_of_globalsLeft wellFormed found' with ⟨left, parsed, spared⟩
        exact spared.mp (Except.ok.inj (parsed.symm.trans parse'))
  · rintro harmless ⟨block', solution'⟩ run
    rcases (decodePsbt_take wrote inputs outputs count).mp run with ⟨enough, -, unsigned, other,
      embedded, script', distinct, distinct', -, present, parsed, vin, vout, found', parse',
      scripted', same'⟩
    rcases harmless with refused | kept
    · cases refused with
      | magic short => exact absurd enough (not_le.mpr short)
      | globals repeated => exact absurd distinct repeated
      | input repeated => exact absurd distinct' repeated
      | unsigned short =>
          rcases single_of_globalsLeft wellFormed vinTx voutTx present with ⟨left, read, single⟩
          cases Except.ok.inj (read.symm.trans parsed)
          exact absurd (single.mp ⟨vin, vout⟩) (not_lt.mpr (short unsigned present))
      | block missing =>
          rw [missing] at found'
          cases found'
    · rcases block_of_globalsLeft wellFormed found' with ⟨left, read, spared⟩
      cases Except.ok.inj (read.symm.trans parse')
      rw [kept.scriptSig, scripted] at scripted'
      cases scripted'
      rw [spared.mpr (kept.block embedded found'), same', same, kept.scriptWitness]

/-- The first bytes of a signed PSBT are not misread exactly when they are
turned away or nothing the decoder looks at was cut. -/
theorem notMisread_iff {base64 : Base64} {psbt : PSBT} {tx : CTransaction} {block : CBlock}
    {bytes part : Bytes} {result : CBlock × Bytes} (wellFormed : WellFormed psbt tx block)
    (wrote : psbt.serialize = .ok bytes)
    (accepted : decodePsbt base64 (base64.encode bytes) = .ok result) (first : part <+: bytes) :
    NotMisread base64 part result <->
      Refused psbt tx part.length ∨ Kept psbt block part.length := by
  have cut := notMisread_take_iff wellFormed wrote accepted part.length
  rwa [← List.prefix_iff_eq_take.mp first] at cut

/-! ## A signature that loses its last byte -/

def embeddedBlock : CBlock where
  vtx := [sampleTransaction]

def embeddedData : Bytes :=
  embeddedBlock.serialize.toOption.getD []

/-- A signed PSBT whose solution is an empty script and a witness of two bytes. -/
def wholeSigned : PSBT where
  g :=
    { map := [(psbtGlobalUnsignedTx, sampleData), (psbtSignetBlock, embeddedData)] }
  i := [{ map := [(psbtInFinalScriptwitness, [0x01, 0x00])] }]
  o := [{}]

def wholeBytes : Bytes :=
  wholeSigned.serialize.toOption.getD []

/-- The same without its last three bytes: the end markers of the last two maps
and the last byte of the witness. -/
def cutBytes : Bytes :=
  wholeBytes.take (wholeBytes.length - 3)

theorem serialize_wholeSigned : wholeSigned.serialize = .ok wholeBytes := by
  decide +kernel

theorem wellFormed_wholeSigned : WellFormed wholeSigned sampleTransaction embeddedBlock where
  inputs := List.cons_ne_nil _ _
  unsigned := ⟨sampleData, rfl, by decide +kernel⟩
  readable := by
    intro tx member
    rw [List.mem_singleton.mp member]
    exact ⟨List.cons_ne_nil _ _, rfl⟩
  embedded := ⟨embeddedData, rfl, by decide +kernel⟩

theorem parsed_embeddedData :
    Exists fun block => fromBinary CBlock.deserialize embeddedData = .ok block := by
  apply exists_of_isOk
  decide +kernel

theorem decodePsbt_wholeBytes {block : CBlock}
    (parsed : fromBinary CBlock.deserialize embeddedData = .ok block) :
    decodePsbt hexBase64 (hexBase64.encode wholeBytes) = .ok (block, [0x00, 0x01, 0x00]) :=
  decodePsbt_of_fields hexBase64 serialize_wholeSigned rfl rfl rfl parsed rfl

theorem decodePsbt_cutBytes {block : CBlock}
    (parsed : fromBinary CBlock.deserialize embeddedData = .ok block) :
    decodePsbt hexBase64 (hexBase64.encode cutBytes) = .ok (block, [0x00, 0x01]) := by
  have globals : globalsLeft wholeSigned (wholeBytes.length - 3) = wholeSigned.g.map := by
    decide +kernel
  have input : inputLeft wholeSigned (wholeBytes.length - 3) =
      [(psbtInFinalScriptwitness, [0x01])] := by decide +kernel
  rcases PSBT.readsBack_deserialize serialize_wholeSigned with ⟨unsigned, tx, found, parsedTx,
    inputs, outputs, -⟩
  refine (decodePsbt_take serialize_wholeSigned rfl rfl _).mpr ⟨by decide +kernel, {},
    unsigned, tx, embeddedData, [0x00], ?_, ?_, by decide +kernel, ?_, parsedTx, inputs, outputs,
    ?_, parsed, ?_, ?_⟩
  · rw [globals]
    exact wholeSigned.g.nodup
  · rw [input]
    exact List.nodup_singleton _
  · rw [globals]
    exact found
  · rw [globals]
    rfl
  · rw [input]
    rfl
  · rw [input]
    rfl

theorem notMisread_fails :
    Exists fun psbt : PSBT => Exists fun bytes => Exists fun part => Exists fun result =>
      WellFormed psbt sampleTransaction embeddedBlock ∧ psbt.serialize = .ok bytes ∧
        decodePsbt hexBase64 (hexBase64.encode bytes) = .ok result ∧ part <+: bytes ∧
        part ≠ bytes ∧ ¬ NotMisread hexBase64 part result := by
  rcases parsed_embeddedData with ⟨block, parsed⟩
  refine ⟨wholeSigned, wholeBytes, cutBytes, (block, [0x00, 0x01, 0x00]), wellFormed_wholeSigned,
    serialize_wholeSigned, decodePsbt_wholeBytes parsed, List.take_prefix _ _, by decide +kernel,
    ?_⟩
  intro faithful
  have same := faithful _ (decodePsbt_cutBytes parsed)
  have shorter : ([0x00, 0x01] : Bytes) = [0x00, 0x01, 0x00] := congrArg Prod.snd same
  exact absurd shorter (by decide)

theorem notMisread_iff_sample :
    Exists fun result => decodePsbt hexBase64 (hexBase64.encode wholeBytes) = .ok result ∧
      (NotMisread hexBase64 cutBytes result <->
        Refused wholeSigned sampleTransaction cutBytes.length ∨
          Kept wholeSigned embeddedBlock cutBytes.length) := by
  rcases parsed_embeddedData with ⟨block, parsed⟩
  exact ⟨(block, [0x00, 0x01, 0x00]), decodePsbt_wholeBytes parsed,
    notMisread_iff wellFormed_wholeSigned serialize_wholeSigned (decodePsbt_wholeBytes parsed)
      (List.take_prefix _ _)⟩

end Miner
end MutinyNet
