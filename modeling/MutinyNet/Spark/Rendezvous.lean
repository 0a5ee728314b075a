import MutinyNet.Shell.Processes
import MutinyNet.Spark.Identity

namespace MutinyNet
namespace Spark

open Shell

/-!
# Two operators at the rendezvous

Both operators run their entrypoints on the volume they share, and each of them
may be stopped and started at any moment.  An operator shows its certificate by
a rename, so the other one finds the old file or the new one.  It shows its
public key by a redirection, which empties the file first: the other one may
find it there, pass its tests, and read nothing.

Between two of its commands an operator relies on its own files only.  What it
reads of the other one's public key is therefore the first part of a line, and
the whole line wherever the reads happen to find the file written.
-/

/-- The identities are there, and a file of a public key holds a first part of
its line: the part a start has written so far. -/
structure Persisted (curve : Curve) (secret : Index -> Nat) (world : World) : Prop where
  pairFile : forall index, world (keypair index) = some (.chars (keypairText curve (secret index)))
  keyFile : forall index, (world (operatorKey index)).isSome = true
  shownFile : forall index content, world (pubkey index) = some content ->
    Exists fun chars => content = .chars chars ∧ chars <+: unlines [publicHex curve (secret index)]

/-- Where a public key is read, its file holds all its digits. -/
def ReadsWhole (curve : Curve) (secret : Index -> Nat) (event : Event Command World Outcome) :
    Prop :=
  forall index, event.command = .cat (pubkey index) ->
    (publicHex curve (secret index)).length ≤ (event.world.text (pubkey index)).length

instance (curve : Curve) (secret : Index -> Nat) (event : Event Command World Outcome) :
    Decidable (ReadsWhole curve secret event) := by
  unfold ReadsWhole
  infer_instance

/-- The `operators.json` of the two identities. -/
def rightJson (curve : Curve) (secret : Index -> Nat) : Content :=
  .chars (operatorsJson (publicHex curve (secret 0)) (publicHex curve (secret 1)))

/-- What the operators keep to: each writes to its own files only, so that it may
rely on those, and leaves the identities as they are. -/
def agreement (curve : Curve) (secret : Index -> Nat) : Machine.Cooperation Index Command World Ended where
  holds := Persisted curve secret
  rely index world changed :=
    Persisted curve secret changed ∧ forall file, file.owner = index -> changed file = world file
  own index command := forall file, file ∈ command.targets -> file.owner = index
  post index ended world :=
    ended = .returned -> world (operatorsFile index) = some (rightJson curve secret)

variable {curve : Curve} {secret : Index -> Nat} {index : Index} {world : World} {chars : Chars}

/-! ## What is read -/

/-- A first part of the line that has all the digits is captured as the key. -/
theorem captured_front (front : chars <+: unlines [publicHex curve (secret index)])
    (whole : (publicHex curve (secret index)).length ≤ chars.length) :
    captured [String.ofList chars] = publicHex curve (secret index) := by
  have line : unlines [publicHex curve (secret index)] = publicHex curve (secret index) ++ ['\n'] :=
    List.flatMap_singleton _ _
  rcases front with ⟨rest, joined⟩
  rw [line] at joined
  cases rest with
  | nil =>
      rw [List.append_nil] at joined
      rw [joined, ← line]
      exact captured_publicHex
  | cons char rest =>
      have lengths := congrArg List.length joined
      rw [List.length_append, List.length_append, List.length_cons, List.length_singleton] at lengths
      have same : chars = publicHex curve (secret index) :=
        (List.append_inj joined (by omega)).1
      rw [same]
      exact captured_unended

/-! ## What a command leaves of the identities -/

theorem Persisted.quiet {command : Command} (persisted : Persisted curve secret world)
    (quiet : forall index, Quiet index command) (outcome : Outcome) :
    Persisted curve secret (perform curve command world outcome).1 where
  pairFile index :=
    (perform_of_not_mem (quiet index).1 curve world outcome).trans (persisted.pairFile index)
  keyFile index := by
    rw [perform_of_not_mem (quiet index).2.1 curve world outcome]
    exact persisted.keyFile index
  shownFile index := by
    rw [perform_of_not_mem (quiet index).2.2 curve world outcome]
    exact persisted.shownFile index

/-- A file of a public key that gets a first part of its line. -/
theorem Persisted.put (persisted : Persisted curve secret world)
    (front : chars <+: unlines [publicHex curve (secret index)]) :
    Persisted curve secret (world.put (pubkey index) (some (.chars chars))) where
  pairFile other := (World.put_of_ne (by simp) world _).trans (persisted.pairFile other)
  keyFile other := by
    rw [World.put_of_ne (by simp) world _]
    exact persisted.keyFile other
  shownFile other content there := by
    by_cases same : other = index
    · subst same
      rw [World.put_self] at there
      cases there
      exact ⟨chars, rfl, front⟩
    · rw [World.put_of_ne (by simpa using same)] at there
      exact persisted.shownFile other content there

theorem Persisted.openFile (persisted : Persisted curve secret world) (outcome : Outcome) :
    Persisted curve secret (perform curve (.openFile (pubkey index)) world outcome).1 := by
  rw [openFile_eq]
  split
  · exact persisted.put List.nil_prefix
  · exact persisted

/-- The line of a public key, written to its emptied file; a write that fails
leaves its first part. -/
theorem Persisted.write (persisted : Persisted curve secret world)
    (emptied : world (pubkey index) = some (.chars [])) (outcome : Outcome) :
    Persisted curve secret (perform curve
      (.write (pubkey index) (unlines [publicHex curve (secret index)])) world outcome).1 := by
  apply persisted.put
  rw [World.text_eq emptied, List.nil_append]
  split
  · exact List.prefix_refl _
  · exact List.take_prefix _ _

/-- A command of an operator that writes to none of its three files touches none
of the other one's either. -/
theorem quiet_all {files : List File} {command : Command} (writes : Writes files command)
    (owned : forall file, file ∈ files -> file.owner = index)
    (pair : keypair index ∉ files) (key : operatorKey index ∉ files)
    (shared : pubkey index ∉ files) (other : Index) : Quiet other command := by
  by_cases same : other = index
  · subst same
    exact quiet_of_writes writes pair key shared
  · exact quiet_of_writes writes (fun member => same (owned _ member))
      (fun member => same (owned _ member)) fun member => same (owned _ member)

/-! ## One start among others -/

/-- What is known of a command of an operator among those of both. -/
def Allowed (curve : Curve) (secret : Index -> Nat) (index : Index)
    (event : Event Command World (World × Outcome)) : Prop :=
  (agreement curve secret).rely index event.world event.input.1 ∧ ReadsWhole curve secret
    { command := event.command, world := event.input.1, input := event.input.2 }

/-- A script of an operator among those of both. -/
abbrev Runs (curve : Curve) (secret : Index -> Nat) (index : Index)
    (post : Ended -> World -> Prop) (script : Script Command Ended) (world : World) : Prop :=
  (machine curve).disturbed.Guarantees (Allowed curve secret index) (Persisted curve secret) post
    script world

variable {post : Ended -> World -> Prop} {script next : Script Command Ended}

/-- Scripts that write to other files keep the identities. -/
theorem runs_of_writes {files : List File} (calls : script.Calls (Writes files))
    (owned : forall file, file ∈ files -> file.owner = index)
    (pair : keypair index ∉ files) (key : operatorKey index ∉ files)
    (shared : pubkey index ∉ files) (persisted : Persisted curve secret world) :
    Runs curve secret index (fun _ => Persisted curve secret) script world := by
  apply Machine.guarantees_of_invariant (Persisted curve secret) calls
  · rintro ⟨command, before, found, outcome⟩ writes ⟨⟨held, -⟩, -⟩ -
    exact held.quiet (quiet_all writes owned pair key shared) outcome
  · intro world held
    exact held
  · intro ended world held
    exact held
  · exact persisted

/-- Commands without targets keep the identities, whoever runs them. -/
theorem persisted_of_look (event : Event Command World (World × Outcome))
    (none : event.command.targets = []) (allowed : Allowed curve secret index event)
    (_ : Persisted curve secret event.world) :
    Persisted curve secret ((machine curve).disturbed.after event) :=
  allowed.1.1.quiet (fun _ => quiet_of_targets none) event.input.2

/-- The end of `ensure_identity`. -/
theorem runs_publishPubkey (persisted : Persisted curve secret world) :
    Runs curve secret index (fun _ => Persisted curve secret) (publishPubkey index) world := by
  apply guarantees_capturing persisted
  · rintro ⟨found, outcome⟩ ⟨⟨held, own⟩, known⟩ works identity read
    have right : identity = publicHex curve (secret index) := by
      have output : captured [String.ofList (unlines (fields "PUBLIC:".toList
          (found.text (keypair index))))] = identity := read
      rw [World.text_eq (held.pairFile index), fields_public, captured_publicHex] at output
      exact output.symm
    subst right
    rw [if_neg publicHex_ne_nil]
    apply Machine.guarantees_must held
    · rintro ⟨found', outcome'⟩ ⟨⟨held', own'⟩, known'⟩ opened
      have emptied : (perform curve (.openFile (pubkey index)) found' outcome').1 (pubkey index) =
          some (.chars []) := by
        have effective := Outcome.effective_of_ok opened
        rw [openFile_eq, if_pos effective]
        exact World.put_self _ _ _
      have kept : Persisted curve secret
          (perform curve (.openFile (pubkey index)) found' outcome').1 :=
        held'.openFile outcome'
      apply Machine.guarantees_must kept
      · rintro ⟨found'', outcome''⟩ ⟨⟨held'', own''⟩, known''⟩ _
        exact held''.write ((own'' (pubkey index) rfl).trans emptied) outcome''
      · rintro ⟨found'', outcome''⟩ ⟨⟨held'', own''⟩, known''⟩ _
        exact held''.write ((own'' (pubkey index) rfl).trans emptied) outcome''
    · rintro ⟨found', outcome'⟩ ⟨⟨held', own'⟩, known'⟩ _
      exact held'.openFile outcome'
  · rintro ⟨found, outcome⟩ ⟨⟨held, own⟩, known⟩
    exact held

/-- `ensure_identity` where both files are there. -/
theorem runs_ensureIdentity (persisted : Persisted curve secret world) :
    Runs curve secret index (fun _ => Persisted curve secret) (ensureIdentity index) world := by
  have present : forall {file : File} {yes no : Script Command Ended} {world : World},
      file = operatorKey index ∨ file = keypair index -> Persisted curve secret world ->
      (forall world, Persisted curve secret world ->
        Runs curve secret index (fun _ => Persisted curve secret) yes world) ->
      Runs curve secret index (fun _ => Persisted curve secret) (.test (.isFile file) yes no)
        world := by
    intro file yes no world named persisted goesOn
    apply Machine.guarantees_test persisted
    · rintro ⟨found, outcome⟩ ⟨⟨held, own⟩, known⟩ _
      exact goesOn found held
    · rintro ⟨found, outcome⟩ ⟨⟨held, own⟩, known⟩ absent
      have missing : (found file).isSome = false := absent
      rcases named with same | same
      · have there : (found (operatorKey index)).isSome = true := held.keyFile index
        rw [same, there] at missing
        cases missing
      · have there : found (keypair index) = _ := held.pairFile index
        rw [same, there] at missing
        cases missing
  apply present (Or.inl rfl) persisted
  intro world persisted
  apply present (Or.inl rfl) persisted
  intro world persisted
  apply present (Or.inr rfl) persisted
  intro world persisted
  exact runs_publishPubkey persisted

/-- A read of a public key. -/
theorem runs_cat {other : Index} {rest : Chars -> Script Command Ended}
    (exited : forall world, Persisted curve secret world -> post .exited world)
    (goesOn : forall world, Persisted curve secret world ->
      Runs curve secret index post (rest (publicHex curve (secret other))) world)
    (persisted : Persisted curve secret world) :
    Runs curve secret index post (capturing (.cat (pubkey other)) rest) world := by
  apply guarantees_capturing persisted
  · rintro ⟨found, outcome⟩ ⟨⟨held, own⟩, known⟩ works chars read
    have there : (found (pubkey other)).isSome = true := (Bool.and_eq_true_iff.mp works).2
    rcases Option.isSome_iff_exists.mp there with ⟨content, shown⟩
    rcases held.shownFile other content shown with ⟨text, rfl, front⟩
    have whole := known other rfl
    have output : captured [String.ofList (found.text (pubkey other))] = chars := read
    dsimp only at whole
    rw [World.text_eq shown] at whole output
    rw [captured_front front whole] at output
    rw [← output]
    exact goesOn found held
  · rintro ⟨found, outcome⟩ ⟨⟨held, own⟩, known⟩
    exact exited found held

/-- `operators.json` is written, and a start that returns has written it all. -/
theorem runs_writeFile (persisted : Persisted curve secret world) {text : Chars} :
    Runs curve secret index
      (fun ended world => Persisted curve secret world ∧
        (ended = .returned -> world (operatorsFile index) = some (.chars text)))
      (writeFile (operatorsFile index) text (.done .returned)) world := by
  have owned : forall file, file ∈ [operatorsFile index] -> file.owner = index := by
    intro file member
    rw [List.mem_singleton.mp member]
    rfl
  have quiet : forall {command : Command}, Writes [operatorsFile index] command ->
      forall other, Quiet other command := fun writes other =>
    quiet_all writes owned (by simp) (by simp) (by simp) other
  apply Machine.guarantees_must persisted
  · rintro ⟨found, outcome⟩ ⟨⟨held, own⟩, known⟩ opened
    have emptied : (perform curve (.openFile (operatorsFile index)) found outcome).1
        (operatorsFile index) = some (.chars []) := by
      have effective := Outcome.effective_of_ok opened
      rw [openFile_eq, if_pos effective]
      exact World.put_self _ _ _
    apply Machine.guarantees_must (held.quiet (quiet (List.Subset.refl _)) outcome)
    · rintro ⟨found', outcome'⟩ ⟨⟨held', own'⟩, known'⟩ works
      refine ⟨held'.quiet (quiet (List.Subset.refl _)) outcome', fun _ => ?_⟩
      have still := (own' (operatorsFile index) rfl).trans emptied
      have wrote : outcome'.ok = true := works
      change (found'.printing (operatorsFile index) text outcome') (operatorsFile index) = _
      rw [World.printing, World.put_self, if_pos wrote, World.text_eq still, List.nil_append]
    · rintro ⟨found', outcome'⟩ ⟨⟨held', own'⟩, known'⟩ _
      exact ⟨held'.quiet (quiet (List.Subset.refl _)) outcome', fun impossible => nomatch impossible⟩
  · rintro ⟨found, outcome⟩ ⟨⟨held, own⟩, known⟩ _
    exact ⟨held.quiet (quiet (List.Subset.refl _)) outcome, fun impossible => nomatch impossible⟩

/-- What a start that ends has reached. -/
def Reached (curve : Curve) (secret : Index -> Nat) (index : Index) (ended : Ended) (world : World) :
    Prop :=
  Persisted curve secret world ∧ (agreement curve secret).post index ended world

theorem reached_exited (persisted : Persisted curve secret world) :
    Reached curve secret index .exited world :=
  ⟨persisted, fun impossible => nomatch impossible⟩

/-- `rendezvous_operators`. -/
theorem runs_rendezvousOperators (persisted : Persisted curve secret world) :
    Runs curve secret index (Reached curve secret index) (rendezvousOperators index) world := by
  have exits : forall world, Persisted curve secret world ->
      Runs curve secret index (Reached curve secret index) (.done .exited) world :=
    fun _ => reached_exited
  have reads : forall world, Persisted curve secret world ->
      Runs curve secret index (Reached curve secret index)
        (capturing (.cat (pubkey 0)) fun pub0 => capturing (.cat (pubkey 1)) fun pub1 =>
          writeFile (operatorsFile index) (operatorsJson pub0 pub1) (.done .returned)) world := by
    intro world persisted
    apply runs_cat (fun _ => reached_exited) _ persisted
    intro world persisted
    apply runs_cat (fun _ => reached_exited) _ persisted
    intro world persisted
    exact runs_writeFile persisted
  apply guarantees_awaitPeer (Persisted curve secret) (fun _ held => held)
    (fun _ => reached_exited) persisted_of_look _ persisted
  intro world persisted
  apply guarantees_lookFor (Persisted curve secret) (fun _ held => held) persisted_of_look _ exits
    persisted
  intro world persisted
  exact guarantees_lookFor (Persisted curve secret) (fun _ held => held) persisted_of_look reads
    exits persisted

/-- A start on a volume with the identities. -/
theorem runs_startup (persisted : Persisted curve secret world) :
    Runs curve secret index (Reached curve secret index) (startup index) world := by
  have goesOn : forall {script next : Script Command Ended},
      (forall world, Persisted curve secret world ->
        Runs curve secret index (fun _ => Persisted curve secret) script world) ->
      (forall world, Persisted curve secret world ->
        Runs curve secret index (Reached curve secret index) next world) ->
      forall world, Persisted curve secret world ->
        Runs curve secret index (Reached curve secret index) (behind script next) world := by
    intro script next first later world persisted
    apply guarantees_behind
    apply (first world persisted).mono fun _ held => held
    intro ended world held
    exact ⟨fun _ => later world held, fun _ => reached_exited held⟩
  have owned : forall file, file ∈ crtFiles index -> file.owner = index := by
    simp [crtFiles, File.owner]
  have certificates : forall world, Persisted curve secret world ->
      Runs curve secret index (fun _ => Persisted curve secret) (ensureTlsCert index) world := by
    intro world persisted
    exact runs_of_writes calls_ensureTlsCert owned (by simp [crtFiles]) (by simp [crtFiles])
      (by simp [crtFiles]) persisted
  apply guarantees_prepare (Persisted curve secret) (fun _ held => held) (fun _ => reached_exited)
    persisted_of_look _ persisted
  apply goesOn (fun _ => runs_ensureIdentity)
  exact goesOn certificates fun _ => runs_rendezvousOperators

/-! ## Both operators -/

/-- Every command of a start writes to files of its operator. -/
theorem calls_startup :
    (startup index).Calls ((agreement curve secret).own index) := by
  have owns : forall {files : List File} {command : Command},
      (forall file, file ∈ files -> file.owner = index) -> Writes files command ->
        (agreement curve secret).own index command :=
    fun owned writes file member => owned file (writes member)
  apply calls_prepare
  · intro command none file member
    rw [none] at member
    cases member
  · apply calls_behind
    · exact calls_ensureIdentity.mono fun _ writes => owns (by simp [File.owner]) writes
    · apply calls_behind
      · exact calls_ensureTlsCert.mono fun _ writes => owns (by simp [crtFiles, File.owner]) writes
      · exact calls_rendezvousOperators.mono fun _ writes => owns (by simp [File.owner]) writes

theorem agreement_sound :
    (agreement curve secret).Sound (machine curve) startup (ReadsWhole curve secret) where
  reflexive _ _ persisted := ⟨persisted, fun _ _ => rfl⟩
  transitive _ _ _ _ first second :=
    ⟨second.1, fun file own => (second.2 file own).trans (first.2 file own)⟩
  yields := by
    intro index other command world outcome different own persisted
    refine ⟨persisted, ?_⟩
    intro file owner
    apply perform_of_not_mem
    intro member
    exact different ((own file member).symm.trans owner)
  stable index _ _ _ ended changed := fun returned =>
    (changed.2 (operatorsFile index) rfl).trans (ended returned)
  starts _ _ persisted := ⟨calls_startup, runs_startup persisted⟩

/-- The operators with nobody running yet. -/
def atRest (world : World) : System Index Command World Ended where
  world
  running := fun _ => none

/-- However the two operators are started, stopped and interleaved: where every
read of a public key finds the whole key, an operator that has got past the
rendezvous has the identities of both in its `operators.json`. -/
theorem operators_agree (persisted : Persisted curve secret world)
    (actions : List (Action Index Outcome))
    (whole : forall event,
      event ∈ (machine curve).commandsOf startup (atRest world) actions ->
        ReadsWhole curve secret event)
    (index : Index)
    (past : ((machine curve).acts startup (atRest world) actions).result index = some .returned) :
    ((machine curve).acts startup (atRest world) actions).world (operatorsFile index) =
      some (rightJson curve secret) := by
  have initially : (agreement curve secret).Intact (machine curve) (ReadsWhole curve secret)
      (atRest world) := ⟨persisted, fun _ _ impossible => nomatch impossible⟩
  have intact := initially.acts agreement_sound whole
  have keeps := intact.keeps index _ (System.running_of_result past)
  have reached : Reached curve secret index .returned
      ((machine curve).acts startup (atRest world) actions).world := keeps.among
  exact reached.2 rfl

/-! ## Two runs -/

/-- secp256k1 at the secret exponents one and two. -/
def curveAtTwo : Curve := fun secret =>
  if secret = 2 then
    (0xc6047f9441ed7d6d3045406e95c07cd85c778e4b8cef3ca7abac09b95c709ee5,
      0x1ae168fea63dc339a3c58419466ceaeef7f632653266d0e1236431a950cfe52a)
  else curveAtOne secret

/-- The secret exponent of an operator. -/
def secretOf (index : Index) : Nat :=
  index.val + 1

/-- Two operators with identities and certificates that have not shown them. -/
def installed : World
  | .home index .keypair => some (.chars (keypairText curveAtTwo (secretOf index)))
  | .home index .operatorKey => some (.chars (unlines [privateHex (secretOf index)]))
  | .home index .serverKey => some (.rsaKey index.val)
  | .home index .serverCrt =>
      some (.certificate { key := index.val, caFalse := true, serial := 0 })
  | _ => none

/-- The same operators, who have shown both. -/
def published : World
  | .shared index .pubkey => some (.chars (unlines [publicHex curveAtTwo (secretOf index)]))
  | .shared index .serverCrt =>
      some (.certificate { key := index.val, caFalse := true, serial := 0 })
  | file => installed file

theorem persisted_installed : Persisted curveAtTwo secretOf installed where
  pairFile _ := rfl
  keyFile _ := rfl
  shownFile _ _ impossible := nomatch impossible

theorem persisted_published : Persisted curveAtTwo secretOf published where
  pairFile _ := rfl
  keyFile _ := rfl
  shownFile _ _ there := by
    cases there
    exact ⟨_, rfl, List.prefix_refl _⟩

/-- Some commands of an operator that all succeed. -/
def steps (count : Nat) (index : Index) : List (Action Index Outcome) :=
  List.replicate count (.step index { ok := true })

/-- The first operator shows itself and waits for the second one. -/
def meeting : List (Action Index Outcome) :=
  .start 0 :: .start 1 :: steps 20 0 ++ steps 40 1 ++ steps 40 0

theorem operators_agree_sample :
    ((machine curveAtTwo).acts startup (atRest installed) meeting).world (operatorsFile 0) =
        some (rightJson curveAtTwo secretOf) ∧
      ((machine curveAtTwo).acts startup (atRest installed) meeting).world (operatorsFile 1) =
        some (rightJson curveAtTwo secretOf) :=
  ⟨operators_agree persisted_installed meeting (by decide +kernel) 0 (by decide +kernel),
    operators_agree persisted_installed meeting (by decide +kernel) 1 (by decide +kernel)⟩

/-- The first operator starts again and has emptied the file of its public key,
when the second one starts again and runs to the end of the rendezvous. -/
def overlap : List (Action Index Outcome) :=
  .start 0 :: steps 11 0 ++ .start 1 :: steps 40 1

/-- The second operator read the emptied file: its `operators.json` has no public
key for the first one. -/
theorem empty_pubkey_read :
    Persisted curveAtTwo secretOf published ∧
      ((machine curveAtTwo).acts startup (atRest published) overlap).result 1 = some .returned ∧
      ((machine curveAtTwo).acts startup (atRest published) overlap).world (operatorsFile 1) =
        some (.chars (operatorsJson [] (publicHex curveAtTwo (secretOf 1)))) ∧
      ((machine curveAtTwo).acts startup (atRest published) overlap).world (operatorsFile 1) ≠
        some (rightJson curveAtTwo secretOf) :=
  ⟨persisted_published, by decide +kernel, by decide +kernel, by decide +kernel⟩

end Spark
end MutinyNet
