import MutinyNet.Shell.Record
import MutinyNet.Spark.Entrypoint

namespace MutinyNet
namespace Spark

open Shell Transition

/-!
# The identity of an operator

The key pair of an operator is one file, its private key another one that is
made from it, and a start that finds both goes on.  A key pair that was not
written to its end has no file beside it yet and is refused.  A private key that
was not written to its end is not told from one that was.
-/

/-- Both files of the identity, complete. -/
structure Established (curve : Curve) (index : Index) (secret : Nat) (world : World) : Prop where
  pairFile : world (keypair index) = some (.chars (keypairText curve secret))
  keyFile : world (operatorKey index) = some (.chars (unlines [privateHex secret]))

/-- The volume of an operator that has no identity yet. -/
structure Fresh (index : Index) (world : World) : Prop where
  pairFile : world (keypair index) = none
  keyFile : world (operatorKey index) = none

/-- A start of the container on the volume of the one before it. -/
def nextOperator (curve : Curve) (index : Index) (world : World) (outcomes : List Outcome) :
    Option World :=
  (machine curve).restart (entrypoint index) id world outcomes

/-- The commands of a start. -/
def commandsOf (curve : Curve) (index : Index) (visit : World × List Outcome) :
    List (Event Command World Outcome) :=
  (machine curve).events (entrypoint index) visit.1 visit.2

/-- A public key is written for the other operator. -/
def Shows (index : Index) (chars : Chars) (event : Event Command World Outcome) : Prop :=
  event.command = .write (pubkey index) chars

/-! ## Starts that stop at the private key -/

/-- The file of the private key is created, or emptied. -/
def CreatesKey (index : Index) (event : Event Command World Outcome) : Prop :=
  event.command = .openFile (operatorKey index) ∧ event.input.effective = true

/-- The private key is written to the end of its line. -/
def WritesKey (index : Index) (event : Event Command World Outcome) : Prop :=
  event.command = .extract "PRIVATE:".toList (keypair index) (operatorKey index) ∧
    (event.input.ok = true ∨
      (unlines (fields "PRIVATE:".toList (event.world.text (keypair index)))).length ≤
        event.input.written)

/-- A start that creates the file of the private key writes the key to it. -/
def CarefulIdentity (curve : Curve) (index : Index) (visit : World × List Outcome) : Prop :=
  (Exists fun event => event ∈ commandsOf curve index visit ∧ CreatesKey index event) ->
    Exists fun event => event ∈ commandsOf curve index visit ∧ WritesKey index event

/-! ## The commands that leave the identity alone -/

/-- The command touches neither the identity nor the public key that is shown. -/
def Quiet (index : Index) (command : Command) : Prop :=
  keypair index ∉ command.targets ∧ operatorKey index ∉ command.targets ∧
    pubkey index ∉ command.targets

section Calls

variable {index : Index} {next : Script Command Ended}

theorem quiet_of_targets {command : Command} (none : command.targets = []) :
    Quiet index command := by
  unfold Quiet
  rw [none]
  exact ⟨List.not_mem_nil, List.not_mem_nil, List.not_mem_nil⟩

/-- A command that writes to other files leaves the identity alone. -/
theorem quiet_of_writes {files : List File} {command : Command} (writes : Writes files command)
    (pair : keypair index ∉ files) (key : operatorKey index ∉ files)
    (shared : pubkey index ∉ files) : Quiet index command :=
  ⟨fun member => pair (writes member), fun member => key (writes member),
    fun member => shared (writes member)⟩

theorem calls_quiet_ensureTlsCert : (ensureTlsCert index).Calls (Quiet index) :=
  calls_ensureTlsCert.mono fun _ writes =>
    quiet_of_writes writes (by simp [crtFiles]) (by simp [crtFiles]) (by simp [crtFiles])

theorem calls_quiet_rendezvousOperators : (rendezvousOperators index).Calls (Quiet index) :=
  calls_rendezvousOperators.mono fun _ writes =>
    quiet_of_writes writes (by simp) (by simp) (by simp)

theorem calls_quiet_startFrostSigner (rest : next.Calls (Quiet index)) :
    (startFrostSigner next).Calls (Quiet index) :=
  calls_startFrostSigner quiet_of_targets rest

end Calls

/-! ## One start -/

/-- No public key was shown. -/
def Unshown (index : Index) (past : List (Event Command World Outcome)) : Prop :=
  forall event, event ∈ past -> forall chars, ¬ Shows index chars event

/-- Every public key that was shown is the one of the secret, whose private key
was complete in its file. -/
def ShowsOnly (curve : Curve) (index : Index) (secret : Nat)
    (past : List (Event Command World Outcome)) : Prop :=
  forall event, event ∈ past -> forall chars, Shows index chars event ->
    chars = unlines [publicHex curve secret] ∧
      event.world (operatorKey index) = some (.chars (unlines [privateHex secret]))

/-- The identity is complete, and only its public key was shown. -/
structure Settled (curve : Curve) (index : Index) (secret : Nat)
    (state : World × List (Event Command World Outcome)) : Prop where
  established : Established curve index secret state.1
  shown : ShowsOnly curve index secret state.2

/-- There is no private key, and none was written or shown. -/
structure Unsettled (index : Index) (state : World × List (Event Command World Outcome)) :
    Prop where
  keyFile : state.1 (operatorKey index) = none
  unwritten : forall event, event ∈ state.2 -> ¬ WritesKey index event
  unshown : Unshown index state.2

/-- What holds wherever a start is cut that found no private key. -/
def CutIdentity (curve : Curve) (index : Index)
    (state : World × List (Event Command World Outcome)) : Prop :=
  ((Exists fun event => event ∈ state.2 ∧ CreatesKey index event) ->
    Exists fun event => event ∈ state.2 ∧ WritesKey index event) ->
  state.1 (operatorKey index) = none ∧ Unshown index state.2 ∨
    Exists fun secret => Settled curve index secret state

section Start

variable {curve : Curve} {index : Index} {secret : Nat} {world : World}
  {past : List (Event Command World Outcome)}

theorem unshown_snoc {event : Event Command World Outcome} (unshown : Unshown index past)
    (quiet : forall chars, ¬ Shows index chars event) : Unshown index (past ++ [event]) := by
  intro other member
  rcases List.mem_append.mp member with earlier | last
  · exact unshown other earlier
  · rw [List.mem_singleton.mp last]
    exact quiet

theorem showsOnly_snoc {event : Event Command World Outcome}
    (shown : ShowsOnly curve index secret past)
    (proper : forall chars, Shows index chars event -> chars = unlines [publicHex curve secret] ∧
      event.world (operatorKey index) = some (.chars (unlines [privateHex secret]))) :
    ShowsOnly curve index secret (past ++ [event]) := by
  intro other member
  rcases List.mem_append.mp member with earlier | last
  · exact shown other earlier
  · rw [List.mem_singleton.mp last]
    exact proper

/-- A command that does not touch the public key is not its write. -/
theorem ne_write_of_not_mem {command : Command} (absent : pubkey index ∉ command.targets)
    (chars : Chars) : command ≠ .write (pubkey index) chars := by
  intro same
  subst same
  exact absent List.mem_cons_self

theorem not_writesKey_of_not_mem {command : Command} {input : Outcome}
    (absent : operatorKey index ∉ command.targets) :
    ¬ WritesKey index ⟨command, world, input⟩ := by
  rintro ⟨writes, -⟩
  dsimp only at writes
  subst writes
  exact absent List.mem_cons_self

theorem Established.step {command : Command} (established : Established curve index secret world)
    (pair : keypair index ∉ command.targets) (key : operatorKey index ∉ command.targets)
    (input : Outcome) : Established curve index secret (perform curve command world input).1 where
  pairFile := (perform_of_not_mem pair curve world input).trans established.pairFile
  keyFile := (perform_of_not_mem key curve world input).trans established.keyFile

/-- A command that touches neither file of the identity and shows at most the
right key. -/
theorem Settled.step {command : Command} {input : Outcome}
    (settled : Settled curve index secret (world, past)) (pair : keypair index ∉ command.targets)
    (key : operatorKey index ∉ command.targets)
    (proper : forall chars, command = .write (pubkey index) chars ->
      chars = unlines [publicHex curve secret]) :
    Settled curve index secret
      ((perform curve command world input).1, past ++ [⟨command, world, input⟩]) where
  established := settled.established.step pair key input
  shown := showsOnly_snoc settled.shown fun chars shows =>
    ⟨proper chars shows, settled.established.keyFile⟩

theorem Settled.quiet {command : Command} {input : Outcome}
    (settled : Settled curve index secret (world, past)) (quiet : Quiet index command) :
    Settled curve index secret
      ((perform curve command world input).1, past ++ [⟨command, world, input⟩]) :=
  settled.step quiet.1 quiet.2.1 fun chars same =>
    absurd same (ne_write_of_not_mem quiet.2.2 chars)

theorem Unsettled.step {command : Command} {input : Outcome}
    (unsettled : Unsettled index (world, past)) (key : operatorKey index ∉ command.targets)
    (shared : pubkey index ∉ command.targets) :
    Unsettled index ((perform curve command world input).1, past ++ [⟨command, world, input⟩]) where
  keyFile := (perform_of_not_mem key curve world input).trans unsettled.keyFile
  unwritten := by
    intro event member
    rcases List.mem_append.mp member with earlier | last
    · exact unsettled.unwritten event earlier
    · rw [List.mem_singleton.mp last]
      exact not_writesKey_of_not_mem key
  unshown := unshown_snoc unsettled.unshown (ne_write_of_not_mem shared)

theorem Unsettled.cut (unsettled : Unsettled index (world, past)) :
    CutIdentity curve index (world, past) :=
  fun _ => Or.inl ⟨unsettled.keyFile, unsettled.unshown⟩

theorem Settled.cut (settled : Settled curve index secret (world, past)) :
    CutIdentity curve index (world, past) :=
  fun _ => Or.inr ⟨secret, settled⟩

section Settled

variable {crash : World × List (Event Command World Outcome) -> Prop}
  {post : Ended -> World × List (Event Command World Outcome) -> Prop}

variable (cuts : forall state, Settled curve index secret state -> crash state)
  (ends : forall ended state, Settled curve index secret state -> post ended state)

include cuts ends

theorem Settled.run {command : Command} {next : Script Command Ended}
    (settled : Settled curve index secret (world, past)) (pair : keypair index ∉ command.targets)
    (key : operatorKey index ∉ command.targets)
    (proper : forall chars, command = .write (pubkey index) chars ->
      chars = unlines [publicHex curve secret])
    (goesOn : forall world past, Settled curve index secret (world, past) ->
      (machine curve).recording.Guarantees (fun _ => True) crash post next (world, past)) :
    (machine curve).recording.Guarantees (fun _ => True) crash post (Spark.run command next)
      (world, past) := by
  apply Machine.guarantees_must (cuts _ settled)
  · intro input _ _
    exact goesOn _ _ (settled.step pair key proper)
  · intro input _ _
    exact ends _ _ (settled.step pair key proper)

/-- The public key of a complete identity is shown. -/
theorem Settled.publishPubkey (settled : Settled curve index secret (world, past)) :
    (machine curve).recording.Guarantees (fun _ => True) crash post (Spark.publishPubkey index)
      (world, past) := by
  have step := fun input => @Settled.step curve _ _ _ _
    (.select "PUBLIC:".toList (keypair index)) input settled (by simp) (by simp)
    (fun _ impossible => nomatch impossible)
  apply guarantees_capturing (cuts _ settled)
  · intro input _ _ identity same
    have read : world.text (keypair index) = keypairText curve secret :=
      World.text_eq settled.established.pairFile
    have printed : identity = publicHex curve secret := by
      rw [← same, ← captured_publicHex]
      change captured [String.ofList (unlines (fields _ (world.text _)))] = _
      rw [read, fields_public]
    rw [printed, if_neg publicHex_ne_nil]
    apply Settled.run cuts ends (step input) (by simp) (by simp)
    · intro chars impossible
      cases impossible
    · intro world past settled
      apply Settled.run cuts ends settled (by simp) (by simp)
      · intro chars same
        cases same
        rfl
      · intro world past settled
        exact ends _ _ settled
  · intro input _
    exact ends _ _ (step input)

/-- A start that finds the identity shows it. -/
theorem Settled.ensureIdentity (settled : Settled curve index secret (world, past)) :
    (machine curve).recording.Guarantees (fun _ => True) crash post (Spark.ensureIdentity index)
      (world, past) := by
  have looks : forall {file : File} {past} {yes no : Script Command Ended},
      Settled curve index secret (world, past) -> (world file).isSome = true ->
      (forall past, Settled curve index secret (world, past) ->
        (machine curve).recording.Guarantees (fun _ => True) crash post yes (world, past)) ->
      (machine curve).recording.Guarantees (fun _ => True) crash post (.test (.isFile file) yes no)
        (world, past) := by
    intro file past yes no settled present goesOn
    apply Machine.guarantees_test (cuts _ settled)
    · intro input _ _
      apply goesOn
      exact @Settled.step curve _ _ _ _ (.isFile file) input settled (by simp) (by simp)
        (fun _ impossible => nomatch impossible)
    · intro input _ absent
      change (world file).isSome = false at absent
      rw [present] at absent
      cases absent
  have key : (world (operatorKey index)).isSome = true :=
    Option.isSome_iff_exists.mpr ⟨_, settled.established.keyFile⟩
  have pair : (world (keypair index)).isSome = true :=
    Option.isSome_iff_exists.mpr ⟨_, settled.established.pairFile⟩
  apply looks settled key
  intro past settled
  apply looks settled key
  intro past settled
  apply looks settled pair
  intro past settled
  exact Settled.publishPubkey cuts ends settled

end Settled

/-- A start that finds no private key: the identity is refused, or drawn. -/
def EndsIdentity (curve : Curve) (index : Index) (ended : Ended)
    (state : World × List (Event Command World Outcome)) : Prop :=
  CutIdentity curve index state ∧
    (ended = .returned -> Exists fun secret => Settled curve index secret state)

theorem endsIdentity_exited {state : World × List (Event Command World Outcome)}
    (cut : CutIdentity curve index state) : EndsIdentity curve index .exited state :=
  ⟨cut, fun impossible => nomatch impossible⟩

/-- The file of the private key is there, and nothing is in it yet. -/
structure Opened (curve : Curve) (index : Index) (secret : Nat)
    (state : World × List (Event Command World Outcome)) : Prop where
  pairFile : state.1 (keypair index) = some (.chars (keypairText curve secret))
  keyFile : state.1 (operatorKey index) = some (.chars [])
  unwritten : forall event, event ∈ state.2 -> ¬ WritesKey index event
  unshown : Unshown index state.2
  created : Exists fun event => event ∈ state.2 ∧ CreatesKey index event

/-- A start that does not write the key it created a file for. -/
theorem cutIdentity_of_created {state : World × List (Event Command World Outcome)}
    (created : Exists fun event => event ∈ state.2 ∧ CreatesKey index event)
    (unwritten : forall event, event ∈ state.2 -> ¬ WritesKey index event) :
    CutIdentity curve index state := by
  intro careful
  rcases careful created with ⟨event, member, writes⟩
  exact absurd writes (unwritten event member)

/-- The private key is cut out of the key pair. -/
theorem Opened.extract {next : Script Command Ended} (opened : Opened curve index secret (world, past))
    (goesOn : forall world past, Settled curve index secret (world, past) ->
      (machine curve).recording.Guarantees (fun _ => True) (CutIdentity curve index)
        (EndsIdentity curve index) next (world, past)) :
    (machine curve).recording.Guarantees (fun _ => True) (CutIdentity curve index)
      (EndsIdentity curve index)
      (run (.extract "PRIVATE:".toList (keypair index) (operatorKey index)) next) (world, past) := by
  have found : fields "PRIVATE:".toList (world.text (keypair index)) = [privateHex secret] := by
    rw [World.text_eq opened.pairFile]
    exact fields_private
  have empty : world.text (operatorKey index) = [] := World.text_eq opened.keyFile
  have written : forall input, WritesKey index ⟨.extract "PRIVATE:".toList (keypair index)
      (operatorKey index), world, input⟩ -> Settled curve index secret
        ((perform curve (.extract "PRIVATE:".toList (keypair index) (operatorKey index)) world
          input).1, past ++ [⟨.extract "PRIVATE:".toList (keypair index) (operatorKey index), world,
            input⟩]) := by
    rintro input ⟨-, whole⟩
    have kept : (perform curve (.extract "PRIVATE:".toList (keypair index) (operatorKey index))
        world input).1 (keypair index) = world (keypair index) :=
      perform_of_not_mem (by simp) curve world input
    refine ⟨⟨kept.trans opened.pairFile, ?_⟩, ?_⟩
    · change World.put _ _ _ _ = _
      rw [World.put_self, empty, found, List.nil_append]
      dsimp only at whole
      rw [found] at whole
      split
      · rfl
      · next failed =>
          rw [List.take_of_length_le (whole.resolve_left failed)]
    · apply showsOnly_snoc
      · intro event member chars shows
        exact absurd shows (opened.unshown event member chars)
      · intro chars impossible
        cases impossible
  apply Machine.guarantees_must
  · exact cutIdentity_of_created opened.created opened.unwritten
  · intro input _ works
    exact goesOn _ _ (written input ⟨rfl, Or.inl ((Bool.and_eq_true _ _).mp works).1⟩)
  · intro input _ _
    apply endsIdentity_exited
    by_cases writes : WritesKey index ⟨.extract "PRIVATE:".toList (keypair index)
      (operatorKey index), world, input⟩
    · exact (written input writes).cut
    · rcases opened.created with ⟨event, member, creates⟩
      apply cutIdentity_of_created ⟨event, List.mem_append_left _ member, creates⟩
      intro other inside
      rcases List.mem_append.mp inside with earlier | last
      · exact opened.unwritten other earlier
      · rw [List.mem_singleton.mp last]
        exact writes

theorem Unsettled.run {command : Command} {next : Script Command Ended}
    (unsettled : Unsettled index (world, past)) (key : operatorKey index ∉ command.targets)
    (shared : pubkey index ∉ command.targets)
    (goesOn : forall input, (perform curve command world input).2.ok = true ->
      Unsettled index ((perform curve command world input).1, past ++ [⟨command, world, input⟩]) ->
      (machine curve).recording.Guarantees (fun _ => True) (CutIdentity curve index)
        (EndsIdentity curve index) next
        ((perform curve command world input).1, past ++ [⟨command, world, input⟩])) :
    (machine curve).recording.Guarantees (fun _ => True) (CutIdentity curve index)
      (EndsIdentity curve index) (Spark.run command next) (world, past) := by
  apply Machine.guarantees_must unsettled.cut
  · intro input _ works
    exact goesOn input works (unsettled.step key shared)
  · intro input _ _
    exact endsIdentity_exited (unsettled.step key shared).cut

/-- The file of the private key is created behind a complete key pair. -/
theorem Unsettled.openKey {next : Script Command Ended} (unsettled : Unsettled index (world, past))
    (pair : world (keypair index) = some (.chars (keypairText curve secret)))
    (goesOn : forall world past, Opened curve index secret (world, past) ->
      (machine curve).recording.Guarantees (fun _ => True) (CutIdentity curve index)
        (EndsIdentity curve index) next (world, past)) :
    (machine curve).recording.Guarantees (fun _ => True) (CutIdentity curve index)
      (EndsIdentity curve index) (Spark.run (.openFile (operatorKey index)) next) (world, past) := by
  have unwritten : forall input event,
      event ∈ past ++ [⟨.openFile (operatorKey index), world, input⟩] -> ¬ WritesKey index event := by
    intro input event member
    rcases List.mem_append.mp member with earlier | last
    · exact unsettled.unwritten event earlier
    · rw [List.mem_singleton.mp last]
      rintro ⟨impossible, -⟩
      cases impossible
  have created : forall {input : Outcome}, input.effective = true -> Exists fun event =>
      event ∈ past ++ [⟨.openFile (operatorKey index), world, input⟩] ∧ CreatesKey index event :=
    fun effective => ⟨_, List.mem_append_right _ List.mem_cons_self, rfl, effective⟩
  apply Machine.guarantees_must unsettled.cut
  · intro input _ works
    have effective : input.effective = true := Outcome.effective_of_ok works
    apply goesOn
    refine ⟨?_, ?_, unwritten input, ?_, created effective⟩
    · have kept : (perform curve (.openFile (operatorKey index)) world input).1 (keypair index) =
          world (keypair index) := perform_of_not_mem (by simp) curve world input
      exact kept.trans pair
    · change (perform curve (.openFile (operatorKey index)) world input).1 (operatorKey index) = _
      rw [openFile_eq, if_pos effective]
      exact World.put_self _ _ _
    · exact unshown_snoc unsettled.unshown fun _ impossible => nomatch impossible
  · intro input _ _
    apply endsIdentity_exited
    by_cases effective : input.effective = true
    · exact cutIdentity_of_created (created effective) (unwritten input)
    · intro _
      refine Or.inl ⟨?_, unshown_snoc unsettled.unshown fun _ impossible => nomatch impossible⟩
      change (perform curve (.openFile (operatorKey index)) world input).1 (operatorKey index) = _
      rw [openFile_eq, if_neg effective]
      exact unsettled.keyFile

/-- A key is drawn, written and shown. -/
theorem Unsettled.generateIdentity (unsettled : Unsettled index (world, past)) :
    (machine curve).recording.Guarantees (fun _ => True) (CutIdentity curve index)
      (EndsIdentity curve index) (Spark.generateIdentity index (Spark.publishPubkey index))
      (world, past) := by
  have shows : forall {secret world past}, Settled curve index secret (world, past) ->
      (machine curve).recording.Guarantees (fun _ => True) (CutIdentity curve index)
        (EndsIdentity curve index) (Spark.publishPubkey index) (world, past) := by
    intro secret world past settled
    exact Settled.publishPubkey (fun _ settled => settled.cut)
      (fun _ _ settled => ⟨settled.cut, fun _ => ⟨secret, settled⟩⟩) settled
  apply unsettled.run (by simp) (by simp)
  intro opened works unsettled
  have empty : (perform curve (.openFile (keypair index)) world opened).1 (keypair index) =
      some (.chars []) := by
    rw [openFile_eq, if_pos (Outcome.effective_of_ok works)]
    exact World.put_self _ _ _
  generalize (perform curve (.openFile (keypair index)) world opened).1 = world at empty unsettled ⊢
  apply unsettled.run (by simp) (by simp)
  intro drawn works unsettled
  have pair : (perform curve (.keygen (keypair index)) world drawn).1 (keypair index) =
      some (.chars (keypairText curve drawn.secret)) := by
    change drawn.ok = true at works
    change World.put _ _ _ _ = _
    rw [World.put_self, World.text_eq empty, works, List.nil_append]
    rfl
  apply unsettled.openKey pair
  intro world past opened
  apply opened.extract
  intro world past settled
  apply Settled.run (fun _ settled => settled.cut)
    (fun _ _ settled => ⟨settled.cut, fun _ => ⟨_, settled⟩⟩) settled (by simp) (by simp)
  · intro chars impossible
    cases impossible
  · intro world past settled
    exact shows settled

/-- A start that finds no private key. -/
theorem Unsettled.ensureIdentity (unsettled : Unsettled index (world, past)) :
    (machine curve).recording.Guarantees (fun _ => True) (CutIdentity curve index)
      (EndsIdentity curve index) (Spark.ensureIdentity index) (world, past) := by
  have looks : forall {past} {yes no : Script Command Ended}, Unsettled index (world, past) ->
      (forall past, Unsettled index (world, past) ->
        (machine curve).recording.Guarantees (fun _ => True) (CutIdentity curve index)
          (EndsIdentity curve index) no (world, past)) ->
      (machine curve).recording.Guarantees (fun _ => True) (CutIdentity curve index)
        (EndsIdentity curve index) (.test (.isFile (operatorKey index)) yes no) (world, past) := by
    intro past yes no unsettled goesOn
    apply Machine.guarantees_test unsettled.cut
    · intro input _ present
      change (world (operatorKey index)).isSome = true at present
      cases Option.isSome_iff_exists.mp present with
      | intro content there => cases there.symm.trans unsettled.keyFile
    · intro input _ _
      exact goesOn _ (@Unsettled.step curve _ _ _ (.isFile (operatorKey index)) input unsettled
        (by simp) (by simp))
  apply looks unsettled
  intro past unsettled
  have step := fun input => @Unsettled.step curve _ _ _ (.isFile (keypair index)) input unsettled
    (by simp) (by simp)
  apply Machine.guarantees_test unsettled.cut
  · intro input _ _
    apply looks (step input)
    intro past unsettled
    exact endsIdentity_exited unsettled.cut
  · intro input _ _
    exact (step input).generateIdentity

/-- The rest of a start leaves a complete identity alone. -/
theorem Settled.rest {crash : World × List (Event Command World Outcome) -> Prop}
    {post : Ended -> World × List (Event Command World Outcome) -> Prop}
    {script : Script Command Ended}
    (cuts : forall state, Settled curve index secret state -> crash state)
    (ends : forall ended state, Settled curve index secret state -> post ended state)
    (calls : script.Calls (Quiet index)) {state : World × List (Event Command World Outcome)}
    (settled : Settled curve index secret state) :
    (machine curve).recording.Guarantees (fun _ => True) crash post script state := by
  apply Machine.guarantees_of_invariant (Settled curve index secret) calls _ cuts ends settled
  rintro ⟨command, ⟨world, past⟩, input⟩ quiet - settled
  exact settled.quiet quiet

/-- The whole script, given what becomes of the identity. -/
theorem guarantees_entrypoint {crash : World × List (Event Command World Outcome) -> Prop}
    {state : World × List (Event Command World Outcome)}
    (here done : World × List (Event Command World Outcome) -> Prop)
    (cuts : forall state, here state -> crash state)
    (looks : forall event : Event Command _ Outcome, event.command.targets = [] -> True ->
      here event.world -> here ((machine curve).recording.after event))
    (identity : forall state, here state -> (machine curve).recording.Guarantees (fun _ => True)
      crash (fun ended state => crash state ∧ (ended = .returned -> done state))
      (ensureIdentity index) state)
    (later : forall script : Script Command Ended, script.Calls (Quiet index) ->
      forall state, done state -> (machine curve).recording.Guarantees (fun _ => True) crash
        (fun _ state => crash state ∧ done state) script state)
    (initially : here state) :
    (machine curve).recording.Guarantees (fun _ => True) crash (fun _ => crash) (entrypoint index)
      state := by
  have tail : (Script.test Command.isConfig (run .envsubst (startFrostSigner (.done .returned)))
      (.done .exited)).Calls (Quiet index) := by
    refine ⟨quiet_of_targets rfl, ?_⟩
    intro reply
    dsimp only
    split
    · exact calls_run (quiet_of_targets rfl) (calls_quiet_startFrostSigner trivial)
    · trivial
  have started : (machine curve).recording.Guarantees (fun _ => True) crash
      (fun ended state => crash state ∧ (ended = .returned -> done state)) (startup index) state := by
    apply guarantees_prepare here cuts _ looks _ initially
    · intro state initially
      exact ⟨cuts state initially, fun impossible => nomatch impossible⟩
    · intro state initially
      apply guarantees_behind
      apply (identity state initially).mono fun _ cut => cut
      rintro ended state ⟨cut, returned⟩
      constructor
      · intro same
        exact (later _ (calls_behind calls_quiet_ensureTlsCert calls_quiet_rendezvousOperators) state
          (returned same)).mono (fun _ cut => cut) fun _ _ both => ⟨both.1, fun _ => both.2⟩
      · intro _
        exact ⟨cut, fun impossible => nomatch impossible⟩
  apply guarantees_behind
  apply started.mono fun _ cut => cut
  rintro ended state ⟨cut, returned⟩
  constructor
  · intro same
    exact (later _ tail state (returned same)).mono (fun _ cut => cut) fun _ _ both => both.1
  · intro _
    exact cut

/-- A start that finds the identity leaves it and shows it. -/
theorem settled_of_start {outcomes : List Outcome} (established : Established curve index secret world) :
    Settled curve index secret
      (((machine curve).exec (entrypoint index) world outcomes).1,
        commandsOf curve index (world, outcomes)) := by
  have guaranteed : (machine curve).recording.Guarantees (fun _ => True)
      (Settled curve index secret) (fun _ => Settled curve index secret) (entrypoint index)
      (world, []) := by
    apply guarantees_entrypoint (Settled curve index secret) (Settled curve index secret)
    · intro state settled
      exact settled
    · rintro ⟨command, ⟨world, past⟩, input⟩ none - settled
      exact settled.quiet (quiet_of_targets none)
    · rintro ⟨world, past⟩ settled
      exact Settled.ensureIdentity (fun _ settled => settled)
        (fun _ _ settled => ⟨settled, fun _ => settled⟩) settled
    · intro script calls state settled
      exact Settled.rest (fun _ settled => settled) (fun _ _ settled => ⟨settled, settled⟩) calls
        settled
    · exact ⟨established, fun _ impossible => nomatch impossible⟩
  have left := guaranteed.left outcomes fun _ _ => trivial
  rw [Machine.exec_recording, List.nil_append] at left
  exact left

/-- A careful start that finds no private key leaves none, or the one it shows. -/
theorem cutIdentity_of_start {outcomes : List Outcome} (fresh : world (operatorKey index) = none) :
    CutIdentity curve index
      (((machine curve).exec (entrypoint index) world outcomes).1,
        commandsOf curve index (world, outcomes)) := by
  have guaranteed : (machine curve).recording.Guarantees (fun _ => True)
      (CutIdentity curve index) (fun _ => CutIdentity curve index) (entrypoint index)
      (world, []) := by
    apply guarantees_entrypoint (Unsettled index)
      fun state => Exists fun secret => Settled curve index secret state
    · rintro ⟨world, past⟩ unsettled
      exact unsettled.cut
    · rintro ⟨command, ⟨world, past⟩, input⟩ none - unsettled
      rcases @quiet_of_targets index _ none with ⟨-, key, shared⟩
      exact unsettled.step key shared
    · rintro ⟨world, past⟩ unsettled
      exact unsettled.ensureIdentity
    · rintro script calls state ⟨secret, settled⟩
      exact Settled.rest (fun _ settled => settled.cut)
        (fun _ _ settled => ⟨settled.cut, secret, settled⟩) calls settled
    · refine ⟨fresh, ?_, ?_⟩
      · intro event impossible
        cases impossible
      · intro event impossible
        cases impossible
  have left := guaranteed.left outcomes fun _ _ => trivial
  rw [Machine.exec_recording, List.nil_append] at left
  exact left

end Start

/-! ## Every sequence of starts -/

section Starts

variable {curve : Curve} {index : Index} {world : World} {starts : List (List Outcome)}

/-- From a complete identity on, every start shows its public key. -/
theorem showsOnly_of_established {secret : Nat} (established : Established curve index secret world) :
    forall visit, visit ∈ visits (nextOperator curve index) (some world) starts ->
      ShowsOnly curve index secret (commandsOf curve index visit) := by
  intro visit member
  have here : Established curve index secret visit.1 := by
    apply (visits_invariant _ _ visit member).1
    · intro state same
      cases same
      exact established
    · intro state outcomes state' _ established next
      cases next
      exact (settled_of_start established).established
  exact (settled_of_start here).shown

/-- In every sequence of starts, each cut anywhere and with any commands failing,
in which every start that creates the file of the private key writes the key to
it, there is one secret such that every public key that is shown is its public
key, and its private key is complete in its file at that moment. -/
theorem identity_survives (fresh : Fresh index world)
    (careful : forall visit, visit ∈ visits (nextOperator curve index) (some world) starts ->
      CarefulIdentity curve index visit) :
    Exists fun secret => forall visit,
      visit ∈ visits (nextOperator curve index) (some world) starts ->
        ShowsOnly curve index secret (commandsOf curve index visit) := by
  have unset := fresh.keyFile
  clear fresh
  induction starts generalizing world with
  | nil => exact ⟨0, fun _ impossible => nomatch impossible⟩
  | cons outcomes starts inductionHypothesis =>
      have left := @cutIdentity_of_start curve index world outcomes unset
        (careful (world, outcomes) List.mem_cons_self)
      rcases left with ⟨stillUnset, unshown⟩ | ⟨secret, settled⟩
      · rcases inductionHypothesis
          (fun visit member => careful visit (List.mem_cons_of_mem _ member)) stillUnset with
          ⟨secret, later⟩
        refine ⟨secret, ?_⟩
        intro visit member
        rcases List.mem_cons.mp member with first | rest
        · rw [first]
          intro event inside chars shows
          exact absurd shows (unshown event inside chars)
        · exact later visit rest
      · refine ⟨secret, ?_⟩
        intro visit member
        rcases List.mem_cons.mp member with first | rest
        · rw [first]
          exact settled.shown
        · exact showsOnly_of_established settled.established visit rest

end Starts

/-! ## A start that is killed in front of the private key -/

def emptyVolume : World := fun _ => none

theorem fresh_emptyVolume : Fresh 0 emptyVolume := ⟨rfl, rfl⟩

/-- The key pair is written, and the file of the private key is empty. -/
def keylessStart : List Outcome :=
  List.replicate 9 { ok := true } ++ [{ ok := true, secret := 1 }, { ok := true }]

/-- The next start shows the public key of the pair, and the file of the private
key is still empty. -/
theorem shown_keyless :
    Fresh 0 emptyVolume ∧ ¬ Exists fun secret => forall visit,
      visit ∈ visits (nextOperator curveAtOne 0) (some emptyVolume)
          [keylessStart, List.replicate 12 { ok := true }] ->
        ShowsOnly curveAtOne 0 secret (commandsOf curveAtOne 0 visit) := by
  refine ⟨fresh_emptyVolume, ?_⟩
  rintro ⟨secret, only⟩
  have shows : ((commandsOf curveAtOne 0
      (((machine curveAtOne).exec (entrypoint 0) emptyVolume keylessStart).1,
        List.replicate 12 { ok := true })).any fun event =>
      decide (event.command = .write (pubkey 0) (unlines [publicHex curveAtOne 1]) ∧
        event.world (operatorKey 0) = some (.chars []))) = true := by
    decide +kernel
  rcases List.any_eq_true.mp shows with ⟨event, member, same⟩
  rcases of_decide_eq_true same with ⟨written, empty⟩
  have complete := (only _ (List.mem_cons_of_mem _ List.mem_cons_self) event member _ written).2
  have impossible := Option.some.inj (empty.symm.trans complete)
  simp [unlines] at impossible

instance (index : Index) (event : Event Command World Outcome) :
    Decidable (CreatesKey index event) :=
  inferInstanceAs (Decidable (_ ∧ _))

instance (index : Index) (event : Event Command World Outcome) :
    Decidable (WritesKey index event) :=
  inferInstanceAs (Decidable (_ ∧ (_ ∨ _)))

/-- A first start that goes on to the public key, and a second one. -/
theorem identity_survives_sample :
    Exists fun secret => forall visit,
      visit ∈ visits (nextOperator curveAtOne 0) (some emptyVolume)
          [keylessStart ++ List.replicate 5 { ok := true }, List.replicate 12 { ok := true }] ->
        ShowsOnly curveAtOne 0 secret (commandsOf curveAtOne 0 visit) := by
  apply identity_survives fresh_emptyVolume
  intro visit member
  rcases List.mem_cons.mp member with first | later
  · intro _
    have writes : ((commandsOf curveAtOne 0 visit).any fun event =>
        decide (WritesKey 0 event)) = true := by
      rw [first]
      decide +kernel
    rcases List.any_eq_true.mp writes with ⟨event, inside, wrote⟩
    exact ⟨event, inside, of_decide_eq_true wrote⟩
  · rintro ⟨event, inside, creates⟩
    have found : ((commandsOf curveAtOne 0 visit).all fun event =>
        decide (¬ CreatesKey 0 event)) = true := by
      rw [List.mem_singleton.mp later]
      decide +kernel
    exact absurd creates (of_decide_eq_true (List.all_eq_true.mp found event inside))

end Spark
end MutinyNet
