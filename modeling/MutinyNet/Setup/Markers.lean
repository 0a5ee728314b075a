import MutinyNet.Setup.Install

namespace MutinyNet
namespace Setup

open Shell Transition

/-!
# The marker files

`install_done` and `uses_modern_wallet` tell the next start what it may skip.
Neither `install.sh` nor `migrate.sh` stops at a failing command, so both put
their marker there whatever became of the commands in front of it; a start that
is killed leaves no marker that it had not reached.

A start that leaves a marker is followed through its script, and every other
start through what its commands cannot change.
-/

/-! ## What the markers stand for -/

/-- The wallet of the signer holds the key, and there is a configuration. -/
structure Sound (env : Environment) (world : World) : Prop where
  wallet : Exists fun wallet => world.wallets "custom_signet" = some wallet ∧
    HoldsKey env.privkeyMode world wallet
  conf : (world.files .bitcoinConf).isSome = true

/-- The wallet has descriptors, and the signing key was imported into it. -/
def Migrated (world : World) : Prop :=
  Exists fun lines => Exists fun wallet => world.files .privkey = some lines ∧
    world.wallets "custom_signet" = some wallet ∧ wallet.descriptors = true ∧
    forall descriptor, descriptor ∈ signingDescriptors "legacy" lines ->
      descriptor ∈ wallet.imported

/-- A volume that is not installed yet: a wallet on it comes from an earlier
attempt. -/
structure Uninstalled (world : World) : Prop where
  unmarked : world.files .installDone = none
  wallet : forall wallet, world.wallets "custom_signet" = some wallet ->
    wallet.descriptors = true ∧ wallet.loadOnStartup = true

/-- A volume that is not installed, or whose marker is sound. -/
def Settled (env : Environment) (world : World) : Prop :=
  Uninstalled world ∨ (world.files .installDone).isSome = true ∧ Sound env world

/-! ## What a start must not fail at -/

/-- The command creates the marker. -/
def Marks (file : File) (event : Event Command World Outcome) : Prop :=
  event.command.target = some file ∧ event.world.files file = none ∧ event.input.effective = true

/-- The commands that the installation cannot do without. -/
def Essential (event : Event Command World Outcome) : Prop :=
  match event.command with
  | .touch .usesModernWallet => event.world.files .usesModernWallet = none
  | .createwallet name => event.world.wallets name = none
  | .bitcoind | .regtest .listdescriptors => True
  | command => command.target = some .privkey ∨ command.target = some .bitcoinConf ∨
      Imports command

theorem essential_of_imports {event : Event Command World Outcome}
    (imports : Imports event.command) : Essential event := by
  unfold Essential
  have kept := imports
  rcases imports with (same | same) | ⟨descriptor, same⟩ | ⟨name, descriptor, same⟩ <;>
    rw [same] at kept ⊢ <;> exact Or.inr (Or.inr kept)

theorem essential_of_conf {event : Event Command World Outcome}
    (target : event.command.target = some .bitcoinConf) : Essential event := by
  rcases event with ⟨command, world, outcome⟩
  cases command <;> cases target <;> exact Or.inr (Or.inl rfl)

/-- The command works, and a list of descriptors is not empty. -/
def Succeeds (event : Event Command World Outcome) : Prop :=
  Works event ∧ (event.command = .regtest .listdescriptors -> event.input.output ≠ [])

/-- What is essential succeeds. -/
def Accomplished (event : Event Command World Outcome) : Prop :=
  Essential event -> Succeeds event

/-- A start that leaves `install_done` behind fails at nothing that is essential,
and one that leaves `uses_modern_wallet` behind on an installed volume fails at
no command of the import. -/
structure Careful (env : Environment) (world : World) (outcomes : List Outcome) : Prop where
  installing : (Exists fun event => event ∈ machine.events (entrypoint env) world outcomes ∧
      Marks .installDone event) ->
    forall event, event ∈ machine.events (entrypoint env) world outcomes ->
      Accomplished event
  migrating : (world.files .installDone).isSome = true ->
    (Exists fun event => event ∈ machine.events (entrypoint env) world outcomes ∧
      Marks .usesModernWallet event) ->
    forall event, event ∈ machine.events (entrypoint env) world outcomes ->
      Imports event.command -> Works event

/-! ## Starts without a marker -/

/-- A marker that no command creates stays away. -/
theorem unmarked_after {file : File} {event : Event Command World Outcome}
    (unmarked : event.world.files file = none) (unmarking : ¬ Marks file event) :
    (machine.after event).files file = none := by
  rcases event with ⟨command, world, outcome⟩
  by_cases target : command.target = some file
  · have ineffective : ¬ outcome.effective = true := fun effective =>
      unmarking ⟨target, unmarked, effective⟩
    have kept : forall changed, (World.changing world outcome changed).1.files file = none := by
      intro changed
      rw [World.changing, if_neg ineffective]
      exact unmarked
    cases command <;> cases target <;> exact kept _
  · change (perform command world outcome).1.files file = none
    rw [perform_files target]
    exact unmarked

/-- Without the creation of the marker an uninstalled volume stays one. -/
theorem Uninstalled.after {event : Event Command World Outcome}
    (uninstalled : Uninstalled event.world) (unmarking : ¬ Marks .installDone event) :
    Uninstalled (machine.after event) := by
  refine ⟨unmarked_after uninstalled.unmarked unmarking, ?_⟩
  intro wallet present
  have step := perform_wallets event.command event.world event.input "custom_signet"
  change (perform event.command event.world event.input).1.wallets _ = some wallet at present
  rw [present] at step
  cases before : event.world.wallets "custom_signet" with
  | none =>
      rw [before] at step
      rcases step with impossible | created
      · cases impossible
      · cases created
        exact ⟨rfl, rfl⟩
  | some old =>
      rw [before] at step
      rcases step with ⟨same, found, grows⟩
      cases found
      have kept := uninstalled.wallet old before
      exact ⟨grows.descriptors kept.1, grows.loadOnStartup kept.2⟩

/-- Nothing but a change of the file with the key unsettles an installed volume. -/
theorem Sound.after {env : Environment} {event : Event Command World Outcome}
    (sound : Sound env event.world) (other : event.command.target ≠ some .privkey) :
    Sound env (machine.after event) := by
  refine ⟨?_, perform_installed event.command event.input sound.conf⟩
  rcases sound.wallet with ⟨wallet, present, lines, key, some, held⟩
  have step := perform_wallets event.command event.world event.input "custom_signet"
  rw [present] at step
  rcases step with ⟨wallet', found, grows⟩
  refine ⟨wallet', found, lines, ?_, some, ?_⟩
  · change (perform event.command event.world event.input).1.files .privkey = _
    rw [perform_files other]
    exact key
  · intro descriptor member
    rcases held descriptor member with here | imported
    · rw [grows.keys]
      exact Or.inl here
    · exact Or.inr (grows.imported descriptor imported)

theorem Migrated.after {event : Event Command World Outcome} (migrated : Migrated event.world)
    (other : event.command.target ≠ some .privkey) : Migrated (machine.after event) := by
  rcases migrated with ⟨lines, wallet, key, present, descriptors, imported⟩
  have step := perform_wallets event.command event.world event.input "custom_signet"
  rw [present] at step
  rcases step with ⟨wallet', found, grows⟩
  refine ⟨lines, wallet', ?_, found, grows.descriptors descriptors, ?_⟩
  · change (perform event.command event.world event.input).1.files .privkey = _
    rw [perform_files other]
    exact key
  · intro descriptor member
    exact grows.imported descriptor (imported descriptor member)

/-! ## An installation that leaves its marker -/

/-- Before the node of an installation is started. -/
structure Prepared (world : World) : Prop extends Uninstalled world where
  modern : (world.files .usesModernWallet).isSome = true
  stopped : world.daemon = false

/-- There is a key to import, all of whose lines are read. -/
structure KeyWritten (world : World) : Prop where
  key : Exists fun lines => world.files .privkey = some lines ∧ lines ≠ []
  terminated : world.unterminated .privkey = false

/-- If the marker is there, it is sound, and the configuration was written to its
end. -/
def Finished (env : Environment) (world : World) : Prop :=
  world.files .installDone = none ∨ Sound env world ∧ ConfWritten env world

/-- Commands in front of the start of the node. -/
def Offline (command : Command) : Prop :=
  command.target ≠ some .installDone ∧ command ≠ .bitcoind

instance : DecidablePred Offline := fun _ => inferInstanceAs (Decidable (_ ∧ _))

theorem Prepared.after {event : Event Command World Outcome} (prepared : Prepared event.world)
    (offline : Offline event.command) : Prepared (machine.after event) where
  toUninstalled := prepared.toUninstalled.after fun marks => offline.1 marks.1
  modern := perform_installed event.command event.input prepared.modern
  stopped := perform_daemon offline.2 prepared.stopped event.input

theorem KeyWritten.after {event : Event Command World Outcome} (written : KeyWritten event.world)
    (other : event.command.target ≠ some .privkey) : KeyWritten (machine.after event) := by
  have spared := perform_spares other event.world event.input
  rcases written with ⟨⟨lines, key, some⟩, terminated⟩
  exact ⟨⟨lines, spared.1.trans key, some⟩, spared.2.trans terminated⟩

theorem offline_of_target {command : Command} {file : File} (target : command.target = some file)
    (other : file ≠ .installDone) : Offline command := by
  constructor
  · rw [target]
    intro same
    exact other (Option.some.inj same)
  · intro impossible
    rw [impossible] at target
    cases target

theorem calls_writeFile {property : Command -> Prop} {file : File} {lines : List String}
    {next : Script Command Nat}
    (writes : forall command : Command, command.target = some file -> property command)
    (rest : next.Calls property) : (writeFile file lines next).Calls property := by
  refine ⟨writes _ rfl, ?_⟩
  intro reply
  dsimp only
  split
  · exact ⟨writes _ rfl, fun _ => rest⟩
  · exact rest

section Installation

variable {env : Environment} {post : Nat -> World -> Prop} {world : World}

/-- What `gen-signet-keys.sh` is there for. -/
def KeyReady (_ : Nat) (world : World) : Prop :=
  Prepared world ∧ KeyWritten world

/-- Commands that keep what is ready. -/
def KeepsReady (command : Command) : Prop :=
  Offline command ∧ command.target ≠ some .privkey

theorem keepsReady_of_target {command : Command} {file : File}
    (target : command.target = some file) (unmarking : file ≠ .installDone)
    (other : file ≠ .privkey) : KeepsReady command := by
  refine ⟨offline_of_target target unmarking, ?_⟩
  rw [target]
  intro same
  exact other (Option.some.inj same)

theorem calls_writeFiles (shell : Expansion) (signetchallenge addr pubkey : String) :
    (writeFiles shell signetchallenge addr pubkey).Calls KeepsReady := by
  apply calls_writeFile fun _ target => keepsReady_of_target target (by decide) (by decide)
  apply calls_writeFile fun _ target => keepsReady_of_target target (by decide) (by decide)
  apply calls_writeFile fun _ target => keepsReady_of_target target (by decide) (by decide)
  exact trivial

/-- What keeps the key ready may fail or not. -/
theorem guarantees_keepsReady {script : Script Command Nat} (calls : script.Calls KeepsReady)
    (ready : KeyReady 0 world) :
    machine.Guarantees Accomplished (Finished env) KeyReady
      script world := by
  apply Machine.guarantees_of_invariant (KeyReady 0) calls
  · rintro event ⟨offline, other⟩ - ⟨prepared, written⟩
    exact ⟨prepared.after offline, written.after other⟩
  · intro world ready
    exact Or.inl ready.1.unmarked
  · intro status world ready
    exact ready
  · exact ready

/-- A pair of the environment is written to the files. -/
theorem guarantees_givenKey (prepared : Prepared world) :
    machine.Guarantees Accomplished (Finished env) KeyReady
      (writeFile .privkey (textLines env.privkey) <|
        writeFile .signetchallenge [env.signetchallenge] <|
          writeFiles env.shell env.signetchallenge "" "")
      world := by
  refine ⟨Or.inl prepared.unmarked, ?_⟩
  intro input first
  have opened := (first (Or.inl rfl)).1
  have truncated : machine.perform (.truncate .privkey) world input =
      (world.setFile .privkey [], { ok := true }) := World.changing_of_ok _ opened.1
  have prepared' := @Prepared.after { command := .truncate .privkey, world, input } prepared
    (offline_of_target rfl (by decide))
  change Prepared (machine.perform (.truncate .privkey) world input).1 at prepared'
  rw [truncated] at prepared' ⊢
  refine ⟨Or.inl prepared'.unmarked, ?_⟩
  intro input first
  have worked := (first (Or.inl rfl)).1
  apply guarantees_keepsReady
  · apply calls_writeFile fun _ target => keepsReady_of_target target (by decide) (by decide)
    exact calls_writeFiles _ _ _ _
  · constructor
    · exact @Prepared.after { command := .write .privkey _, world := _, input } prepared'
        (offline_of_target rfl (by decide))
    · change KeyWritten (World.changing _ input _).1
      rw [World.changing_of_ok _ worked.1, World.appendLines_setFile]
      refine ⟨⟨_, World.setFile_self _, ?_⟩, World.setFile_terminated _⟩
      intro empty
      exact List.splitOn_ne_nil _ _ (List.map_eq_nil_iff.mp empty)

/-- Behind a line that was appended there is a line break. -/
theorem keyWritten_appendLines {lines : List String} (some : lines ≠ []) :
    KeyWritten (world.appendLines .privkey lines) := by
  refine ⟨⟨_, World.appendLines_self lines, World.joinLines_ne_nil some _ _⟩, ?_⟩
  change Function.update world.unterminated .privkey
    (world.unterminated .privkey && lines.isEmpty) .privkey = false
  rw [Function.update_self, List.isEmpty_eq_false_iff.mpr some, Bool.and_false]

/-- A generated key is added to the file. -/
theorem guarantees_generateKeys (prepared : Prepared world) :
    machine.Guarantees Accomplished (Finished env) KeyReady (generateKeys env.shell) world := by
  apply Machine.guarantees_attemptAll Prepared
  · intro world prepared
    exact Or.inl prepared.unmarked
  · intro event member _ prepared
    have offline : forall command, command ∈ ([.regtest .removeDatadir, .regtest .makeDatadir,
        .pkill, .regtest .writeConf, .regtest .daemon, .sleep, .regtest .createwallet] :
          List Command) -> Offline command := by
      decide
    exact prepared.after (offline event.command member)
  · intro world prepared
    have unmarked : Finished env world := Or.inl prepared.unmarked
    apply guarantees_regtest unmarked
    intro addr _
    apply guarantees_regtest unmarked
    intro signetchallenge _
    apply guarantees_regtest unmarked
    intro pubkey _
    refine ⟨unmarked, ?_⟩
    intro input first
    have opened := (first (Or.inl rfl)).1
    have prepared' := @Prepared.after { command := .openAppend .privkey, world, input } prepared
      (offline_of_target rfl (by decide))
    have appending : machine.perform (.openAppend .privkey) world input =
        (world.openFile .privkey, { ok := true }) := World.changing_of_ok _ opened.1
    change Prepared (machine.perform (.openAppend .privkey) world input).1 at prepared'
    rw [appending] at prepared' ⊢
    have unmarked' : Finished env (world.openFile .privkey) := Or.inl prepared'.unmarked
    apply guarantees_regtest unmarked'
    intro input first
    have listed := (first trivial).2 rfl
    dsimp only
    rw [if_pos rfl]
    apply Machine.guarantees_attempt unmarked'
    intro output first
    have worked := (first (Or.inl rfl)).1
    apply guarantees_keepsReady
    · refine ⟨⟨⟨by decide, by decide⟩, by decide⟩, fun _ => ?_⟩
      refine ⟨⟨⟨by decide, by decide⟩, by decide⟩, fun _ => ?_⟩
      exact calls_writeFiles _ _ _ _
    · constructor
      · exact @Prepared.after { command := .write .privkey _, world := _, input := output } prepared'
          (offline_of_target rfl (by decide))
      · change KeyWritten (World.changing _ output _).1
        rw [World.changing_of_ok _ worked.1]
        exact keyWritten_appendLines listed
  · exact prepared

theorem guarantees_genSignetKeys (miner : env.minerenabled = "1") (prepared : Prepared world) :
    machine.Guarantees Accomplished (Finished env) KeyReady (genSignetKeys env) world := by
  unfold genSignetKeys
  rw [if_pos miner]
  split
  · exact guarantees_generateKeys prepared
  · exact guarantees_givenKey prepared

/-- Before the marker everything it stands for is there. -/
structure Complete (env : Environment) (world : World) : Prop where
  unmarked : world.files .installDone = none
  sound : Sound env world
  conf : ConfWritten env world

/-- The key of the file is not an empty list of descriptors. -/
theorem signingDescriptors_ne_nil {privkeyMode : String} {lines : List String}
    (some : lines ≠ []) : signingDescriptors privkeyMode lines ≠ [] := by
  unfold signingDescriptors
  split
  · exact List.cons_ne_nil _ _
  · intro empty
    exact some (List.map_eq_nil_iff.mp empty)

/-- The node of an installation comes up, and its wallet is there and loaded. -/
theorem importable_after (prepared : Prepared world) {started created : Outcome}
    (up : started.ok = true)
    (new : (perform .bitcoind world started).1.wallets "custom_signet" = none ->
      created.ok = true) :
    Exists fun wallet => Importable world "custom_signet"
      (perform (.createwallet "custom_signet") (perform .bitcoind world started).1 created).1
      wallet := by
  have running : (perform .bitcoind world started).1 = world.startNode := by
    change (world.bitcoind started).1 = world.startNode
    rw [World.bitcoind, prepared.stopped, if_neg Bool.false_ne_true, World.changing_of_ok _ up]
  rw [running] at new ⊢
  change Exists fun wallet => Importable world "custom_signet"
    (world.startNode.createwallet "custom_signet" created).1 wallet
  unfold World.createwallet
  cases absent : world.wallets "custom_signet" with
  | none =>
      have missing : world.startNode.wallets "custom_signet" = none := by
        change (world.wallets "custom_signet").map _ = none
        rw [absent]
        rfl
      rw [if_pos ⟨rfl, missing⟩, World.changing_of_ok _ (new missing)]
      exact ⟨World.newWallet, rfl, rfl, rfl, World.setWallet_self _ _, rfl, rfl⟩
  | some wallet =>
      have present : world.startNode.wallets "custom_signet" =
          some { wallet with loaded := wallet.loadOnStartup } := by
        change (world.wallets "custom_signet").map _ = _
        rw [absent]
        rfl
      have kept := prepared.wallet wallet absent
      rw [if_neg (by rw [present]; exact fun impossible => nomatch impossible.2)]
      exact ⟨_, rfl, rfl, rfl, present, kept.2, kept.1⟩

/-- With the key and the configuration in place, `setup-signet.sh` brings the key
into the wallet. -/
theorem guarantees_setupSignet (miner : env.minerenabled = "1") (prepared : Prepared world)
    (written : KeyWritten world) (conf : ConfWritten env world) :
    machine.Guarantees Accomplished (Finished env) (fun _ => Complete env) (setupSignet env)
      world := by
  have cut : Finished env world := Or.inl prepared.unmarked
  apply Machine.guarantees_attempt cut
  intro started first
  have up := (first trivial).1
  have started' : Finished env (perform .bitcoind world started).1 :=
    Or.inl ((perform_files (by decide) _ _).trans prepared.unmarked)
  apply Machine.guarantees_attempt started'
  intro created first
  rcases importable_after prepared up.1 fun absent => (first absent).1.1 with ⟨wallet, importable⟩
  rcases written with ⟨⟨lines, key, some⟩, terminated⟩
  have unmarked : forall world' wallet', Importable world "custom_signet" world' wallet' ->
      Finished env world' := by
    intro world' wallet' importable'
    refine Or.inl ?_
    rw [importable'.files]
    exact prepared.unmarked
  have here := unmarked _ _ importable
  apply guarantees_isFile here
  rw [if_pos (by rw [importable.files, key]; rfl)]
  apply guarantees_isFile here
  rw [if_pos (by rw [importable.files]; exact prepared.modern), if_pos miner]
  apply guarantees_importSigningKey (fun _ first imports => (first (essential_of_imports imports)).1)
    unmarked importable key (signingDescriptors_ne_nil some) (Or.inr terminated)
  intro world' wallet' importable' held
  rcases conf with ⟨challenge, rpcauth, whole⟩
  have same := importable'.files
  refine ⟨?_, ⟨⟨wallet', importable'.present, held⟩, ?_⟩, challenge, rpcauth, ?_⟩
  · rw [same]
    exact prepared.unmarked
  · rw [same, whole]
    rfl
  · rw [same]
    exact whole

/-- The marker is put where everything it stands for is there. -/
theorem guarantees_finishInstall (complete : Complete env world) :
    machine.Guarantees Accomplished (Finished env) (fun _ => Finished env) (finishInstall env)
      world := by
  have cut : Finished env world := Or.inl complete.unmarked
  have mark : machine.Guarantees Accomplished (Finished env) (fun _ => Finished env)
      (.call (.touch .installDone) fun reply => .done (statusOf reply)) world := by
    refine ⟨cut, ?_⟩
    intro input _
    have other : (Command.touch .installDone).target ≠ some .bitcoinConf := by decide
    refine Or.inr ⟨?_, ?_⟩
    · exact @Sound.after env { command := .touch .installDone, world, input } complete.sound
        fun impossible => nomatch impossible
    · rcases complete.conf with ⟨challenge, rpcauth, whole⟩
      exact ⟨challenge, rpcauth, (perform_files other world input).trans whole⟩
  unfold finishInstall
  dsimp only
  split
  · apply Machine.guarantees_attempt cut
    intro _ _
    exact mark
  · exact mark

/-- On an empty volume, or after an attempt that left no marker. -/
theorem guarantees_install (miner : env.minerenabled = "1") (uninstalled : Uninstalled world)
    (stopped : world.daemon = false) :
    machine.Guarantees Accomplished (Finished env) (fun _ => Finished env) (install env) world := by
  have cut : Finished env world := Or.inl uninstalled.unmarked
  apply Machine.guarantees_attempt cut
  intro input first
  have prepared : Prepared (perform (.touch .usesModernWallet) world input).1 := by
    refine ⟨?_, ?_, perform_daemon (by decide) stopped input⟩
    · exact @Uninstalled.after { command := .touch .usesModernWallet, world, input } uninstalled
        fun marks => nomatch marks.1
    · cases there : world.files .usesModernWallet with
      | none =>
          have worked := (first there).1
          change ((world.changing input _).1.files .usesModernWallet).isSome = true
          rw [World.changing_of_ok _ worked.1]
          exact World.openFile_isSome
      | some lines => exact perform_installed _ _ (by rw [there]; rfl)
  apply Machine.guarantees_andThen.mpr
  refine (guarantees_genSignetKeys miner prepared).mono (fun _ cut => cut) ?_
  rintro - world ⟨prepared, written⟩
  apply Machine.guarantees_andThen.mpr
  have conf : forall lines, KeyReady 0 (world.setFile .bitcoinConf lines) := by
    intro lines
    have other : forall {file : File}, file ≠ .bitcoinConf ->
        (world.setFile .bitcoinConf lines).files file = world.files file :=
      World.setFile_files_of_ne
    rcases written with ⟨⟨key, here, some⟩, terminated⟩
    refine ⟨⟨⟨?_, prepared.wallet⟩, ?_, prepared.stopped⟩, ⟨key, ?_, some⟩, ?_⟩
    · exact (other (by decide)).trans prepared.unmarked
    · rw [other (by decide)]
      exact prepared.modern
    · exact (other (by decide)).trans here
    · exact (World.setFile_unterminated_of_ne (by decide)).trans terminated
  apply guarantees_rewriteConf (fun _ first target => (first (essential_of_conf target)).1)
    (fun lines => Or.inl (conf lines).1.unmarked) (fun _ => True) (Or.inl prepared.unmarked)
    (fun _ => trivial) (fun _ _ _ => trivial)
  intro challenge rpcauth _
  apply Machine.guarantees_andThen.mpr
  have ready := conf (confLines env challenge rpcauth)
  have whole : ConfWritten env (world.setFile .bitcoinConf (confLines env challenge rpcauth)) :=
    ⟨challenge, rpcauth, World.setFile_self _⟩
  refine (guarantees_setupSignet miner ready.1 ready.2 whole).mono (fun _ cut => cut) ?_
  intro _ world complete
  exact guarantees_finishInstall complete

/-- A start on a volume that is not installed. -/
theorem guarantees_installing (miner : env.minerenabled = "1") (uninstalled : Uninstalled world)
    (stopped : world.daemon = false) :
    machine.Guarantees Accomplished (Finished env) (fun _ => Finished env) (entrypoint env)
      world := by
  have cut : Finished env world := Or.inl uninstalled.unmarked
  apply Machine.guarantees_must cut
  · intro _ _ _
    apply guarantees_isFile cut
    rw [if_neg (by rw [uninstalled.unmarked]; exact Bool.false_ne_true)]
    apply Machine.guarantees_andThen.mpr
    refine (guarantees_install miner uninstalled stopped).mono (fun _ cut => cut) ?_
    intro status world finished
    split
    · have calls : (Script.attempt Command.stop <| .must (Ended.exited 1) .awaitStopped
          (.done .exec)).Calls fun command => command.target = none := by
        refine ⟨rfl, fun _ => ⟨rfl, ?_⟩⟩
        intro reply
        dsimp only
        split <;> trivial
      apply Machine.guarantees_of_invariant (Finished env) calls _ (fun _ finished => finished)
        (fun _ _ finished => finished) finished
      intro event target _ finished
      have kept : forall file, (machine.after event).files file = event.world.files file :=
        fun _ => perform_files (by rw [target]; exact fun impossible => nomatch impossible) _ _
      rcases finished with unmarked | ⟨sound, conf⟩
      · exact Or.inl ((kept _).trans unmarked)
      · refine Or.inr ⟨sound.after ?_, ?_⟩
        · rw [target]
          exact fun impossible => nomatch impossible
        · rcases conf with ⟨challenge, rpcauth, whole⟩
          exact ⟨challenge, rpcauth, (kept _).trans whole⟩
    · exact finished
  · intro _ _ _
    exact cut

end Installation

/-! ## Starts on an installed volume -/

/-- Commands that leave the file with the key as it is. -/
def KeepsKey (command : Command) : Prop :=
  command.target ≠ some .privkey

instance : DecidablePred KeepsKey := fun _ => inferInstanceAs (Decidable (_ ≠ _))

theorem ConfOnly.keepsKey {command : Command} (confOnly : ConfOnly command) :
    KeepsKey command := by
  rcases confOnly with same | ⟨lines, same⟩ | same | same <;> rw [same] <;>
    exact fun impossible => nomatch impossible

theorem Imports.keepsKey {command : Command} (imports : Imports command) : KeepsKey command := by
  rw [KeepsKey, imports.target]
  exact fun impossible => nomatch impossible

section Installed

variable {env : Environment} {world : World}

theorem calls_orExit {script : Script Command Nat} {next : Script Command Ended}
    (first : script.Calls KeepsKey) (second : next.Calls KeepsKey) :
    (orExit script next).Calls KeepsKey := by
  apply Script.calls_andThen first
  intro status
  split
  · exact second
  · trivial

/-- The end of a start, and the whole of it where `uses_modern_wallet` is there. -/
theorem calls_rewrite (env : Environment) :
    (orExit (rewriteConf env) (.done .exec)).Calls KeepsKey :=
  calls_orExit ((calls_rewriteConf env).mono fun _ => ConfOnly.keepsKey) trivial

/-- The start goes on behind the migration. -/
def behindMigration (env : Environment) : Script Command Ended :=
  .must (.exited 1) .sleep <| orExit (rewriteConf env) (.done .exec)

theorem calls_behindMigration (env : Environment) : (behindMigration env).Calls KeepsKey := by
  refine ⟨by decide, ?_⟩
  intro reply
  dsimp only
  split
  · exact calls_rewrite env
  · trivial

/-- A migration writes no file but its marker. -/
theorem calls_migrate_target :
    migrate.Calls fun command => command.target = none ∨ command.target = some .usesModernWallet := by
  refine ⟨Or.inl rfl, fun _ => ⟨Or.inl rfl, fun _ => ⟨Or.inl rfl, ?_⟩⟩⟩
  intro reply
  dsimp only
  split
  · apply Script.calls_andThen
      ((calls_importWifToDescriptor _).mono fun _ imports => Or.inl imports.target)
    intro _
    exact ⟨Or.inr rfl, fun _ => ⟨Or.inl rfl, fun _ => ⟨Or.inl rfl, fun _ => trivial⟩⟩⟩
  · trivial

theorem calls_migrate : migrate.Calls KeepsKey := by
  apply calls_migrate_target.mono
  rintro command (none | marker) same
  · cases none.symm.trans same
  · cases marker.symm.trans same

/-- What the start does on an installed volume. -/
def onInstalled (env : Environment) : Script Command Ended :=
  .test (.isFile .usesModernWallet) (orExit (rewriteConf env) (.done .exec))
    (orExit migrate (behindMigration env))

theorem calls_onInstalled (env : Environment) : (onInstalled env).Calls KeepsKey := by
  refine ⟨by decide, ?_⟩
  intro reply
  dsimp only
  split
  · exact calls_rewrite env
  · exact calls_orExit calls_migrate (calls_behindMigration env)

/-- The start finds the marker and skips the installation. -/
theorem guarantees_onInstalled {allowed : Event Command World Outcome -> Prop}
    {crash : World -> Prop} {post : Ended -> World -> Prop} (cut : crash world)
    (installed : (world.files .installDone).isSome = true) (exited : post (.exited 1) world)
    (goesOn : machine.Guarantees allowed crash post (onInstalled env) world) :
    machine.Guarantees allowed crash post (entrypoint env) world := by
  apply Machine.guarantees_must cut
  · intro _ _ _
    apply guarantees_isFile cut
    rw [if_pos installed]
    exact goesOn
  · intro _ _ _
    exact exited

/-- Whatever becomes of its commands, the start leaves a sound marker sound. -/
theorem guarantees_sound (installed : (world.files .installDone).isSome = true)
    (sound : Sound env world) :
    machine.Guarantees (fun _ => True)
      (fun world => (world.files .installDone).isSome = true ∧ Sound env world)
      (fun _ world => (world.files .installDone).isSome = true ∧ Sound env world)
      (entrypoint env) world := by
  apply guarantees_onInstalled ⟨installed, sound⟩ installed ⟨installed, sound⟩
  apply Machine.guarantees_of_invariant _ (calls_onInstalled env) _ (fun _ both => both)
    (fun _ _ both => both) ⟨installed, sound⟩
  rintro event keeps - ⟨installed, sound⟩
  exact ⟨perform_installed _ _ installed, sound.after keeps⟩

/-- The marker of the migration is not there, or it is sound. -/
def Marked (world : World) : Prop :=
  world.files .usesModernWallet = none ∨ Migrated world

/-- Behind the import the key stays where it is. -/
theorem guarantees_migrated {A : Type} {allowed : Event Command World Outcome -> Prop}
    {script : Script Command A} (calls : script.Calls KeepsKey) (migrated : Migrated world) :
    machine.Guarantees allowed Marked (fun _ => Migrated) script world := by
  apply Machine.guarantees_of_invariant Migrated calls _ (fun _ => Or.inr)
    (fun _ _ migrated => migrated) migrated
  intro event keeps _ migrated
  exact migrated.after keeps

/-- A migration that succeeds leaves a wallet that descriptors can be imported
into. -/
theorem importable_of_migratewallet {outcome : Outcome}
    (ok : (perform (.migratewallet "custom_signet") world outcome).2.ok = true) :
    Exists fun wallet => Importable world "custom_signet"
      (perform (.migratewallet "custom_signet") world outcome).1 wallet := by
  change (world.migratewallet "custom_signet" outcome).2.ok = true at ok
  change Exists fun wallet => Importable world "custom_signet"
    (world.migratewallet "custom_signet" outcome).1 wallet
  unfold World.migratewallet at ok ⊢
  cases present : world.reachable "custom_signet" with
  | none =>
      rw [present] at ok
      cases ok
  | some wallet =>
      rw [present] at ok
      dsimp only at ok ⊢
      have running := (World.wallets_of_reachable present).1
      split at ok
      · cases ok
      · next legacy =>
          have worked : outcome.ok = true := ok
          rw [if_neg legacy, World.changing_of_ok _ worked]
          exact ⟨_, rfl, rfl, running, World.setWallet_self _ _, rfl, rfl⟩

/-- Where its commands work, the import leaves the key in the wallet. -/
theorem guarantees_importWif {before : World} {lines : List String} {wallet : Wallet}
    (importable : Importable before "custom_signet" world wallet)
    (key : before.files .privkey = some lines) (unmarked : before.files .usesModernWallet = none) :
    machine.Guarantees (fun event => Imports event.command -> Works event) Marked
      (fun _ => Migrated) (importWifToDescriptor "custom_signet") world := by
  have cut : forall world wallet, Importable before "custom_signet" world wallet ->
      Marked world := by
    intro world wallet importable
    refine Or.inl ?_
    rw [importable.files]
    exact unmarked
  refine ⟨cut world wallet importable, ?_⟩
  intro input first
  have worked := first (Or.inl (Or.inl rfl))
  have read : machine.perform (.cat .privkey) world input =
      (world, { ok := true, output := lines }) := by
    change world.cat .privkey input = _
    unfold World.cat
    rw [importable.files, key]
    exact if_pos worked.1
  rw [read]
  apply guarantees_importChecked (fun _ first => first) cut importable
  apply guarantees_importChecked (fun _ first => first) cut (importable.withDescriptor _)
  have importable' := (importable.withDescriptor (.multi (captured lines))).withDescriptor
    (.combo (captured lines))
  refine ⟨lines, _, ?_, importable'.present, importable'.descriptors, ?_⟩
  · rw [importable'.files]
    exact key
  · intro descriptor member
    rw [signingDescriptors, if_pos rfl] at member
    rcases List.mem_cons.mp member with multi | combo
    · rw [multi]
      exact List.mem_cons_of_mem _ List.mem_cons_self
    · rw [List.mem_singleton.mp combo]
      exact List.mem_cons_self

/-- A migration on a volume whose key is there: its marker is sound, and it
leaves no marker where it fails. -/
theorem guarantees_migrateImported {lines : List String}
    (key : world.files .privkey = some lines) (unmarked : world.files .usesModernWallet = none) :
    machine.Guarantees (fun event => Imports event.command -> Works event) Marked
      (fun status world => Migrated world ∨ status = 1 ∧ world.files .usesModernWallet = none)
      migrate world := by
  apply Machine.guarantees_attemptAll fun later => later.files = world.files
  · intro later same
    refine Or.inl ?_
    rw [same]
    exact unmarked
  · intro event member _ same
    have kept : forall command, command ∈ ([.bitcoind, .sleep] : List Command) ->
        command.target = none := by
      decide
    funext file
    rw [← same]
    refine perform_files ?_ _ _
    rw [kept _ member]
    exact fun impossible => nomatch impossible
  · intro later same
    have unmarked' : later.files .usesModernWallet = none := by
      rw [same]
      exact unmarked
    have cut : Marked later := Or.inl unmarked'
    apply Machine.guarantees_test cut
    · intro input _ ok
      rcases importable_of_migratewallet ok with ⟨wallet, importable⟩
      apply Machine.guarantees_andThen.mpr
      refine (guarantees_importWif importable (by rw [same]; exact key) unmarked').mono
        (fun _ cut => cut) ?_
      intro _ world migrated
      have rest : (Script.attemptAll [Command.touch .usesModernWallet, .stop] <|
          .call .sleep fun reply => .done (statusOf reply)).Calls KeepsKey :=
        ⟨by decide, fun _ => ⟨by decide, fun _ => ⟨by decide, fun _ => trivial⟩⟩⟩
      exact (guarantees_migrated rest migrated).mono (fun _ cut => cut) fun _ _ => Or.inl
    · intro input _ _
      refine Or.inr ⟨rfl, ?_⟩
      exact (perform_files (by decide) _ _).trans unmarked'
  · rfl

/-- A start that finds no marker of the migration. -/
theorem guarantees_migrating (installed : (world.files .installDone).isSome = true)
    (unmarked : world.files .usesModernWallet = none) {lines : List String}
    (key : world.files .privkey = some lines) :
    machine.Guarantees (fun event => Imports event.command -> Works event) Marked
      (fun _ => Marked) (entrypoint env) world := by
  have cut : Marked world := Or.inl unmarked
  apply guarantees_onInstalled cut installed cut
  apply guarantees_isFile cut
  rw [if_neg (by rw [unmarked]; exact Bool.false_ne_true)]
  apply Machine.guarantees_andThen.mpr
  refine (guarantees_migrateImported key unmarked).mono (fun _ cut => cut) ?_
  rintro status world' (migrated | ⟨failed, unmarked⟩)
  · split
    · exact (guarantees_migrated (calls_behindMigration env) migrated).mono (fun _ cut => cut)
        fun _ _ => Or.inr
    · exact Or.inr migrated
  · rw [if_neg (by rw [failed]; decide)]
    exact Or.inl unmarked

end Installed

/-! ## Every start -/

section Start

variable {env : Environment} {world : World} {outcomes : List Outcome}

/-- What a start leaves, wherever it is cut. -/
theorem left_of_guarantees {allowed : Event Command World Outcome -> Prop}
    (holds : World -> Prop)
    (guaranteed : machine.Guarantees allowed holds (fun _ => holds) (entrypoint env) world)
    (clean : forall event, event ∈ machine.events (entrypoint env) world outcomes ->
      allowed event) : holds (machine.exec (entrypoint env) world outcomes).1 :=
  guaranteed.left outcomes clean

/-- A marker that is created is there at the end. -/
theorem marked_of_event {file : File}
    (marks : Exists fun event => event ∈ machine.events (entrypoint env) world outcomes ∧
      Marks file event) :
    ((machine.exec (entrypoint env) world outcomes).1.files file).isSome = true := by
  rcases marks with ⟨⟨command, found, outcome⟩, member, target, -, effective⟩
  apply machine.exec_of_mem_events (fun world => (world.files file).isSome = true) _ member
  · have written : forall {changed : World} {lines : List String},
        changed.files = Function.update found.files file (some lines) ->
          ((World.changing found outcome changed).1.files file).isSome = true := by
      intro changed lines same
      rw [World.changing, if_pos effective, same, Function.update_self]
      rfl
    cases command <;> cases target <;> exact written rfl
  · intro event here
    exact perform_installed event.command event.input here

/-- A marker that was not there and is not created is not there. -/
theorem unmarked_of_events {file : File} (unmarked : world.files file = none)
    (unmarking : forall event, event ∈ machine.events (entrypoint env) world outcomes ->
      ¬ Marks file event) :
    (machine.exec (entrypoint env) world outcomes).1.files file = none := by
  refine left_of_guarantees (fun world => world.files file = none) ?_ unmarking
  refine Machine.guarantees_of_invariant (fun world => world.files file = none)
    (Script.calls_trivial _) ?_ ?_ ?_ unmarked
  · intro event _ unmarking unmarked
    exact unmarked_after unmarked unmarking
  · intro _ unmarked
    exact unmarked
  · intro _ _ unmarked
    exact unmarked

/-- What the markers stand for in the volume that a start leaves. -/
structure MarkersSound (env : Environment) (world left : World) : Prop where
  installed : (left.files .installDone).isSome = true ->
    Sound env left ∧ (world.files .installDone = none -> ConfWritten env left)
  migrated : (world.files .installDone).isSome = true -> world.files .usesModernWallet = none ->
    (left.files .usesModernWallet).isSome = true -> Migrated left

/-- A start on a volume that is not installed. -/
theorem markersSound_of_uninstalled (miner : env.minerenabled = "1")
    (uninstalled : Uninstalled world) (stopped : world.daemon = false)
    (careful : Careful env world outcomes) :
    Settled env (machine.exec (entrypoint env) world outcomes).1 ∧
      MarkersSound env world (machine.exec (entrypoint env) world outcomes).1 := by
  have unmarked := uninstalled.unmarked
  have fresh : ¬ (world.files .installDone).isSome = true := by
    rw [unmarked]
    exact Bool.false_ne_true
  by_cases marks : Exists fun event =>
      event ∈ machine.events (entrypoint env) world outcomes ∧ Marks .installDone event
  · have marked := marked_of_event marks
    have finished := left_of_guarantees (Finished env)
      (guarantees_installing miner uninstalled stopped) (careful.installing marks)
    rcases finished with impossible | ⟨sound, conf⟩
    · rw [impossible] at marked
      cases marked
    · exact ⟨Or.inr ⟨marked, sound⟩, fun _ => ⟨sound, fun _ => conf⟩, fun there => absurd there fresh⟩
  · have left : Uninstalled (machine.exec (entrypoint env) world outcomes).1 := by
      apply left_of_guarantees Uninstalled _ fun event member creation =>
        marks ⟨event, member, creation⟩
      apply Machine.guarantees_of_invariant Uninstalled (Script.calls_trivial _) _
        (fun _ uninstalled => uninstalled) (fun _ _ uninstalled => uninstalled) uninstalled
      intro event _ unmarking uninstalled
      exact uninstalled.after unmarking
    refine ⟨Or.inl left, ?_, fun there => absurd there fresh⟩
    intro there
    rw [left.unmarked] at there
    cases there

/-- A start on an installed volume. -/
theorem markersSound_of_installed (installed : (world.files .installDone).isSome = true)
    (sound : Sound env world) (careful : Careful env world outcomes) :
    Settled env (machine.exec (entrypoint env) world outcomes).1 ∧
      MarkersSound env world (machine.exec (entrypoint env) world outcomes).1 := by
  have left := left_of_guarantees
    (fun world => (world.files .installDone).isSome = true ∧ Sound env world)
    (guarantees_sound installed sound) fun _ (_ : _ ∈ machine.events (entrypoint env) world outcomes)
      => trivial
  refine ⟨Or.inr left, fun _ => ⟨left.2, fun fresh => ?_⟩, fun _ unmarked there => ?_⟩
  · rw [fresh] at installed
    cases installed
  · rcases sound.wallet with ⟨-, -, lines, key, -, -⟩
    by_cases marks : Exists fun event =>
        event ∈ machine.events (entrypoint env) world outcomes ∧ Marks .usesModernWallet event
    · have marked := left_of_guarantees Marked (guarantees_migrating installed unmarked key)
        (careful.migrating installed marks)
      rcases marked with impossible | migrated
      · rw [impossible] at there
        cases there
      · exact migrated
    · have kept := unmarked_of_events unmarked fun event member creation =>
        marks ⟨event, member, creation⟩
      rw [kept] at there
      cases there

end Start

/-! ## Every sequence of starts -/

/-- The volume of the next start: its node is stopped. -/
theorem Settled.rebooted {env : Environment} {world : World} (settled : Settled env world) :
    Settled env (reboot world) := by
  have unloaded : forall {wallet : Wallet}, (reboot world).wallets "custom_signet" = some wallet ->
      Exists fun before => world.wallets "custom_signet" = some before ∧
        wallet = { before with loaded := false } := by
    intro wallet present
    rcases Option.map_eq_some_iff.mp present with ⟨before, found, same⟩
    exact ⟨before, found, same.symm⟩
  rcases settled with uninstalled | ⟨installed, sound⟩
  · refine Or.inl ⟨uninstalled.unmarked, ?_⟩
    intro wallet present
    rcases unloaded present with ⟨before, found, same⟩
    subst same
    exact uninstalled.wallet before found
  · rcases sound.wallet with ⟨wallet, found, held⟩
    refine Or.inr ⟨installed, ⟨{ wallet with loaded := false }, ?_, held⟩, sound.conf⟩
    change (world.wallets "custom_signet").map _ = _
    rw [found]
    rfl

/-- A volume in front of a start. -/
def Startable (env : Environment) (world : World) : Prop :=
  Settled env world ∧ world.daemon = false

/-- In every sequence of starts in which no start that leaves a marker behind
fails at what the marker stands for, whatever else fails and wherever a start is
killed, the markers are sound. -/
theorem markers_sound {env : Environment} {world : World} {starts : List (List Outcome)}
    (miner : env.minerenabled = "1") (settled : Settled env world)
    (stopped : world.daemon = false)
    (careful : forall visit, visit ∈ visits (nextStart env) (some world) starts ->
      Careful env visit.1 visit.2) :
    forall visit, visit ∈ visits (nextStart env) (some world) starts ->
      MarkersSound env visit.1 (machine.exec (entrypoint env) visit.1 visit.2).1 := by
  have started : forall state outcomes, Startable env state ->
      Careful env state outcomes ->
        Settled env (machine.exec (entrypoint env) state outcomes).1 ∧
          MarkersSound env state (machine.exec (entrypoint env) state outcomes).1 := by
    rintro state outcomes ⟨uninstalled | ⟨installed, sound⟩, stopped⟩ careful
    · exact markersSound_of_uninstalled miner uninstalled stopped careful
    · exact markersSound_of_installed installed sound careful
  intro visit member
  have here : Startable env visit.1 := by
    apply visits_invariant_of_condition _ careful _ visit member
    · intro state same
      cases same
      exact ⟨settled, stopped⟩
    · intro state outcomes state' careful here next
      cases next
      exact ⟨(started state outcomes here careful).1.rebooted, rfl⟩
  exact (started visit.1 visit.2 here (careful visit member)).2

/-! ## A node that does not come up -/

/-- A key and its challenge. -/
def givenPair : Environment where
  privkey := "wpkh(xprv)"
  signetchallenge := "51"

def emptyVolume : World where
  files := fun _ => none
  wallets := fun _ => none
  daemon := false

theorem startable_emptyVolume (env : Environment) : Startable env emptyVolume :=
  ⟨Or.inl ⟨rfl, fun _ impossible => nomatch impossible⟩, rfl⟩

def fails : Outcome := { ok := false, effect := false }

/-- A first start in which only `bitcoind` fails. -/
def nodelessStart : List Outcome :=
  List.replicate 19 works ++ fails :: List.replicate 8 works

theorem unsound_marker :
    Startable givenPair emptyVolume ∧
      Exists fun visit =>
        visit ∈ visits (nextStart givenPair) (some emptyVolume) [nodelessStart] ∧
          ¬ MarkersSound givenPair visit.1
            (machine.exec (entrypoint givenPair) visit.1 visit.2).1 := by
  refine ⟨startable_emptyVolume _, _, List.mem_cons_self, ?_⟩
  intro sound
  have marked : ((machine.exec (entrypoint givenPair) emptyVolume nodelessStart).1.files
      .installDone).isSome = true := by
    rfl
  have unset : (machine.exec (entrypoint givenPair) emptyVolume nodelessStart).1.wallets
      "custom_signet" = none := by
    rfl
  rcases (sound.installed marked).1.wallet with ⟨wallet, impossible, -⟩
  rw [unset] at impossible
  cases impossible

/-- A first start in which nothing fails. -/
def wholeStart : List Outcome :=
  List.replicate 28 { works with output := ["51"] }

/-- What it leaves for the next one. -/
def installedVolume : World :=
  reboot (machine.exec (entrypoint givenPair) emptyVolume wholeStart).1

/-- A first start in which nothing fails, and one that is killed at once. -/
theorem markers_sound_sample :
    MarkersSound givenPair emptyVolume
        (machine.exec (entrypoint givenPair) emptyVolume wholeStart).1 ∧
      MarkersSound givenPair installedVolume
        (machine.exec (entrypoint givenPair) installedVolume []).1 := by
  have careful : forall world (outcomes : List Outcome),
      (forall outcome, outcome ∈ outcomes -> outcome = { works with output := ["51"] }) ->
        Careful givenPair world outcomes := by
    intro world outcomes all
    have succeeds : forall event,
        event ∈ machine.events (entrypoint givenPair) world outcomes -> Succeeds event := by
      intro event member
      have same := all _ (Machine.input_of_mem_events member)
      rw [Succeeds, Works, same]
      exact ⟨⟨rfl, rfl⟩, fun _ => List.cons_ne_nil _ _⟩
    exact ⟨fun _ event member _ => succeeds event member,
      fun _ _ event member _ => (succeeds event member).1⟩
  have all : forall visit,
      visit ∈ visits (nextStart givenPair) (some emptyVolume) [wholeStart, []] ->
        Careful givenPair visit.1 visit.2 := by
    intro visit member
    rcases List.mem_cons.mp member with first | later
    · subst first
      apply careful
      intro outcome inside
      exact List.eq_of_mem_replicate inside
    · rw [List.mem_singleton.mp later]
      apply careful
      intro outcome impossible
      cases impossible
  have sound := markers_sound rfl (startable_emptyVolume givenPair).1 rfl all
  constructor
  · exact sound (emptyVolume, wholeStart) List.mem_cons_self
  · exact sound (installedVolume, []) (List.mem_cons_of_mem _ List.mem_cons_self)

end Setup
end MutinyNet
