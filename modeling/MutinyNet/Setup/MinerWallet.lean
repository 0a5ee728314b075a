import MutinyNet.Setup.World

namespace MutinyNet
namespace Setup

open Shell Transition

/-!
# The wallet of the block signer

`ensure-miner-wallet.sh` ends early when the wallet is loaded or on disk, and
otherwise creates it and imports the signing key.  Nothing tells a wallet that
has its key from one that was created and left without it, so whatever comes
between the two steps leaves a wallet that later runs take as it is.
-/

/-! ## The scripts -/

/-- `$(cat file)`: the lines without the line breaks at the end. -/
def captured (lines : List String) : String :=
  "\n".intercalate (lines.reverse.dropWhile (· = "")).reverse

/-- `${line//[$'\t\r\n ']}`. -/
def withoutBlanks (line : String) : String :=
  String.ofList (line.toList.filter fun char => ¬ (char = '\t' ∨ char = '\r' ∨ char = '\n' ∨ char = ' '))

/-- One half of `import_wif_to_descriptor.sh`: a descriptor is completed with
its checksum and imported. -/
def importChecked (wallet : String) (descriptor : Descriptor) (next : Script Command Nat) :
    Script Command Nat :=
  .must 1 (.getdescriptorinfo descriptor) <| .must 1 (.importdescriptors wallet descriptor) next

/-- `import_wif_to_descriptor.sh`. -/
def importWifToDescriptor (wallet : String) : Script Command Nat :=
  .call (.cat .privkey) fun reply =>
    if reply.ok then
      importChecked wallet (.multi (captured reply.output)) <|
        importChecked wallet (.combo (captured reply.output)) <| .done 0
    else .done 1

/-- `import-signing-key.sh`. -/
def importSigningKey (privkeyMode wallet : String) : Script Command Nat :=
  if privkeyMode = "legacy" then importWifToDescriptor wallet
  else .call (.readLines .privkey) fun reply =>
    if reply.ok then
      .mustAll 1 (reply.output.map fun line => .importdescriptors wallet (.line (withoutBlanks line)))
        (.done 0)
    else .done 1

/-- `ensure-miner-wallet.sh`. -/
def ensureMinerWallet (privkeyMode wallet : String) : Script Command Nat :=
  .test (.listwallets wallet) (.done 0) <|
  .test (.listwalletdir wallet) (.must 1 (.loadwallet wallet) (.done 0)) <|
  .must 1 (.createwallet wallet) <|
  importSigningKey privkeyMode wallet

/-! ## The key of a wallet -/

/-- The descriptors that stand for the signing key of `PRIVKEY.txt`. -/
def signingDescriptors (privkeyMode : String) (lines : List String) : List Descriptor :=
  if privkeyMode = "legacy" then [.multi (captured lines), .combo (captured lines)]
  else lines.map fun line => .line (withoutBlanks line)

/-- The wallet holds the signing key of `PRIVKEY.txt`. -/
def HoldsKey (privkeyMode : String) (world : World) (wallet : Wallet) : Prop :=
  Exists fun lines => world.files .privkey = some lines ∧
    signingDescriptors privkeyMode lines ≠ [] ∧
    forall descriptor, descriptor ∈ signingDescriptors privkeyMode lines ->
      descriptor ∈ wallet.keys ∨ descriptor ∈ wallet.imported

/-- What the script is there for: the wallet is loaded and holds the key. -/
def Provisioned (privkeyMode name : String) (world : World) : Prop :=
  Exists fun wallet => world.wallets name = some wallet ∧ wallet.loaded = true ∧
    HoldsKey privkeyMode world wallet

/-! ## Importing the key -/

/-- The commands that bring the key into a wallet. -/
def Imports (command : Command) : Prop :=
  (command = .cat .privkey ∨ command = .readLines .privkey) ∨
    (Exists fun descriptor => command = .getdescriptorinfo descriptor) ∨
    Exists fun name => Exists fun descriptor => command = .importdescriptors name descriptor

/-- An import writes no file. -/
theorem Imports.target {command : Command} (imports : Imports command) : command.target = none := by
  rcases imports with (same | same) | ⟨descriptor, same⟩ | ⟨name, descriptor, same⟩ <;>
    rw [same] <;> rfl

theorem calls_importWifToDescriptor (wallet : String) :
    (importWifToDescriptor wallet).Calls Imports := by
  have step : forall (descriptor : Descriptor) (next : Script Command Nat), next.Calls Imports ->
      (importChecked wallet descriptor next).Calls Imports := by
    intro descriptor next rest
    refine ⟨Or.inr (Or.inl ⟨descriptor, rfl⟩), ?_⟩
    intro reply
    dsimp only
    split
    · refine ⟨Or.inr (Or.inr ⟨wallet, descriptor, rfl⟩), ?_⟩
      intro reply
      dsimp only
      split
      · exact rest
      · trivial
    · trivial
  refine ⟨Or.inl (Or.inl rfl), ?_⟩
  intro reply
  dsimp only
  split
  · exact step _ _ (step _ _ trivial)
  · trivial

/-- A wallet of the running node that descriptors can be imported into, where the
files are still as they were before. -/
structure Importable (before : World) (name : String) (world : World) (wallet : Wallet) :
    Prop where
  files : world.files = before.files
  unterminated : world.unterminated = before.unterminated
  daemon : world.daemon = true
  present : world.wallets name = some wallet
  loaded : wallet.loaded = true
  descriptors : wallet.descriptors = true

section Import

variable {allowed : Event Command World Outcome -> Prop} {crash : World -> Prop}
  {post : Nat -> World -> Prop} {name : String} {before world : World} {wallet : Wallet}
  {next : Script Command Nat}

/-- A wallet with one more descriptor. -/
def Wallet.withDescriptor (wallet : Wallet) (descriptor : Descriptor) : Wallet :=
  { wallet with imported := descriptor :: wallet.imported }

theorem Importable.withDescriptor (importable : Importable before name world wallet)
    (descriptor : Descriptor) :
    Importable before name (world.setWallet name (wallet.withDescriptor descriptor))
      (wallet.withDescriptor descriptor) where
  files := importable.files
  unterminated := importable.unterminated
  daemon := importable.daemon
  present := Function.update_self _ _ _
  loaded := importable.loaded
  descriptors := importable.descriptors

/-- An import that works adds the descriptor. -/
theorem perform_importdescriptors (importable : Importable before name world wallet)
    (descriptor : Descriptor) {outcome : Outcome} (ok : outcome.ok = true)
    (effect : outcome.effect = true) :
    perform (.importdescriptors name descriptor) world outcome =
      (world.setWallet name (wallet.withDescriptor descriptor), { ok := true }) := by
  have found : world.reachable name = some wallet := by
    rw [World.reachable, if_pos importable.daemon, importable.present]
  change world.importdescriptors name descriptor outcome = _
  unfold World.importdescriptors
  rw [found]
  dsimp only
  rw [if_pos ⟨importable.loaded, importable.descriptors⟩, if_pos effect, ok]
  rfl

variable (works : forall event, allowed event -> Imports event.command -> Works event)
  (cut : forall world wallet, Importable before name world wallet -> crash world)

include works cut

/-- A checked import adds its descriptor and goes on. -/
theorem guarantees_importChecked {descriptor : Descriptor}
    (importable : Importable before name world wallet)
    (goesOn : machine.Guarantees allowed crash post next
      (world.setWallet name (wallet.withDescriptor descriptor))) :
    machine.Guarantees allowed crash post (importChecked name descriptor next) world := by
  apply Machine.guarantees_must_of_ok (cut world wallet importable)
  intro input first
  have informed := works _ first (Or.inr (Or.inl ⟨descriptor, rfl⟩))
  refine ⟨?_, ?_⟩
  · change (input.ok && world.daemon) = true
    rw [informed.1, importable.daemon]
    rfl
  · apply Machine.guarantees_must_of_ok (cut world wallet importable)
    intro input first
    have done := works _ first (Or.inr (Or.inr ⟨name, descriptor, rfl⟩))
    have performed := perform_importdescriptors importable descriptor done.1 done.2
    change (perform (.importdescriptors name descriptor) world input).2.ok = true ∧
      machine.Guarantees allowed crash post next
        (perform (.importdescriptors name descriptor) world input).1
    rw [performed]
    exact ⟨rfl, goesOn⟩

/-- The loop over the lines of the file adds a descriptor for each. -/
theorem guarantees_mustAll_import {descriptors : List Descriptor}
    (importable : Importable before name world wallet)
    (goesOn : forall world wallet', Importable before name world wallet' ->
      wallet'.keys = wallet.keys ->
      (forall descriptor, descriptor ∈ wallet.imported ∨ descriptor ∈ descriptors ->
        descriptor ∈ wallet'.imported) -> machine.Guarantees allowed crash post next world) :
    machine.Guarantees allowed crash post
      (.mustAll 1 (descriptors.map fun descriptor => .importdescriptors name descriptor) next)
      world := by
  induction descriptors generalizing world wallet with
  | nil =>
      apply goesOn world wallet importable rfl
      rintro descriptor (held | impossible)
      · exact held
      · cases impossible
  | cons descriptor descriptors inductionHypothesis =>
      apply Machine.guarantees_must_of_ok (cut world wallet importable)
      intro input first
      have done := works _ first (Or.inr (Or.inr ⟨name, descriptor, rfl⟩))
      have performed := perform_importdescriptors importable descriptor done.1 done.2
      change (perform (.importdescriptors name descriptor) world input).2.ok = true ∧
        machine.Guarantees allowed crash post _
          (perform (.importdescriptors name descriptor) world input).1
      rw [performed]
      refine ⟨rfl, ?_⟩
      apply inductionHypothesis (importable.withDescriptor descriptor)
      intro world' wallet' importable' keys held
      apply goesOn world' wallet' importable' keys
      rintro other (before | member)
      · exact held other (Or.inl (List.mem_cons_of_mem descriptor before))
      · rcases List.mem_cons.mp member with here | there
        · subst here
          exact held other (Or.inl List.mem_cons_self)
        · exact held other (Or.inr there)

/-- When its commands work, the import ends well and leaves the key in the wallet,
unless its loop drops the last line. -/
theorem guarantees_importSigningKey {privkeyMode : String} {lines : List String}
    (importable : Importable before name world wallet) (key : before.files .privkey = some lines)
    (some : signingDescriptors privkeyMode lines ≠ [])
    (terminated : privkeyMode = "legacy" ∨ before.unterminated .privkey = false)
    (ended : forall world wallet', Importable before name world wallet' ->
      HoldsKey privkeyMode world wallet' -> post 0 world) :
    machine.Guarantees allowed crash post (importSigningKey privkeyMode name) world := by
  have read : forall input, allowed { command := .cat .privkey, world, input } ->
      machine.perform (.cat .privkey) world input = (world, { ok := true, output := lines }) := by
    intro input first
    have worked := works _ first (Or.inl (Or.inl rfl))
    change world.cat .privkey input = _
    unfold World.cat
    rw [importable.files, key]
    exact if_pos worked.1
  have holds : forall world' wallet', Importable before name world' wallet' ->
      (forall descriptor, descriptor ∈ signingDescriptors privkeyMode lines ->
        descriptor ∈ wallet'.imported) -> HoldsKey privkeyMode world' wallet' := by
    intro world' wallet' importable' held
    refine ⟨lines, ?_, some, fun descriptor member => Or.inr (held descriptor member)⟩
    rw [importable'.files, key]
  unfold importSigningKey
  by_cases legacy : privkeyMode = "legacy"
  · rw [if_pos legacy]
    refine ⟨cut world wallet importable, ?_⟩
    intro input first
    rw [read input first]
    apply guarantees_importChecked works cut importable
    apply guarantees_importChecked works cut (importable.withDescriptor _)
    have importable' := (importable.withDescriptor (.multi (captured lines))).withDescriptor
      (.combo (captured lines))
    apply ended _ _ importable'
    apply holds _ _ importable'
    intro descriptor member
    rw [signingDescriptors, if_pos legacy] at member
    rcases List.mem_cons.mp member with multi | combo
    · rw [multi]
      exact List.mem_cons_of_mem _ List.mem_cons_self
    · rw [List.mem_singleton.mp combo]
      exact List.mem_cons_self
  · rw [if_neg legacy]
    have whole : world.unterminated .privkey = false := by
      rw [importable.unterminated]
      exact terminated.resolve_left legacy
    refine ⟨cut world wallet importable, ?_⟩
    intro input first
    have worked := works _ first (Or.inl (Or.inr rfl))
    have looped : machine.perform (.readLines .privkey) world input =
        (world, { ok := true, output := lines }) := by
      change world.readLines .privkey input = _
      unfold World.readLines
      rw [importable.files, key, whole]
      exact if_pos worked.1
    rw [looped]
    dsimp only
    have mapped : (lines.map fun line => Command.importdescriptors name
        (.line (withoutBlanks line))) = (signingDescriptors privkeyMode lines).map fun descriptor =>
          .importdescriptors name descriptor := by
      rw [signingDescriptors, if_neg legacy, List.map_map]
      rfl
    rw [if_pos rfl, mapped]
    apply guarantees_mustAll_import works cut importable
    intro world' wallet' importable' _ held
    exact ended world' wallet' importable' (holds world' wallet' importable' fun descriptor member =>
      held descriptor (Or.inr member))

end Import

/-! ## One run of the script -/

/-- The wallet is created: it was not there, the node was, and the command took
effect. -/
def Creates (name : String) (event : Event Command World Outcome) : Prop :=
  event.command = .createwallet name ∧ event.world.daemon = true ∧
    event.world.wallets name = none ∧ event.input.effective = true

/-- A run that creates the wallet is not cut, and neither the creation nor a
command of the import behind it fails. -/
def Uninterrupted (privkeyMode name : String) (world : World) (outcomes : List Outcome) : Prop :=
  (Exists fun event => event ∈ machine.events (ensureMinerWallet privkeyMode name) world outcomes ∧
    Creates name event) ->
  (machine.exec (ensureMinerWallet privkeyMode name) world outcomes).2 ≠ none ∧
    forall event, event ∈ machine.events (ensureMinerWallet privkeyMode name) world outcomes ->
      event.command = .createwallet name ∨ Imports event.command -> Works event

/-- The file has a key, all of whose lines are read, and the wallet is not there
without it. -/
structure Keyed (privkeyMode name : String) (world : World) : Prop where
  key : Exists fun lines => world.files .privkey = some lines ∧
    signingDescriptors privkeyMode lines ≠ []
  terminated : privkeyMode = "legacy" ∨ world.unterminated .privkey = false
  wallet : forall wallet, world.wallets name = some wallet -> HoldsKey privkeyMode world wallet

section Run

variable {privkeyMode name : String} {world : World} {outcomes : List Outcome}

/-- Loading a wallet changes nothing but whether it is loaded. -/
theorem Keyed.setWallet {wallet : Wallet} (wallet' : Wallet) (keyed : Keyed privkeyMode name world)
    (present : world.wallets name = some wallet) (keys : wallet'.keys = wallet.keys)
    (imported : wallet'.imported = wallet.imported) :
    Keyed privkeyMode name (world.setWallet name wallet') := by
  refine ⟨keyed.key, keyed.terminated, ?_⟩
  intro other same
  change Function.update world.wallets name (some wallet') name = some other at same
  rw [Function.update_self] at same
  cases same
  rcases keyed.wallet wallet present with ⟨lines, key, some, held⟩
  refine ⟨lines, key, some, ?_⟩
  rw [keys, imported]
  exact held

/-- Ends of the script that take the wallet as it is. -/
def Kept (privkeyMode name : String) (status : Nat) (world : World) : Prop :=
  Keyed privkeyMode name world ∧ (status = 0 -> Provisioned privkeyMode name world)

/-- Where the wallet is on disk, loading it is enough. -/
theorem guarantees_loadwallet {allowed : Event Command World Outcome -> Prop}
    {crash : World -> Prop} {wallet : Wallet} (keyed : Keyed privkeyMode name world)
    (present : world.reachable name = some wallet)
    (cut : forall world, Keyed privkeyMode name world -> crash world) :
    machine.Guarantees allowed crash (Kept privkeyMode name)
      (.must 1 (.loadwallet name) (.done 0)) world := by
  have found : world.wallets name = some wallet := by
    unfold World.reachable at present
    split at present
    · exact present
    · cases present
  have changed := keyed.setWallet { wallet with loadOnStartup := true, loaded := true }
    found rfl rfl
  apply Machine.guarantees_must (cut world keyed)
  · intro input _ ok
    change (world.loadwallet name input).2.ok = true at ok
    change Kept privkeyMode name 0 (world.loadwallet name input).1
    unfold World.loadwallet at ok ⊢
    rw [present] at ok ⊢
    dsimp only at ok ⊢
    split at ok
    · cases ok
    · next unloaded =>
        change input.ok = true at ok
        rw [if_neg unloaded, World.changing, Outcome.effective, ok, Bool.true_or, if_pos rfl]
        refine ⟨changed, fun _ => ⟨_, Function.update_self _ _ _, rfl, ?_⟩⟩
        exact changed.wallet _ (Function.update_self _ _ _)
  · intro input _ failed
    change Kept privkeyMode name 1 (world.loadwallet name input).1
    unfold World.loadwallet
    rw [present]
    dsimp only
    split
    · exact ⟨keyed, fun impossible => absurd impossible Nat.one_ne_zero⟩
    · unfold World.changing
      split
      · exact ⟨changed, fun impossible => absurd impossible Nat.one_ne_zero⟩
      · exact ⟨keyed, fun impossible => absurd impossible Nat.one_ne_zero⟩

/-- Whatever the script does before it creates the wallet keeps the key. -/
theorem guarantees_ensureMinerWallet {allowed : Event Command World Outcome -> Prop}
    {crash : World -> Prop} (keyed : Keyed privkeyMode name world)
    (cut : forall world, Keyed privkeyMode name world -> crash world)
    (creation : machine.Guarantees allowed crash (Kept privkeyMode name)
      (.must 1 (.createwallet name) (importSigningKey privkeyMode name)) world) :
    machine.Guarantees allowed crash (Kept privkeyMode name) (ensureMinerWallet privkeyMode name)
      world := by
  apply Machine.guarantees_test (cut world keyed)
  · intro input _ loaded
    change (world.listwallets name input).2.ok = true at loaded
    change Kept privkeyMode name 0 (world.listwallets name input).1
    unfold World.listwallets at loaded ⊢
    cases present : world.reachable name with
    | none =>
        rw [present] at loaded
        cases loaded
    | some wallet =>
        rw [present] at loaded
        have found : world.wallets name = some wallet := by
          unfold World.reachable at present
          split at present
          · exact present
          · cases present
        have both : (input.ok && wallet.loaded) = true := loaded
        rw [Bool.and_eq_true] at both
        exact ⟨keyed, fun _ => ⟨wallet, found, both.2, keyed.wallet wallet found⟩⟩
  · intro input _ _
    have same : (machine.perform (.listwallets name) world input).1 = world := by
      change (world.listwallets name input).1 = world
      unfold World.listwallets
      cases world.reachable name <;> rfl
    rw [same]
    apply Machine.guarantees_test (cut world keyed)
    · intro input _ listed
      change (input.ok && (world.reachable name).isSome) = true at listed
      rw [Bool.and_eq_true] at listed
      rcases Option.isSome_iff_exists.mp listed.2 with ⟨wallet, present⟩
      exact guarantees_loadwallet keyed present cut
    · intro input _ _
      exact creation

/-- The creation is possible only if the wallet is not there. -/
theorem guarantees_creation {allowed : Event Command World Outcome -> Prop}
    {crash : World -> Prop} (keyed : Keyed privkeyMode name world) (cut : crash world)
    (created : forall input, allowed { command := .createwallet name, world, input } ->
      world.daemon = true -> world.wallets name = none -> input.effective = true ->
        input.ok = true ∧ machine.Guarantees allowed crash (Kept privkeyMode name)
          (importSigningKey privkeyMode name) (world.setWallet name World.newWallet)) :
    machine.Guarantees allowed crash (Kept privkeyMode name)
      (.must 1 (.createwallet name) (importSigningKey privkeyMode name)) world := by
  refine ⟨cut, ?_⟩
  intro input first
  change machine.Guarantees allowed crash (Kept privkeyMode name)
    (if (world.createwallet name input).2.ok then importSigningKey privkeyMode name else .done 1)
    (world.createwallet name input).1
  unfold World.createwallet
  split
  · next absent =>
      unfold World.changing
      by_cases effective : input.effective = true
      · have creation := created input first absent.1 absent.2 effective
        rw [if_pos effective, creation.1]
        exact creation.2
      · have failed : input.ok = false := by
          unfold Outcome.effective at effective
          cases status : input.ok with
          | false => rfl
          | true =>
              rw [status] at effective
              exact absurd rfl effective
        rw [if_neg effective, failed]
        exact ⟨keyed, fun impossible => nomatch impossible⟩
  · exact ⟨keyed, fun impossible => nomatch impossible⟩

/-- A new wallet of the running node is ready for the key. -/
theorem importable_newWallet (daemon : world.daemon = true) :
    Importable world name (world.setWallet name World.newWallet) World.newWallet where
  files := rfl
  unterminated := rfl
  daemon := daemon
  present := Function.update_self _ _ _
  loaded := rfl
  descriptors := rfl

/-- A run that is not interrupted keeps the key, and if it exits with zero the
wallet is loaded and holds it. -/
theorem kept_of_run (keyed : Keyed privkeyMode name world)
    (uninterrupted : Uninterrupted privkeyMode name world outcomes) :
    Keyed privkeyMode name
        (machine.exec (ensureMinerWallet privkeyMode name) world outcomes).1 ∧
      ((machine.exec (ensureMinerWallet privkeyMode name) world outcomes).2 = some 0 ->
        Provisioned privkeyMode name
          (machine.exec (ensureMinerWallet privkeyMode name) world outcomes).1) := by
  by_cases creates : Exists fun event =>
      event ∈ machine.events (ensureMinerWallet privkeyMode name) world outcomes ∧
        Creates name event
  · -- The wallet is created in this run, which then goes on to its end.
    rcases uninterrupted creates with ⟨ended, works⟩
    have guaranteed : machine.Guarantees
        (fun event => event.command = .createwallet name ∨ Imports event.command -> Works event)
        (fun _ => True) (Kept privkeyMode name) (ensureMinerWallet privkeyMode name) world := by
      apply guarantees_ensureMinerWallet keyed (fun _ _ => trivial)
      apply guarantees_creation keyed trivial
      intro input first daemon absent _
      refine ⟨(first (Or.inl rfl)).1, ?_⟩
      rcases keyed.key with ⟨lines, key, some⟩
      apply guarantees_importSigningKey (fun event first imports => first (Or.inr imports))
        (fun _ _ _ => trivial) (importable_newWallet daemon) key some keyed.terminated
      intro world' wallet importable held
      refine ⟨⟨⟨lines, importable.files ▸ key, some⟩, ?_, ?_⟩, fun _ =>
        ⟨wallet, importable.present, importable.loaded, held⟩⟩
      · rw [importable.unterminated]
        exact keyed.terminated
      · intro other present
        rw [importable.present] at present
        cases present
        exact held
    have sound := guaranteed.sound outcomes works
    rcases Option.ne_none_iff_exists'.mp ended with ⟨status, same⟩
    have kept := sound.2 status same
    refine ⟨kept.1, ?_⟩
    intro zero
    rw [same] at zero
    exact kept.2 (Option.some.inj zero)
  · have guaranteed : machine.Guarantees (fun event => ¬ Creates name event)
        (Keyed privkeyMode name) (Kept privkeyMode name) (ensureMinerWallet privkeyMode name)
        world := by
      apply guarantees_ensureMinerWallet keyed (fun _ keyed => keyed)
      apply guarantees_creation keyed keyed
      intro input first daemon absent effective
      exact absurd ⟨rfl, daemon, absent, effective⟩ first
    have sound := guaranteed.sound outcomes fun event member creation => creates ⟨event, member, creation⟩
    cases ended : (machine.exec (ensureMinerWallet privkeyMode name) world outcomes).2 with
    | none => exact ⟨sound.1 ended, fun impossible => nomatch impossible⟩
    | some status =>
        have kept := sound.2 status ended
        refine ⟨kept.1, ?_⟩
        intro zero
        exact kept.2 (Option.some.inj zero)

end Run

/-! ## All runs -/

/-- A run of the script, and whether the container is started again behind it. -/
structure WalletRun where
  outcomes : List Outcome
  restarted : Bool

/-- The world in front of the next run: a container that is started again has a
node that loaded its wallets. -/
def nextRun (privkeyMode name : String) (world : World) (run : WalletRun) : Option World :=
  let left := (machine.exec (ensureMinerWallet privkeyMode name) world run.outcomes).1
  some (if run.restarted then (reboot left).startNode else left)

theorem Keyed.restarted {privkeyMode name : String} {world : World}
    (keyed : Keyed privkeyMode name world) :
    Keyed privkeyMode name (reboot world).startNode := by
  refine ⟨keyed.key, keyed.terminated, ?_⟩
  intro wallet present
  change ((world.wallets name).map _).map _ = some wallet at present
  rw [Option.map_map] at present
  rcases Option.map_eq_some_iff.mp present with ⟨before, found, same⟩
  subst same
  exact keyed.wallet before found

/-- In every sequence of runs in which none is interrupted behind the creation
of the wallet, every run that exits with zero leaves the wallet loaded and with
the key. -/
theorem provisioned_of_runs {privkeyMode name : String} {world : World} {runs : List WalletRun}
    (keyed : Keyed privkeyMode name world)
    (uninterrupted : forall visit,
      visit ∈ visits (nextRun privkeyMode name) (some world) runs ->
        Uninterrupted privkeyMode name visit.1 visit.2.outcomes) :
    forall visit, visit ∈ visits (nextRun privkeyMode name) (some world) runs ->
      (machine.exec (ensureMinerWallet privkeyMode name) visit.1 visit.2.outcomes).2 = some 0 ->
        Provisioned privkeyMode name
          (machine.exec (ensureMinerWallet privkeyMode name) visit.1 visit.2.outcomes).1 := by
  intro visit member zero
  have here : Keyed privkeyMode name visit.1 := by
    apply visits_invariant_of_condition _ uninterrupted _ visit member
    · intro state same
      cases same
      exact keyed
    · intro state run state' whole before next
      cases next
      have kept := (kept_of_run before whole).1
      split
      · exact kept.restarted
      · exact kept
  exact (kept_of_run here (uninterrupted visit member)).2 zero

/-! ## A container that is killed behind the creation -/

def works : Outcome := { ok := true, effect := true }

/-- A running node without the wallet, and a key. -/
def freshNode : World where
  files := fun file => if file = .privkey then some ["wpkh(xprv)"] else none
  wallets := fun _ => none
  daemon := true

/-- The first run creates the wallet and is killed; the second one finds the
wallet loaded and exits with zero. -/
def killedRuns : List WalletRun :=
  [{ outcomes := [works, works, works], restarted := true },
   { outcomes := [works], restarted := false }]

theorem keyed_freshNode : Keyed "descriptor" "miner" freshNode := by
  refine ⟨⟨["wpkh(xprv)"], rfl, by decide⟩, Or.inr rfl, ?_⟩
  intro wallet impossible
  cases impossible

theorem keyless_wallet :
    Keyed "descriptor" "miner" freshNode ∧
      Exists fun visit => visit ∈ visits (nextRun "descriptor" "miner") (some freshNode) killedRuns ∧
        (machine.exec (ensureMinerWallet "descriptor" "miner") visit.1 visit.2.outcomes).2 =
          some 0 ∧
        ¬ Provisioned "descriptor" "miner"
          (machine.exec (ensureMinerWallet "descriptor" "miner") visit.1 visit.2.outcomes).1 := by
  refine ⟨keyed_freshNode, ?_⟩
  refine ⟨_, List.mem_cons_of_mem _ List.mem_cons_self, rfl, ?_⟩
  rintro ⟨wallet, present, -, lines, key, -, held⟩
  cases key
  have created : wallet = World.newWallet := by
    have same := Option.some.inj present
    exact same.symm
  subst created
  rcases held (.line "wpkh(xprv)") (by decide) with impossible | impossible <;> cases impossible

/-- Two runs on a node without the wallet: the first one creates it, and nothing
fails. -/
def wholeRuns : List WalletRun :=
  [{ outcomes := List.replicate 5 works, restarted := true },
   { outcomes := [works], restarted := false }]

/-- The node in front of the second one. -/
def createdNode : World :=
  (reboot (machine.exec (ensureMinerWallet "descriptor" "miner") freshNode
    (List.replicate 5 works)).1).startNode

theorem provisioned_of_runs_sample :
    Provisioned "descriptor" "miner"
        (machine.exec (ensureMinerWallet "descriptor" "miner") freshNode
          (List.replicate 5 works)).1 ∧
      Provisioned "descriptor" "miner"
        (machine.exec (ensureMinerWallet "descriptor" "miner") createdNode [works]).1 := by
  have whole : forall world outcomes, (forall outcome, outcome ∈ outcomes -> outcome = works) ->
      (machine.exec (ensureMinerWallet "descriptor" "miner") world outcomes).2 ≠ none ->
        Uninterrupted "descriptor" "miner" world outcomes := by
    intro world outcomes all ended _
    refine ⟨ended, ?_⟩
    intro event member _
    have worked := all _ (Machine.input_of_mem_events member)
    rw [Works, worked]
    exact ⟨rfl, rfl⟩
  have uninterrupted : forall visit,
      visit ∈ visits (nextRun "descriptor" "miner") (some freshNode) wholeRuns ->
        Uninterrupted "descriptor" "miner" visit.1 visit.2.outcomes := by
    intro visit member
    rcases List.mem_cons.mp member with first | later
    · subst first
      apply whole
      · intro outcome inside
        exact List.eq_of_mem_replicate inside
      · intro impossible
        cases impossible
    · rw [List.mem_singleton.mp later]
      apply whole
      · intro outcome inside
        exact List.mem_singleton.mp inside
      · intro impossible
        cases impossible
  have provisioned := provisioned_of_runs keyed_freshNode uninterrupted
  constructor
  · exact provisioned (freshNode, { outcomes := List.replicate 5 works, restarted := true })
      List.mem_cons_self rfl
  · exact provisioned (createdNode, { outcomes := [works], restarted := false })
      (List.mem_cons_of_mem _ List.mem_cons_self) rfl

end Setup
end MutinyNet
