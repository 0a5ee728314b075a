import MutinyNet.Setup.Install

namespace MutinyNet
namespace Setup

open Shell Transition

/-!
# Resuming an interrupted migration

`migrate.sh` migrates the wallet first and marks the volume last, and a wallet
that was migrated is not migrated again.  So a container that is killed in
between leaves a volume on which the next start asks for the migration of a
wallet that has descriptors already, fails, and exits before its command.
-/

/-- An installation from before descriptor wallets. -/
structure LegacyInstallation (world : World) : Prop where
  installed : (world.files .installDone).isSome = true
  unmarked : world.files .usesModernWallet = none
  wallet : Exists fun wallet => world.wallets "custom_signet" = some wallet ∧
    wallet.descriptors = false
  stopped : world.daemon = false

/-- A start in which nothing fails ends with the marker and in the command of
the container. -/
def Resumes (env : Environment) (world : World) : Prop :=
  forall outcomes : Nat -> Outcome,
    (forall count, (outcomes count).ok = true ∧ (outcomes count).effect = true) ->
      (machine.complete (entrypoint env) world outcomes).2 = .exec ∧
        ((machine.complete (entrypoint env) world outcomes).1.files .usesModernWallet).isSome = true

/-- What no command takes away. -/
structure Present (world : World) : Prop where
  installed : (world.files .installDone).isSome = true
  wallet : Exists fun wallet => world.wallets "custom_signet" = some wallet

/-- What is left of a legacy installation by starts that are cut anywhere. -/
structure Installed (world : World) : Prop extends Present world where
  stopped : world.daemon = false

theorem LegacyInstallation.toInstalled {world : World} (legacy : LegacyInstallation world) :
    Installed world where
  installed := legacy.installed
  wallet := legacy.wallet.imp fun _ found => found.1
  stopped := legacy.stopped

/-- A start that is cut anywhere leaves an installation. -/
theorem Installed.nextStart {env : Environment} {world : World} (installed : Installed world)
    (outcomes : List Outcome) :
    Installed (reboot (machine.exec (entrypoint env) world outcomes).1) := by
  have guaranteed : machine.Guarantees (fun _ => True) Present (fun _ => Present) (entrypoint env)
      world := by
    apply Machine.guarantees_of_invariant Present (Script.calls_trivial _) _ (fun _ holds => holds)
      (fun _ _ holds => holds) installed.toPresent
    rintro event - - ⟨present, wallet, found⟩
    have step := perform_wallets event.command event.world event.input "custom_signet"
    rw [found] at step
    rcases step with ⟨wallet', kept, -⟩
    exact ⟨perform_installed _ _ present, wallet', kept⟩
  have sound := guaranteed.sound outcomes fun _ _ => trivial
  have left : Present (machine.exec (entrypoint env) world outcomes).1 := by
    cases ended : (machine.exec (entrypoint env) world outcomes).2 with
    | none => exact sound.1 ended
    | some result => exact sound.2 result ended
  rcases left.wallet with ⟨wallet, found⟩
  refine ⟨⟨left.installed, { wallet with loaded := false }, ?_⟩, rfl⟩
  change ((machine.exec (entrypoint env) world outcomes).1.wallets "custom_signet").map _ = _
  rw [found]
  rfl

/-! ## A start in which nothing fails -/

/-- What such a start is there for. -/
def Resumed (ended : Ended) (world : World) : Prop :=
  ended = .exec ∧ (world.files .usesModernWallet).isSome = true

section Resume

variable {env : Environment} {world : World}

/-- With the marker, the start writes the configuration and goes on. -/
theorem guarantees_finish (marker : (world.files .usesModernWallet).isSome = true) :
    machine.Guarantees Works (fun _ => True) Resumed (orExit (rewriteConf env) (.done .exec))
      world := by
  apply Machine.guarantees_andThen.mpr
  apply guarantees_rewriteConf (fun _ works _ => works) (fun _ => trivial) (fun _ => True) trivial
    (fun _ => trivial) (fun _ _ _ => trivial)
  intro challenge rpcauth _
  rw [if_pos rfl]
  exact ⟨rfl, marker⟩

/-- On an installed volume the start looks at the marker and the wallet. -/
theorem guarantees_entrypoint {post : Ended -> World -> Prop} (installed : Installed world)
    (goesOn : if (world.files .usesModernWallet).isSome then
        machine.Guarantees Works (fun _ => True) post (orExit (rewriteConf env) (.done .exec)) world
      else machine.Guarantees Works (fun _ => True) post (orExit migrate <|
        .must (.exited 1) .sleep <| orExit (rewriteConf env) (.done .exec)) world) :
    machine.Guarantees Works (fun _ => True) post (entrypoint env) world := by
  apply Machine.guarantees_must_of_ok trivial
  intro input works
  refine ⟨works.1, ?_⟩
  apply guarantees_isFile trivial
  change if (world.files .installDone).isSome then _ else _
  rw [if_pos installed.installed]
  exact guarantees_isFile trivial goesOn

/-- The node comes up on a volume whose container was stopped. -/
theorem guarantees_bitcoind {post : Nat -> World -> Prop} {next : Script Command Nat}
    (stopped : world.daemon = false)
    (goesOn : machine.Guarantees Works (fun _ => True) post next world.startNode) :
    machine.Guarantees Works (fun _ => True) post (.attempt .bitcoind next) world := by
  apply Machine.guarantees_attempt trivial
  intro input works
  have performed : (machine.perform .bitcoind world input).1 = world.startNode := by
    change (world.bitcoind input).1 = world.startNode
    unfold World.bitcoind World.changing Outcome.effective
    rw [stopped, works.1]
    rfl
  rw [performed]
  exact goesOn

/-- A legacy wallet is migrated, and the marker follows. -/
theorem guarantees_migrate {wallet : Wallet} (installed : Installed world)
    (found : world.wallets "custom_signet" = some wallet) (legacy : wallet.descriptors = false) :
    machine.Guarantees Works (fun _ => True)
      (fun status world => status = 0 ∧ (world.files .usesModernWallet).isSome = true) migrate
      world := by
  apply guarantees_bitcoind installed.stopped
  apply Machine.guarantees_attempt trivial
  intro input works
  have reached : world.startNode.reachable "custom_signet" =
      some { wallet with loaded := wallet.loadOnStartup } := by
    change (world.wallets "custom_signet").map _ = _
    rw [found]
    rfl
  apply Machine.guarantees_test trivial
  · intro input works _
    apply Machine.guarantees_andThen.mpr
    apply Machine.guarantees_of_invariant (fun _ => True)
      (calls_importWifToDescriptor _) (fun _ _ _ _ => trivial) (fun _ _ => trivial) _ trivial
    intro status world _
    apply Machine.guarantees_attempt trivial
    intro input works
    have touched : ((machine.perform (.touch .usesModernWallet) world input).1.files
        .usesModernWallet).isSome = true := by
      change ((World.changing world input _).1.files .usesModernWallet).isSome = true
      rw [World.changing_of_ok _ works.1]
      exact World.openFile_isSome
    apply Machine.guarantees_attempt trivial
    intro input _
    have stopped := perform_installed .stop input touched
    refine ⟨trivial, ?_⟩
    intro input works
    refine ⟨?_, stopped⟩
    change (if input.ok then 0 else 1) = 0
    rw [works.1]
    rfl
  · intro input works failed
    have legacy' : ({ wallet with loaded := wallet.loadOnStartup } : Wallet).descriptors = false :=
      legacy
    change (World.migratewallet world.startNode "custom_signet" input).2.ok = false at failed
    unfold World.migratewallet at failed
    rw [reached] at failed
    dsimp only at failed
    rw [legacy, if_neg Bool.false_ne_true] at failed
    change input.ok = false at failed
    rw [works.1] at failed
    cases failed

/-- A wallet with descriptors is not migrated, and the start exits. -/
theorem guarantees_stuck (env : Environment) {wallet : Wallet} (installed : Installed world)
    (unmarked : (world.files .usesModernWallet).isSome = false)
    (found : world.wallets "custom_signet" = some wallet) (migrated : wallet.descriptors = true) :
    machine.Guarantees Works (fun _ => True) (fun ended _ => ended = .exited 1) (entrypoint env)
      world := by
  apply guarantees_entrypoint installed
  rw [if_neg (by rw [unmarked]; exact Bool.false_ne_true)]
  apply Machine.guarantees_andThen.mpr
  apply guarantees_bitcoind installed.stopped
  apply Machine.guarantees_attempt trivial
  intro input works
  have reached : world.startNode.reachable "custom_signet" =
      some { wallet with loaded := wallet.loadOnStartup } := by
    change (world.wallets "custom_signet").map _ = _
    rw [found]
    rfl
  have refused : forall outcome, (world.startNode.migratewallet "custom_signet" outcome).2.ok =
      false := by
    intro outcome
    unfold World.migratewallet
    rw [reached]
    dsimp only
    rw [migrated]
    rfl
  apply Machine.guarantees_test trivial
  · intro input _ ok
    change (world.startNode.migratewallet "custom_signet" input).2.ok = true at ok
    rw [refused] at ok
    cases ok
  · intro input _ _
    exact rfl

/-- A start in which nothing fails resumes exactly if the marker is there or the
wallet is still a legacy wallet. -/
theorem resumes_iff_of_installed (installed : Installed world) :
    Resumes env world <-> (world.files .usesModernWallet).isSome = true ∨
      Exists fun wallet => world.wallets "custom_signet" = some wallet ∧
        wallet.descriptors = false := by
  rcases installed.wallet with ⟨wallet, found⟩
  constructor
  · intro resumes
    by_contra stuck
    rw [not_or] at stuck
    have migrated : wallet.descriptors = true := by
      cases shape : wallet.descriptors with
      | true => rfl
      | false => exact absurd ⟨wallet, found, shape⟩ stuck.2
    have guaranteed := guarantees_stuck env installed
      (Bool.eq_false_of_not_eq_true stuck.1) found migrated
    have ended := guaranteed.complete (fun _ => works) fun _ _ _ => ⟨rfl, rfl⟩
    have exec := (resumes (fun _ => works) fun _ => ⟨rfl, rfl⟩).1
    rw [ended] at exec
    cases exec
  · intro recognised outcomes all
    have guaranteed : machine.Guarantees Works (fun _ => True) Resumed (entrypoint env) world := by
      apply guarantees_entrypoint installed
      by_cases marker : (world.files .usesModernWallet).isSome = true
      · rw [if_pos marker]
        exact guarantees_finish marker
      · rw [if_neg marker]
        rcases recognised with impossible | ⟨wallet', found', legacy⟩
        · exact absurd impossible marker
        · apply Machine.guarantees_andThen.mpr
          refine (guarantees_migrate installed found' legacy).mono (fun _ _ => trivial) ?_
          rintro status world' ⟨zero, marked⟩
          rw [if_pos zero]
          apply Machine.guarantees_must_of_ok trivial
          intro input works
          exact ⟨works.1, guarantees_finish marked⟩
    exact guaranteed.complete outcomes fun count _ _ => all count

end Resume

/-! ## Every reachable state -/

/-- From every state that starts cut anywhere leave of a legacy installation,
one start in which nothing fails ends with the marker and in its command exactly
if the marker is there already or the wallet was not migrated yet. -/
theorem resumes_iff {env : Environment} {world : World} {starts : List (List Outcome)}
    (legacy : LegacyInstallation world) :
    forall visit, visit ∈ visits (nextStart env) (some world) starts ->
      (Resumes env visit.1 <-> (visit.1.files .usesModernWallet).isSome = true ∨
        Exists fun wallet => visit.1.wallets "custom_signet" = some wallet ∧
          wallet.descriptors = false) := by
  intro visit member
  apply resumes_iff_of_installed
  have first : forall state, some world = some state -> Installed state := by
    intro state same
    cases same
    exact legacy.toInstalled
  have later : forall state outcomes state', outcomes ∈ starts -> Installed state ->
      nextStart env state outcomes = some state' -> Installed state' := by
    intro state outcomes state' _ before next
    cases next
    exact before.nextStart outcomes
  have reached := visits_invariant first later visit member
  exact reached.1

/-! ## A container that is killed behind the migration -/

/-- A volume with a wallet from before descriptors. -/
def legacyVolume : World where
  files := fun file => match file with
    | .installDone | .bitcoinConf => some []
    | .privkey => some ["cT1PZYvyPTSZ"]
    | .signetchallenge => some ["5120ab"]
    | _ => none
  wallets := fun name => if name = "custom_signet" then
      some { descriptors := false, loadOnStartup := true, loaded := false }
    else none
  daemon := false

theorem legacyVolume_legacy : LegacyInstallation legacyVolume where
  installed := rfl
  unmarked := rfl
  wallet := ⟨_, rfl, rfl⟩
  stopped := rfl

/-- A start that is killed in front of the import, and the next one. -/
def killedStarts : List (List Outcome) :=
  [List.replicate 6 works, []]

theorem stuck_migration :
    LegacyInstallation legacyVolume ∧
      Exists fun visit => visit ∈ visits (nextStart {}) (some legacyVolume) killedStarts ∧
        ¬ Resumes {} visit.1 := by
  refine ⟨legacyVolume_legacy, _, List.mem_cons_of_mem _ List.mem_cons_self, ?_⟩
  intro resumes
  have installed : Installed
      (reboot (machine.exec (entrypoint {}) legacyVolume (List.replicate 6 works)).1) :=
    legacyVolume_legacy.toInstalled.nextStart _
  have recognised := (resumes_iff_of_installed installed).mp resumes
  rcases recognised with impossible | ⟨wallet, found, impossible⟩
  · cases impossible
  · cases found
    cases impossible

/-- The first start is killed before it asks for the migration. -/
def earlyKilledStarts : List (List Outcome) :=
  [List.replicate 5 works, List.replicate 40 works]

/-- The volume in front of the second one. -/
def interruptedVolume : World :=
  reboot (machine.exec (entrypoint {}) legacyVolume (List.replicate 5 works)).1

theorem resumes_iff_sample : Resumes {} interruptedVolume := by
  have member : (interruptedVolume, List.replicate 40 works) ∈
      visits (nextStart {}) (some legacyVolume) earlyKilledStarts :=
    List.mem_cons_of_mem _ List.mem_cons_self
  apply (resumes_iff legacyVolume_legacy (interruptedVolume, List.replicate 40 works) member).mpr
  exact Or.inr ⟨_, rfl, rfl⟩

end Setup
end MutinyNet
