import MutinyNet.Setup.Markers

namespace MutinyNet
namespace Setup

open Shell Transition

/-!
# What an installed volume keeps

Behind `install_done` a start rewrites `bitcoin.conf` and may migrate a wallet,
and that is all it may do: the key of the signer and the challenge it belongs to
are the identity of the network, and there is no second copy of them.  They stay
as they are over all starts, with whatever environment the container is given
then, whatever fails in them and wherever they are killed; and no wallet loses a
key or a descriptor.
-/

/-- The files that a start on an installed volume may write. -/
def Rewritable (file : File) : Prop :=
  file = .bitcoinConf ∨ file = .usesModernWallet

/-- Commands that write no other file. -/
def RewritesOnly (command : Command) : Prop :=
  forall file, command.target = some file -> Rewritable file

theorem rewritesOnly_of_target {command : Command} (none : command.target = none) :
    RewritesOnly command := by
  intro file same
  rw [none] at same
  cases same

theorem ConfOnly.rewritesOnly {command : Command} (confOnly : ConfOnly command) :
    RewritesOnly command := by
  rcases confOnly with same | ⟨lines, same⟩ | same | same
  · subst same
    intro file target
    exact Or.inl (Option.some.inj target).symm
  · subst same
    intro file target
    exact Or.inl (Option.some.inj target).symm
  · exact rewritesOnly_of_target (by rw [same]; rfl)
  · exact rewritesOnly_of_target (by rw [same]; rfl)

section Calls

variable {env : Environment}

theorem rewrites_orExit {script : Script Command Nat} {next : Script Command Ended}
    (first : script.Calls RewritesOnly) (second : next.Calls RewritesOnly) :
    (orExit script next).Calls RewritesOnly := by
  apply Script.calls_andThen first
  intro status
  split
  · exact second
  · trivial

theorem rewrites_conf (env : Environment) :
    (orExit (rewriteConf env) (.done .exec)).Calls RewritesOnly :=
  rewrites_orExit ((calls_rewriteConf env).mono fun _ => ConfOnly.rewritesOnly) trivial

theorem rewrites_migrate : migrate.Calls RewritesOnly := by
  apply calls_migrate_target.mono
  rintro command (none | marker) file same
  · rw [none] at same
    cases same
  · rw [marker] at same
    exact Or.inr (Option.some.inj same).symm

theorem rewrites_onInstalled (env : Environment) : (onInstalled env).Calls RewritesOnly := by
  refine ⟨rewritesOnly_of_target rfl, ?_⟩
  intro reply
  dsimp only
  split
  · exact rewrites_conf env
  · apply rewrites_orExit rewrites_migrate
    refine ⟨rewritesOnly_of_target rfl, ?_⟩
    intro reply
    dsimp only
    split
    · exact rewrites_conf env
    · trivial

end Calls

/-! ## One start -/

theorem Wallet.Grows.trans {first second third : Wallet} (grows : first.Grows second)
    (again : second.Grows third) : first.Grows third where
  keys := again.keys.trans grows.keys
  imported := fun descriptor held => again.imported descriptor (grows.imported descriptor held)
  descriptors := fun held => again.descriptors (grows.descriptors held)
  loadOnStartup := fun held => again.loadOnStartup (grows.loadOnStartup held)

/-- What is left of a volume: its files but for those that are rewritten, the
marker of a migration, and what its wallets hold. -/
structure Preserves (volume world : World) : Prop where
  files : forall file, ¬ Rewritable file -> world.files file = volume.files file
  marker : (volume.files .usesModernWallet).isSome = true ->
    (world.files .usesModernWallet).isSome = true
  wallets : forall name wallet, volume.wallets name = some wallet ->
    Exists fun kept => world.wallets name = some kept ∧ wallet.Grows kept

theorem Preserves.refl (volume : World) : Preserves volume volume where
  files := fun _ _ => rfl
  marker := fun present => present
  wallets := fun _ wallet present => ⟨wallet, present, Wallet.Grows.refl wallet⟩

theorem Preserves.trans {volume world later : World} (preserves : Preserves volume world)
    (again : Preserves world later) : Preserves volume later where
  files := fun file fixed => (again.files file fixed).trans (preserves.files file fixed)
  marker := fun present => again.marker (preserves.marker present)
  wallets := by
    intro name wallet present
    rcases preserves.wallets name wallet present with ⟨kept, found, grows⟩
    rcases again.wallets name kept found with ⟨last, there, more⟩
    exact ⟨last, there, grows.trans more⟩

/-- A command that writes no other file preserves the rest. -/
theorem preserves_perform {command : Command} (rewrites : RewritesOnly command) (world : World)
    (outcome : Outcome) : Preserves world (perform command world outcome).1 where
  files := by
    intro file fixed
    apply perform_files
    intro target
    exact fixed (rewrites file target)
  marker := perform_installed command outcome
  wallets := by
    intro name wallet present
    have step := perform_wallets command world outcome name
    rw [present] at step
    exact step

/-- And so does the end of a container. -/
theorem preserves_reboot (world : World) : Preserves world (reboot world) where
  files := fun _ _ => rfl
  marker := fun present => present
  wallets := by
    intro name wallet present
    refine ⟨{ wallet with loaded := false }, ?_, ⟨rfl, fun _ held => held, fun same => same,
      fun same => same⟩⟩
    change (world.wallets name).map _ = _
    rw [present]
    rfl

/-- Whatever becomes of its commands and wherever it is cut, a start on an installed
volume preserves it. -/
theorem preserves_of_start (env : Environment) {world : World} (outcomes : List Outcome)
    (installed : (world.files .installDone).isSome = true) :
    Preserves world (machine.exec (entrypoint env) world outcomes).1 := by
  have guaranteed : machine.Guarantees (fun _ => True) (Preserves world)
      (fun _ => Preserves world) (entrypoint env) world := by
    apply guarantees_onInstalled (Preserves.refl world) installed (Preserves.refl world)
    apply Machine.guarantees_of_invariant _ (rewrites_onInstalled env) _ (fun _ held => held)
      (fun _ _ held => held) (Preserves.refl world)
    intro event rewrites _ held
    exact held.trans (preserves_perform rewrites event.world event.input)
  exact guaranteed.left outcomes fun _ _ => trivial

/-! ## Every sequence of starts -/

/-- A start of the container, with the environment it is given. -/
def nextStartIn (world : World) (start : Environment × List Outcome) : Option World :=
  nextStart start.1 world start.2

/-- An installed volume is preserved by every sequence of starts, in front of each
of them and wherever that is cut. -/
theorem preserved_by_starts {volume : World} {starts : List (Environment × List Outcome)}
    (installed : (volume.files .installDone).isSome = true) :
    forall visit, visit ∈ visits nextStartIn (some volume) starts ->
      Preserves volume visit.1 ∧
        Preserves volume (machine.exec (entrypoint visit.2.1) visit.1 visit.2.2).1 := by
  have marked : forall world, Preserves volume world ->
      (world.files .installDone).isSome = true := by
    intro world preserves
    have fixed : ¬ Rewritable .installDone := by
      rintro (impossible | impossible) <;> cases impossible
    rw [preserves.files .installDone fixed]
    exact installed
  intro visit member
  have here : Preserves volume visit.1 := by
    refine (@visits_invariant _ _ nextStartIn (Preserves volume) _ _ ?_ ?_ visit member).1
    · intro world same
      cases same
      exact Preserves.refl volume
    · intro world start later _ before next
      cases next
      exact (before.trans (preserves_of_start start.1 start.2 (marked world before))).trans
        (preserves_reboot _)
  exact ⟨here, here.trans (preserves_of_start visit.2.1 visit.2.2 (marked visit.1 here))⟩

/-- A key and a challenge that are not those on the volume. -/
def otherPair : Environment where
  privkey := "wpkh(other)"
  signetchallenge := "52"

/-- The volume of a first start, started with another key and killed. -/
theorem preserved_by_starts_sample :
    Preserves installedVolume
      (machine.exec (entrypoint otherPair) installedVolume (List.replicate 7 works)).1 := by
  have installed : (installedVolume.files .installDone).isSome = true := by
    decide +kernel
  exact (@preserved_by_starts installedVolume [(otherPair, List.replicate 7 works)] installed
    (installedVolume, otherPair, List.replicate 7 works) List.mem_cons_self).2

end Setup
end MutinyNet
