import MutinyNet.Shell.Script

namespace MutinyNet
namespace Setup

open Shell

/-!
# The node's volume and the commands that change it

The setup scripts work on a few files of the data directory and on the wallets
of `bitcoind`.  A command may fail with or without its effect, except that a
test of a file only looks; a command to the node fails without an effect when
the node is not running, and where the state of a wallet rules it out.
-/

/-- The files of the data directory that the scripts test, read or write. -/
inductive File where
  | installDone
  | usesModernWallet
  | privkey
  | signetchallenge
  | addr
  | pubkey
  | bitcoinConf
  deriving DecidableEq, Repr

/-- A descriptor with a private key: a line of `PRIVKEY.txt` as it stands, or one
built around a key of the older format. -/
inductive Descriptor where
  | line (desc : String)
  | multi (wif : String)
  | combo (wif : String)
  deriving DecidableEq, Repr

/-- A wallet; `keys` is what it could sign for when it was created, and a legacy
wallet is one without descriptors. -/
structure Wallet where
  descriptors : Bool
  keys : List Descriptor := []
  imported : List Descriptor := []
  loadOnStartup : Bool
  loaded : Bool
  deriving DecidableEq, Repr

/-- The lines of the files that exist, and whether the last of them lacks its line
break; the wallets by name, and whether the node is running. -/
structure World where
  files : File -> Option (List String)
  unterminated : File -> Bool := fun _ => false
  wallets : String -> Option Wallet
  daemon : Bool

/-- Commands to the temporary node on which a new key is generated. -/
inductive Regtest where
  | removeDatadir
  | makeDatadir
  | writeConf
  | daemon
  | createwallet
  | getnewaddress
  | scriptPubKey (address : String)
  | publicKey (address : String)
  | listdescriptors
  | stop
  deriving DecidableEq, Repr

inductive Command where
  | mkdir
  | isFile (file : File)
  | touch (file : File)
  | truncate (file : File)
  | openAppend (file : File)
  | write (file : File) (lines : List String)
  | cat (file : File)
  | readLines (file : File)
  | sleep
  | bitcoind
  | pkill
  | stop
  | awaitStopped
  | listwallets (wallet : String)
  | listwalletdir (wallet : String)
  | loadwallet (wallet : String)
  | createwallet (wallet : String)
  | getdescriptorinfo (descriptor : Descriptor)
  | importdescriptors (wallet : String) (descriptor : Descriptor)
  | migratewallet (wallet : String)
  | rpcauth
  | mineGenesis
  | regtest (command : Regtest)
  deriving DecidableEq, Repr

/-- What becomes of a command: its status, whether it took effect, and what it
printed where the world does not decide that. -/
structure Outcome where
  ok : Bool
  effect : Bool
  output : List String := []
  deriving DecidableEq, Repr

/-- A command whose status is zero took effect; only `importdescriptors` reports
in its output that a descriptor was not accepted. -/
def Outcome.effective (outcome : Outcome) : Bool :=
  outcome.ok || outcome.effect

namespace World

/-- A file with lines that all have their line breaks. -/
def setFile (world : World) (file : File) (lines : List String) : World :=
  { world with
    files := Function.update world.files file (some lines)
    unterminated := Function.update world.unterminated file false }

/-- A file that is opened without being truncated. -/
def openFile (world : World) (file : File) : World :=
  { world with files := Function.update world.files file (some ((world.files file).getD [])) }

/-- Lines behind other ones; the first goes on where the last of these lacks its
line break. -/
def joinLines (unterminated : Bool) (before : List String) : List String -> List String
  | [] => before
  | first :: others =>
      if unterminated = true ∧ before ≠ [] then
        before.dropLast ++ (before.getLastD "" ++ first) :: others
      else before ++ first :: others

/-- Lines behind those of a file. -/
def appendLines (world : World) (file : File) (lines : List String) : World :=
  { world with
    files := Function.update world.files file
      (some (joinLines (world.unterminated file) ((world.files file).getD []) lines))
    unterminated := Function.update world.unterminated file
      (world.unterminated file && lines.isEmpty) }

def setWallet (world : World) (name : String) (wallet : Wallet) : World :=
  { world with wallets := Function.update world.wallets name (some wallet) }

/-- The node comes up with the wallets it is told to load. -/
def startNode (world : World) : World :=
  { world with
    daemon := true
    wallets := fun name => (world.wallets name).map fun wallet =>
      { wallet with loaded := wallet.loadOnStartup } }

/-- The node goes down, in order or with its container. -/
def stopNode (world : World) : World :=
  { world with
    daemon := false
    wallets := fun name => (world.wallets name).map fun wallet => { wallet with loaded := false } }

/-- A status for a command that leaves the world as it is. -/
def replying (world : World) (ok : Bool) (output : List String := []) : World × Reply :=
  (world, { ok, output })

/-- A command with an effect. -/
def changing (world : World) (outcome : Outcome) (changed : World) : World × Reply :=
  (if outcome.effective then changed else world, { ok := outcome.ok })

/-- The wallet, if the node is running. -/
def reachable (world : World) (name : String) : Option Wallet :=
  if world.daemon then world.wallets name else none

end World

namespace World

/-! ## The commands of the node -/

def cat (world : World) (file : File) (outcome : Outcome) : World × Reply :=
  match world.files file with
  | none => world.replying false
  | some lines => if outcome.ok then world.replying true lines else world.replying false

/-- A loop of `read`, which drops a last line that lacks its line break. -/
def readLines (world : World) (file : File) (outcome : Outcome) : World × Reply :=
  match world.files file with
  | none => world.replying false
  | some lines =>
      if outcome.ok then
        world.replying true (if world.unterminated file then lines.dropLast else lines)
      else world.replying false

def bitcoind (world : World) (outcome : Outcome) : World × Reply :=
  if world.daemon then world.replying false else world.changing outcome world.startNode

def stop (world : World) (outcome : Outcome) : World × Reply :=
  if world.daemon then world.changing outcome world.stopNode else world.replying false

def listwallets (world : World) (name : String) (outcome : Outcome) : World × Reply :=
  match world.reachable name with
  | none => world.replying false
  | some wallet => world.replying (outcome.ok && wallet.loaded)

def listwalletdir (world : World) (name : String) (outcome : Outcome) : World × Reply :=
  world.replying (outcome.ok && (world.reachable name).isSome)

def loadwallet (world : World) (name : String) (outcome : Outcome) : World × Reply :=
  match world.reachable name with
  | none => world.replying false
  | some wallet =>
      if wallet.loaded then world.replying false
      else world.changing outcome
        (world.setWallet name { wallet with loadOnStartup := true, loaded := true })

def newWallet : Wallet where
  descriptors := true
  loadOnStartup := true
  loaded := true

def createwallet (world : World) (name : String) (outcome : Outcome) : World × Reply :=
  if world.daemon ∧ world.wallets name = none then
    world.changing outcome (world.setWallet name newWallet)
  else world.replying false

/-- The status says that the node answered; whether the descriptor was accepted
stands in the answer. -/
def importdescriptors (world : World) (name : String) (descriptor : Descriptor)
    (outcome : Outcome) : World × Reply :=
  match world.reachable name with
  | none => world.replying false
  | some wallet =>
      if wallet.loaded ∧ wallet.descriptors then
        (if outcome.effect then
          world.setWallet name { wallet with imported := descriptor :: wallet.imported }
        else world, { ok := outcome.ok })
      else world.replying false

/-- A wallet that has descriptors already is not migrated again. -/
def migratewallet (world : World) (name : String) (outcome : Outcome) : World × Reply :=
  match world.reachable name with
  | none => world.replying false
  | some wallet =>
      if wallet.descriptors then world.replying false
      else world.changing outcome
        (world.setWallet name { wallet with descriptors := true, loaded := true })

end World

/-- What a command does. -/
def perform (command : Command) (world : World) (outcome : Outcome) : World × Reply :=
  match command with
  | .isFile file => world.replying (world.files file).isSome
  | .touch file => world.changing outcome (world.openFile file)
  | .truncate file => world.changing outcome (world.setFile file [])
  | .openAppend file => world.changing outcome (world.openFile file)
  | .write file lines => world.changing outcome (world.appendLines file lines)
  | .cat file => world.cat file outcome
  | .readLines file => world.readLines file outcome
  | .bitcoind => world.bitcoind outcome
  | .pkill => world.changing outcome world.stopNode
  | .stop => world.stop outcome
  | .listwallets name => world.listwallets name outcome
  | .listwalletdir name => world.listwalletdir name outcome
  | .loadwallet name => world.loadwallet name outcome
  | .createwallet name => world.createwallet name outcome
  | .getdescriptorinfo _ => world.replying (outcome.ok && world.daemon) outcome.output
  | .importdescriptors name descriptor => world.importdescriptors name descriptor outcome
  | .migratewallet name => world.migratewallet name outcome
  | .mkdir | .sleep | .awaitStopped | .mineGenesis | .rpcauth | .regtest _ =>
      world.replying outcome.ok outcome.output

def machine : Machine Command World Outcome where
  perform := perform

/-- A command that does what it is there for. -/
def Works (event : Event Command World Outcome) : Prop :=
  event.input.ok = true ∧ event.input.effect = true

/-- A container is started with the volume of the one before it. -/
def reboot (world : World) : World :=
  world.stopNode

/-- A test of a file only looks. -/
theorem guarantees_isFile {A : Type} {allowed : Event Command World Outcome -> Prop}
    {crash : World -> Prop} {post : A -> World -> Prop} {world : World} {file : File}
    {yes no : Script Command A} (cut : crash world)
    (goesOn : if (world.files file).isSome then machine.Guarantees allowed crash post yes world
      else machine.Guarantees allowed crash post no world) :
    machine.Guarantees allowed crash post (.test (.isFile file) yes no) world := by
  apply Machine.guarantees_test cut
  · intro input _ present
    change (world.files file).isSome = true at present
    rw [if_pos present] at goesOn
    exact goesOn
  · intro input _ absent
    change (world.files file).isSome = false at absent
    rw [if_neg (by rw [absent]; exact Bool.false_ne_true)] at goesOn
    exact goesOn

/-- The temporary node leaves the volume as it is. -/
theorem guarantees_regtest {A : Type} {allowed : Event Command World Outcome -> Prop}
    {crash : World -> Prop} {post : A -> World -> Prop} {world : World} {command : Regtest}
    {next : List String -> Script Command A} (cut : crash world)
    (goesOn : forall input, allowed { command := .regtest command, world, input } ->
      machine.Guarantees allowed crash post (next input.output) world) :
    machine.Guarantees allowed crash post (.capture (.regtest command) next) world :=
  Machine.guarantees_capture cut goesOn

/-! ## What a command leaves as it is -/

/-- The file a command writes to. -/
def Command.target : Command -> Option File
  | .touch file | .truncate file | .openAppend file | .write file _ => some file
  | _ => none

namespace World

variable {world changed : World} {outcome : Outcome} {file : File}

/-- The file is as it was. -/
def Spares (world changed : World) (file : File) : Prop :=
  changed.files file = world.files file ∧ changed.unterminated file = world.unterminated file

theorem changing_spares (same : world.Spares changed file) :
    world.Spares (world.changing outcome changed).1 file := by
  unfold changing
  split
  · exact same
  · exact ⟨rfl, rfl⟩

/-- A command that succeeds took effect. -/
theorem changing_of_ok (changed : World) (ok : outcome.ok = true) :
    world.changing outcome changed = (changed, { ok := true }) := by
  rw [changing, Outcome.effective, ok]
  rfl

theorem setFile_files_of_ne {other : File} {lines : List String} (different : other ≠ file) :
    (world.setFile file lines).files other = world.files other :=
  Function.update_of_ne different _ _

@[simp] theorem setFile_self (lines : List String) :
    (world.setFile file lines).files file = some lines :=
  Function.update_self _ _ _

@[simp] theorem setFile_terminated (lines : List String) :
    (world.setFile file lines).unterminated file = false :=
  Function.update_self _ _ _

theorem setFile_unterminated_of_ne {other : File} {lines : List String}
    (different : other ≠ file) :
    (world.setFile file lines).unterminated other = world.unterminated other :=
  Function.update_of_ne different _ _

@[simp] theorem setFile_setFile (lines later : List String) :
    (world.setFile file lines).setFile file later = world.setFile file later := by
  unfold setFile
  rw [Function.update_idem, Function.update_idem]

/-- A file that was opened is there. -/
theorem openFile_isSome : ((world.openFile file).files file).isSome = true := by
  change (Function.update world.files file _ file).isSome = true
  rw [Function.update_self, Option.isSome_some]

theorem joinLines_of_terminated (before lines : List String) :
    joinLines false before lines = before ++ lines := by
  cases lines with
  | nil => exact (List.append_nil before).symm
  | cons first others => rw [joinLines, if_neg fun both => Bool.false_ne_true both.1]

theorem joinLines_ne_nil {lines : List String} (some : lines ≠ []) (unterminated : Bool)
    (before : List String) : joinLines unterminated before lines ≠ [] := by
  cases lines with
  | nil => exact absurd rfl some
  | cons first others =>
      rw [joinLines]
      split
      · exact List.append_ne_nil_of_right_ne_nil _ (List.cons_ne_nil _ _)
      · exact List.append_ne_nil_of_right_ne_nil _ (List.cons_ne_nil _ _)

theorem appendLines_self (lines : List String) :
    (world.appendLines file lines).files file =
      some (joinLines (world.unterminated file) ((world.files file).getD []) lines) :=
  Function.update_self _ _ _

/-- Lines in a file that was not there. -/
theorem appendLines_openFile (absent : world.files file = none) (lines : List String) :
    ((world.openFile file).appendLines file lines).files file = some lines := by
  have empty : (world.openFile file).files file = some [] := by
    change Function.update world.files file _ file = _
    rw [Function.update_self, absent, Option.getD_none]
  rw [appendLines_self, empty, Option.getD_some]
  cases lines with
  | nil => rfl
  | cons first others => rw [joinLines, if_neg fun both => both.2 rfl, List.nil_append]

@[simp] theorem appendLines_setFile (before lines : List String) :
    (world.setFile file before).appendLines file lines = world.setFile file (before ++ lines) := by
  unfold appendLines
  rw [setFile_self, setFile_terminated, Option.getD_some, joinLines_of_terminated, Bool.false_and]
  unfold setFile
  rw [Function.update_idem, Function.update_idem]

/-- A change of one file leaves the others. -/
theorem changing_spares_of_update {target : File} {content : Option (List String)} {last : Bool}
    (written : changed.files = Function.update world.files target content)
    (ended : changed.unterminated = Function.update world.unterminated target last)
    (different : file ≠ target) : world.Spares (world.changing outcome changed).1 file := by
  apply changing_spares
  rw [Spares, written, ended]
  exact ⟨Function.update_of_ne different _ _, Function.update_of_ne different _ _⟩

/-- A file that is opened keeps what it has. -/
theorem openFile_eq : world.openFile file =
    { world with
      files := Function.update world.files file (some ((world.files file).getD []))
      unterminated := Function.update world.unterminated file (world.unterminated file) } := by
  rw [Function.update_eq_self]
  rfl

@[simp] theorem setWallet_self (name : String) (wallet : Wallet) :
    (world.setWallet name wallet).wallets name = some wallet :=
  Function.update_self _ _ _

/-- A wallet is reached only through the wallets of the world. -/
theorem wallets_of_reachable {name : String} {wallet : Wallet}
    (present : world.reachable name = some wallet) :
    world.daemon = true ∧ world.wallets name = some wallet := by
  unfold reachable at present
  split at present
  · next running => exact ⟨running, present⟩
  · cases present

end World

/-- A command changes no file but the one it writes to. -/
theorem perform_spares {command : Command} {file : File} (other : command.target ≠ some file)
    (world : World) (outcome : Outcome) :
    world.Spares (perform command world outcome).1 file := by
  have different : forall {target : File}, command.target = some target -> file ≠ target :=
    fun written same => other (same ▸ written)
  cases command with
  | touch target =>
      change world.Spares (world.changing outcome (world.openFile target)).1 file
      rw [World.openFile_eq]
      exact World.changing_spares_of_update rfl rfl (different rfl)
  | truncate target => exact World.changing_spares_of_update rfl rfl (different rfl)
  | openAppend target =>
      change world.Spares (world.changing outcome (world.openFile target)).1 file
      rw [World.openFile_eq]
      exact World.changing_spares_of_update rfl rfl (different rfl)
  | write target lines => exact World.changing_spares_of_update rfl rfl (different rfl)
  | cat target =>
      change world.Spares (world.cat target outcome).1 file
      unfold World.cat
      split
      · exact ⟨rfl, rfl⟩
      · split <;> exact ⟨rfl, rfl⟩
  | readLines target =>
      change world.Spares (world.readLines target outcome).1 file
      unfold World.readLines
      split
      · exact ⟨rfl, rfl⟩
      · split <;> exact ⟨rfl, rfl⟩
  | bitcoind =>
      change world.Spares (world.bitcoind outcome).1 file
      unfold World.bitcoind
      split
      · exact ⟨rfl, rfl⟩
      · exact World.changing_spares ⟨rfl, rfl⟩
  | pkill => exact World.changing_spares ⟨rfl, rfl⟩
  | stop =>
      change world.Spares (world.stop outcome).1 file
      unfold World.stop
      split
      · exact World.changing_spares ⟨rfl, rfl⟩
      · exact ⟨rfl, rfl⟩
  | listwallets name =>
      change world.Spares (world.listwallets name outcome).1 file
      unfold World.listwallets
      split <;> exact ⟨rfl, rfl⟩
  | loadwallet name =>
      change world.Spares (world.loadwallet name outcome).1 file
      unfold World.loadwallet
      split
      · exact ⟨rfl, rfl⟩
      · split
        · exact ⟨rfl, rfl⟩
        · exact World.changing_spares ⟨rfl, rfl⟩
  | createwallet name =>
      change world.Spares (world.createwallet name outcome).1 file
      unfold World.createwallet
      split
      · exact World.changing_spares ⟨rfl, rfl⟩
      · exact ⟨rfl, rfl⟩
  | importdescriptors name descriptor =>
      change world.Spares (world.importdescriptors name descriptor outcome).1 file
      unfold World.importdescriptors
      split
      · exact ⟨rfl, rfl⟩
      · split
        · dsimp only
          split <;> exact ⟨rfl, rfl⟩
        · exact ⟨rfl, rfl⟩
  | migratewallet name =>
      change world.Spares (world.migratewallet name outcome).1 file
      unfold World.migratewallet
      split
      · exact ⟨rfl, rfl⟩
      · split
        · exact ⟨rfl, rfl⟩
        · exact World.changing_spares ⟨rfl, rfl⟩
  | _ => exact ⟨rfl, rfl⟩

theorem perform_files {command : Command} {file : File} (other : command.target ≠ some file)
    (world : World) (outcome : Outcome) :
    (perform command world outcome).1.files file = world.files file :=
  (perform_spares other world outcome).1

/-- A marker that is there stays there. -/
theorem perform_installed {world : World} {file : File} (command : Command) (outcome : Outcome)
    (present : (world.files file).isSome = true) :
    ((perform command world outcome).1.files file).isSome = true := by
  by_cases target : command.target = some file
  · have kept : forall {changed : World} {lines : List String},
        changed.files = Function.update world.files file (some lines) ->
          ((world.changing outcome changed).1.files file).isSome = true := by
      intro changed lines written
      unfold World.changing
      split
      · change (changed.files file).isSome = true
        rw [written, Function.update_self, Option.isSome_some]
      · exact present
    cases command <;> cases target <;> exact kept rfl
  · rw [perform_files target]
    exact present

/-- Only `bitcoind` brings the node up. -/
theorem perform_daemon {command : Command} {world : World} (other : command ≠ .bitcoind)
    (stopped : world.daemon = false) (outcome : Outcome) :
    (perform command world outcome).1.daemon = false := by
  have changed : forall {changed : World}, changed.daemon = false ->
      (world.changing outcome changed).1.daemon = false := by
    intro changed down
    unfold World.changing
    split
    · exact down
    · exact stopped
  have unreachable : forall name, world.reachable name = none := by
    intro name
    rw [World.reachable, stopped, if_neg Bool.false_ne_true]
  cases command with
  | touch file => exact changed stopped
  | truncate file => exact changed stopped
  | openAppend file => exact changed stopped
  | write file lines => exact changed stopped
  | cat file =>
      change (world.cat file outcome).1.daemon = false
      unfold World.cat
      split
      · exact stopped
      · split <;> exact stopped
  | readLines file =>
      change (world.readLines file outcome).1.daemon = false
      unfold World.readLines
      split
      · exact stopped
      · split <;> exact stopped
  | bitcoind => exact absurd rfl other
  | pkill => exact changed rfl
  | stop =>
      change (world.stop outcome).1.daemon = false
      unfold World.stop
      split
      · exact changed rfl
      · exact stopped
  | listwallets name =>
      change (world.listwallets name outcome).1.daemon = false
      rw [World.listwallets, unreachable]
      exact stopped
  | loadwallet name =>
      change (world.loadwallet name outcome).1.daemon = false
      rw [World.loadwallet, unreachable]
      exact stopped
  | createwallet name =>
      change (world.createwallet name outcome).1.daemon = false
      unfold World.createwallet
      split
      · exact changed stopped
      · exact stopped
  | importdescriptors name descriptor =>
      change (world.importdescriptors name descriptor outcome).1.daemon = false
      rw [World.importdescriptors, unreachable]
      exact stopped
  | migratewallet name =>
      change (world.migratewallet name outcome).1.daemon = false
      rw [World.migratewallet, unreachable]
      exact stopped
  | _ => exact stopped

/-- What becomes of a wallet: it keeps its keys and descriptors, it is migrated
in one direction only, and it stays among the wallets the node loads. -/
structure Wallet.Grows (before after : Wallet) : Prop where
  keys : after.keys = before.keys
  imported : forall descriptor, descriptor ∈ before.imported -> descriptor ∈ after.imported
  descriptors : before.descriptors = true -> after.descriptors = true
  loadOnStartup : before.loadOnStartup = true -> after.loadOnStartup = true

theorem Wallet.Grows.refl (wallet : Wallet) : wallet.Grows wallet where
  keys := rfl
  imported := fun _ held => held
  descriptors := fun same => same
  loadOnStartup := fun same => same

/-- What becomes of the place of a wallet: the wallet grows, or a new one may
be created there. -/
def WalletStep (before after : Option Wallet) : Prop :=
  match before with
  | some wallet => Exists fun wallet' => after = some wallet' ∧ wallet.Grows wallet'
  | none => after = none ∨ after = some World.newWallet

theorem WalletStep.refl (before : Option Wallet) : WalletStep before before := by
  cases before with
  | none => exact Or.inl rfl
  | some wallet => exact ⟨wallet, rfl, Wallet.Grows.refl wallet⟩

theorem walletStep_map {change : Wallet -> Wallet} (grows : forall wallet : Wallet,
    wallet.Grows (change wallet)) (before : Option Wallet) :
    WalletStep before (before.map change) := by
  cases before with
  | none => exact Or.inl rfl
  | some wallet => exact ⟨change wallet, rfl, grows wallet⟩

theorem walletStep_changing {world changed : World} {outcome : Outcome} {name : String}
    (step : WalletStep (world.wallets name) (changed.wallets name)) :
    WalletStep (world.wallets name) ((world.changing outcome changed).1.wallets name) := by
  unfold World.changing
  split
  · exact step
  · exact WalletStep.refl _

theorem walletStep_setWallet {world : World} {name other : String} {wallet wallet' : Wallet}
    (present : world.wallets name = some wallet) (grows : wallet.Grows wallet') :
    WalletStep (world.wallets other) ((world.setWallet name wallet').wallets other) := by
  by_cases same : other = name
  · subst same
    rw [present]
    exact ⟨wallet', Function.update_self _ _ _, grows⟩
  · have kept : (world.setWallet name wallet').wallets other = world.wallets other :=
      Function.update_of_ne same _ _
    rw [kept]
    exact WalletStep.refl _

theorem walletStep_startNode (world : World) (name : String) :
    WalletStep (world.wallets name) (world.startNode.wallets name) :=
  @walletStep_map (fun wallet => { wallet with loaded := wallet.loadOnStartup })
    (fun _ => ⟨rfl, fun _ held => held, fun same => same, fun same => same⟩) _

theorem walletStep_stopNode (world : World) (name : String) :
    WalletStep (world.wallets name) (world.stopNode.wallets name) :=
  @walletStep_map (fun wallet => { wallet with loaded := false })
    (fun _ => ⟨rfl, fun _ held => held, fun same => same, fun same => same⟩) _

/-- No command takes a wallet or anything in it away. -/
theorem perform_wallets (command : Command) (world : World) (outcome : Outcome) (name : String) :
    WalletStep (world.wallets name) ((perform command world outcome).1.wallets name) := by
  cases command with
  | touch file => exact walletStep_changing (WalletStep.refl _)
  | truncate file => exact walletStep_changing (WalletStep.refl _)
  | openAppend file => exact walletStep_changing (WalletStep.refl _)
  | write file lines => exact walletStep_changing (WalletStep.refl _)
  | cat file =>
      change WalletStep _ ((world.cat file outcome).1.wallets name)
      unfold World.cat
      split
      · exact WalletStep.refl _
      · split <;> exact WalletStep.refl _
  | readLines file =>
      change WalletStep _ ((world.readLines file outcome).1.wallets name)
      unfold World.readLines
      split
      · exact WalletStep.refl _
      · split <;> exact WalletStep.refl _
  | bitcoind =>
      change WalletStep _ ((world.bitcoind outcome).1.wallets name)
      unfold World.bitcoind
      split
      · exact WalletStep.refl _
      · exact walletStep_changing (walletStep_startNode world name)
  | pkill => exact walletStep_changing (walletStep_stopNode world name)
  | stop =>
      change WalletStep _ ((world.stop outcome).1.wallets name)
      unfold World.stop
      split
      · exact walletStep_changing (walletStep_stopNode world name)
      · exact WalletStep.refl _
  | listwallets other =>
      change WalletStep _ ((world.listwallets other outcome).1.wallets name)
      unfold World.listwallets
      split <;> exact WalletStep.refl _
  | loadwallet other =>
      change WalletStep _ ((world.loadwallet other outcome).1.wallets name)
      unfold World.loadwallet
      split
      · exact WalletStep.refl _
      · next wallet present =>
          split
          · exact WalletStep.refl _
          · exact walletStep_changing (walletStep_setWallet (World.wallets_of_reachable present).2
              ⟨rfl, fun _ held => held, fun same => same, fun _ => rfl⟩)
  | createwallet other =>
      change WalletStep _ ((world.createwallet other outcome).1.wallets name)
      unfold World.createwallet
      split
      · next absent =>
          apply walletStep_changing
          by_cases same : name = other
          · subst same
            rw [absent.2]
            exact Or.inr (Function.update_self _ _ _)
          · have kept : (world.setWallet other World.newWallet).wallets name =
                world.wallets name := Function.update_of_ne same _ _
            rw [kept]
            exact WalletStep.refl _
      · exact WalletStep.refl _
  | importdescriptors other descriptor =>
      change WalletStep _ ((world.importdescriptors other descriptor outcome).1.wallets name)
      unfold World.importdescriptors
      split
      · exact WalletStep.refl _
      · next wallet present =>
          split
          · dsimp only
            split
            · exact walletStep_setWallet (World.wallets_of_reachable present).2
                ⟨rfl, fun _ held => List.mem_cons_of_mem _ held, fun same => same,
                  fun same => same⟩
            · exact WalletStep.refl _
          · exact WalletStep.refl _
  | migratewallet other =>
      change WalletStep _ ((world.migratewallet other outcome).1.wallets name)
      unfold World.migratewallet
      split
      · exact WalletStep.refl _
      · next wallet present =>
          split
          · exact WalletStep.refl _
          · exact walletStep_changing (walletStep_setWallet (World.wallets_of_reachable present).2
              ⟨rfl, fun _ held => held, fun _ => rfl, fun same => same⟩)
  | _ => exact WalletStep.refl _

end Setup
end MutinyNet
