import MutinyNet.Setup.Markers

namespace MutinyNet
namespace Setup

open Shell Transition

/-!
# The challenge of the chain

The node checks blocks against the challenge of `bitcoin.conf`, and the miner
signs them with the key of `PRIVKEY.txt`.  `gen-signet-keys.sh` generates both
when one of the two is not given, and the challenge it generates reaches the
configuration through `SIGNETCHALLENGE.txt` only where the environment has none.
One of the environment is written to that file by an `echo` without quotes.

A start is followed through its script under the condition that the commands on
these files work; whatever else fails does not matter.
-/

/-- The wallet of the temporary node: the challenge of its address, in hex, and its
descriptors. -/
structure TemporaryWallet where
  challenge : String
  descriptors : List String
  given : challenge ≠ ""
  hex : challenge.toList.all Char.isAlphanum = true

/-- The temporary node answers about its wallet. -/
def Answers (node : TemporaryWallet) (event : Event Command World Outcome) : Prop :=
  match event.command with
  | .regtest (.scriptPubKey _) => captured event.input.output = node.challenge
  | .regtest .listdescriptors => event.input.output = node.descriptors
  | _ => True

/-- The files with the challenge and the key. -/
def pairFiles : List (Option File) :=
  [some .privkey, some .signetchallenge, some .bitcoinConf]

/-- The command writes to one of them. -/
def Touches (command : Command) : Prop :=
  command.target ∈ pairFiles

instance : DecidablePred Touches := fun _ => inferInstanceAs (Decidable (_ ∈ _))

/-- The challenge and the key go through these commands. -/
def Carries (command : Command) : Prop :=
  command = .cat .signetchallenge ∨ Touches command

/-- The command works if something depends on it. -/
def Faithful (node : TemporaryWallet) (event : Event Command World Outcome) : Prop :=
  (Carries event.command -> Works event) ∧ Answers node event

/-- A start that ends in the command of the container. -/
structure Successful (env : Environment) (node : TemporaryWallet) (world : World)
    (outcomes : List Outcome) : Prop where
  ended : (machine.exec (entrypoint env) world outcomes).2 = some .exec
  faithful : forall event, event ∈ machine.events (entrypoint env) world outcomes ->
    Faithful node event

/-- The line sets the challenge. -/
def isChallenge (line : String) : Bool :=
  "signetchallenge=".toList.isPrefixOf line.toList

/-- The `signetchallenge` of a configuration. -/
def confChallenge (conf : List String) : Option String :=
  (conf.find? isChallenge).map fun line => String.ofList (line.toList.drop 16)

/-- The configured challenge is the one of `SIGNETCHALLENGE.txt`, and the one of the
key in `PRIVKEY.txt`. -/
def Consistent (belongs : String -> List String -> Prop) (world : World) : Prop :=
  Exists fun conf => Exists fun challenge => Exists fun key =>
    world.files .bitcoinConf = some conf ∧ confChallenge conf = some challenge ∧
      world.files .signetchallenge = some [challenge] ∧ world.files .privkey = some key ∧
      belongs challenge key

/-! ## What the scripts store and use -/

variable {env : Environment} {node : TemporaryWallet} {world : World}

/-- The challenge that `write_files` prints to `SIGNETCHALLENGE.txt`. -/
def storedChallenge (env : Environment) (node : TemporaryWallet) : String :=
  if env.signetchallenge = "" ∨ env.privkey = "" then node.challenge else env.signetchallenge

/-- The key of `PRIVKEY.txt`. -/
def storedKey (env : Environment) (node : TemporaryWallet) : List String :=
  if env.signetchallenge = "" ∨ env.privkey = "" then node.descriptors else textLines env.privkey

/-- The challenge of `bitcoin.conf`. -/
def usedChallenge (env : Environment) (node : TemporaryWallet) : String :=
  if env.signetchallenge ≠ "" then env.signetchallenge else storedChallenge env node

/-- Both files are written. -/
structure Stored (env : Environment) (node : TemporaryWallet) (world : World) : Prop where
  challengeFile : world.files .signetchallenge = some (env.shell.echo (storedChallenge env node))
  keyFile : world.files .privkey = some (storedKey env node)

/-- And so is the configuration. -/
structure Configured (env : Environment) (node : TemporaryWallet) (world : World) : Prop
    extends Stored env node world where
  confFile : Exists fun rpcauth =>
    world.files .bitcoinConf = some (confLines env (usedChallenge env node) rpcauth)

theorem Stored.congr {changed : World} (stored : Stored env node world)
    (same : forall file, file = .signetchallenge ∨ file = .privkey ->
      changed.files file = world.files file) : Stored env node changed where
  challengeFile := (same _ (Or.inl rfl)).trans stored.challengeFile
  keyFile := (same _ (Or.inr rfl)).trans stored.keyFile

theorem touches_of_target {command : Command} {file : File} (target : command.target = some file)
    (listed : some file ∈ pairFiles) : Touches command := by
  rw [Touches, target]
  exact listed

/-- What touches none of the files keeps them, whatever becomes of it. -/
theorem Configured.step (configured : Configured env node world) (command : Command)
    (spares : ¬ Touches command) (outcome : Outcome) :
    Configured env node (perform command world outcome).1 := by
  have kept : forall file, some file ∈ pairFiles ->
      (perform command world outcome).1.files file = world.files file := by
    intro file member
    apply perform_files
    intro target
    exact spares (touches_of_target target member)
  refine ⟨configured.toStored.congr ?_, ?_⟩
  · rintro file (same | same)
    · exact kept file (by rw [same]; decide)
    · exact kept file (by rw [same]; decide)
  · rcases configured.confFile with ⟨rpcauth, whole⟩
    exact ⟨rpcauth, (kept _ (by decide)).trans whole⟩

/-- A generated challenge is printed as it is. -/
theorem TemporaryWallet.verbatim (node : TemporaryWallet) {shell : Expansion} :
    shell.echo node.challenge = [node.challenge] :=
  verbatim_of_alphanum node.given (List.all_eq_true.mp node.hex)

/-! ## The line of the configuration -/

theorem confChallenge_append {front : List String}
    (absent : forall line, line ∈ front -> isChallenge line = false) (back : List String) :
    confChallenge (front ++ back) = confChallenge back := by
  have none : front.find? isChallenge = none :=
    List.find?_eq_none.mpr fun line member => by rw [absent line member]; decide
  rw [confChallenge, List.find?_append, none, Option.none_or]
  rfl

theorem confChallenge_cons (challenge : String) (rest : List String) :
    confChallenge (("signetchallenge=" ++ challenge) :: rest) = some challenge := by
  have found : isChallenge ("signetchallenge=" ++ challenge) = true := by
    rw [isChallenge, String.toList_append]
    exact List.isPrefixOf_iff_prefix.mpr (List.prefix_append _ _)
  rw [confChallenge, List.find?_cons_of_pos found, Option.map_some, String.toList_append]
  change some (String.ofList challenge.toList) = _
  rw [String.ofList_toList]

/-- The lines of a block of settings none of which is the challenge. -/
theorem not_isChallenge_setting {key : String} (listed : key ∈ ["rpcauth=", "rpcuser=",
      "rpcpassword=", "coinstatsindex=", "uacomment=", "externalip=", "dbcache=",
      "maxconnections=", "signetblocktime="]) (value : String) :
    isChallenge (key ++ value) = false := by
  rw [isChallenge, String.toList_append]
  simp only [List.mem_cons, List.not_mem_nil, or_false] at listed
  rcases listed with same | same | same | same | same | same | same | same | same <;>
    subst same <;> rfl

theorem not_isChallenge_ifSet {key value : String} (setting : forall value,
      isChallenge (key ++ value) = false) :
    forall line, line ∈ (ifSet value [key ++ value]).flatten -> isChallenge line = false := by
  intro line member
  unfold ifSet at member
  split at member
  · cases member
  · rw [List.flatten_singleton] at member
    rw [List.mem_singleton.mp member]
    exact setting value

/-- The configuration has the challenge that the script used. -/
theorem confChallenge_confLines (env : Environment) (challenge rpcauth : String) :
    confChallenge (confLines env challenge rpcauth) = some challenge := by
  have setting := @not_isChallenge_setting
  have first : forall line, line ∈ ["signet=1"] -> isChallenge line = false := by
    intro line member
    rw [List.mem_singleton.mp member]
    rfl
  have general : forall line, line ∈ (if env.cookiefile = "true" then
        ["rpccookiefile=/root/.bitcoin/.cookie", "rpcauth=" ++ rpcauth]
      else ["rpcauth=" ++ rpcauth, "rpcuser=" ++ env.rpcuser, "rpcpassword=" ++ env.rpcpassword]) ->
        isChallenge line = false := by
    intro line member
    split at member
    · simp only [List.mem_cons, List.not_mem_nil, or_false] at member
      rcases member with same | same <;> rw [same]
      · rfl
      · exact setting (by simp) _
    · simp only [List.mem_cons, List.not_mem_nil, or_false] at member
      rcases member with same | same | same <;> rw [same] <;> exact setting (by simp) _
  have index : forall line, line ∈ ["txindex=1", "blockfilterindex=1", "peerblockfilters=1",
      "coinstatsindex=" ++ (if env.coinstatsindex = "" then "1" else env.coinstatsindex),
      "dnsseed=0", "persistmempool=1", "uacomment=" ++ env.uacomment] ->
        isChallenge line = false := by
    simp only [List.mem_cons, List.not_mem_nil, or_false]
    rintro line (same | same | same | same | same | same | same) <;> rw [same] <;>
      first
      | rfl
      | exact setting (by simp) _
  have addresses : forall line, line ∈ (if env.externalIp = "" then []
      else (entries env.externalIp).map fun ip => ["externalip=" ++ ip]).flatten ->
        isChallenge line = false := by
    intro line member
    rcases List.mem_flatten.mp member with ⟨block, listed, inside⟩
    split at listed
    · cases listed
    · rcases List.mem_map.mp listed with ⟨ip, -, same⟩
      rw [← same] at inside
      rw [List.mem_singleton.mp inside]
      exact setting (by simp) _
  have signet : forall line, line ∈ ["[signet]", "rest=1", "listen=1", "server=1",
      "acceptnonstdtxn=1", "v2transport=1", "discover=1",
      "signetblocktime=" ++ env.blockproductiondelay] -> isChallenge line = false := by
    simp only [List.mem_cons, List.not_mem_nil, or_false]
    rintro line (same | same | same | same | same | same | same | same) <;> rw [same] <;>
      first
      | rfl
      | exact setting (by simp) _
  unfold confLines confBlocks
  simp only [List.flatten_append, List.append_assoc]
  rw [List.flatten_singleton, confChallenge_append first, List.flatten_singleton,
    confChallenge_append general, List.flatten_singleton, confChallenge_append index,
    confChallenge_append addresses, confChallenge_append (not_isChallenge_ifSet (setting (by simp))),
    confChallenge_append (not_isChallenge_ifSet (setting (by simp)))]
  exact (confChallenge_append signet _).trans (confChallenge_cons challenge _)

/-! ## Writing the files -/

theorem captured_singleton (line : String) : captured [line] = line := by
  unfold captured
  by_cases empty : line = ""
  · rw [empty]
    rfl
  · rw [List.reverse_singleton, List.dropWhile_cons_of_neg (by simpa using empty),
      List.reverse_singleton]
    rfl

section Scripts

variable {post : Nat -> World -> Prop}

theorem works_of_target {event : Event Command World Outcome} {file : File}
    (faithful : Faithful node event) (target : event.command.target = some file)
    (listed : some file ∈ pairFiles) :
    Works event :=
  faithful.1 (Or.inr (touches_of_target target listed))

/-- A file that matters is written. -/
theorem guarantees_writeFile {file : File} {lines : List String} {next : Script Command Nat}
    (listed : some file ∈ pairFiles)
    (goesOn : machine.Guarantees (Faithful node) (fun _ => True) post next
      (world.setFile file lines)) :
    machine.Guarantees (Faithful node) (fun _ => True) post (writeFile file lines next) world := by
  refine ⟨trivial, ?_⟩
  intro opened faithful
  have truncated : machine.perform (.truncate file) world opened =
      (world.setFile file [], { ok := true }) :=
    World.changing_of_ok _ (works_of_target faithful rfl listed).1
  rw [truncated]
  apply Machine.guarantees_attempt trivial
  intro input faithful
  have written : machine.perform (.write file lines) (world.setFile file []) input =
      (world.setFile file lines, { ok := true }) := by
    have worked := works_of_target faithful rfl listed
    change World.changing _ input _ = _
    rw [World.changing_of_ok _ worked.1, World.appendLines_setFile, List.nil_append]
  rw [written]
  exact goesOn

/-- Another file may be written or not. -/
theorem guarantees_writeOther (holds : World -> Prop) {file : File} {lines : List String}
    {next : Script Command Nat}
    (kept : forall event : Event Command World Outcome, event.command.target = some file ->
      holds event.world -> holds (machine.after event))
    (goesOn : forall world, holds world ->
      machine.Guarantees (Faithful node) (fun _ => True) post next world)
    (initially : holds world) :
    machine.Guarantees (Faithful node) (fun _ => True) post (writeFile file lines next) world := by
  refine ⟨trivial, ?_⟩
  intro opened _
  have truncated := kept ⟨.truncate file, world, opened⟩ rfl initially
  dsimp only
  split
  · apply Machine.guarantees_attempt trivial
    intro input _
    exact goesOn _ (kept ⟨.write file lines, _, input⟩ rfl truncated)
  · exact goesOn _ truncated

/-- `write_files` stores the challenge and leaves the key. -/
theorem guarantees_writeFiles {shell : Expansion} {challenge addr pubkey : String}
    {key : List String} (keyFile : world.files .privkey = some key)
    (ended : forall world, world.files .signetchallenge = some (shell.echo challenge) ->
      world.files .privkey = some key -> post 0 world) :
    machine.Guarantees (Faithful node) (fun _ => True) post
      (writeFiles shell challenge addr pubkey) world := by
  have kept : forall {file : File}, file ≠ .privkey ->
      forall event : Event Command World Outcome, event.command.target = some file ->
        event.world.files .privkey = some key -> (machine.after event).files .privkey = some key := by
    intro file other event target here
    apply (perform_files _ event.world event.input).trans here
    rw [target]
    exact fun same => other (Option.some.inj same)
  apply guarantees_writeOther (fun world => world.files .privkey = some key)
    (kept (by decide)) _ keyFile
  intro world keyFile
  apply guarantees_writeOther (fun world => world.files .privkey = some key)
    (kept (by decide)) _ keyFile
  intro world keyFile
  apply guarantees_writeFile (by decide)
  exact ended _ (World.setFile_self _) ((World.setFile_files_of_ne (by decide)).trans keyFile)

/-- The branch of `gen-signet-keys.sh` that generates the pair. -/
theorem guarantees_generatePair {shell : Expansion} (absent : world.files .privkey = none)
    (ended : forall world, world.files .signetchallenge = some (shell.echo node.challenge) ->
      world.files .privkey = some node.descriptors -> post 0 world) :
    machine.Guarantees (Faithful node) (fun _ => True) post (generateKeys shell) world := by
  have silent : forall command, command ∈ ([.regtest .removeDatadir, .regtest .makeDatadir, .pkill,
      .regtest .writeConf, .regtest .daemon, .sleep, .regtest .createwallet, .regtest .stop] :
        List Command) -> command.target = none := by
    decide
  have kept : forall {content : Option (List String)} (event : Event Command World Outcome),
      event.command.target = none -> event.world.files .privkey = content ->
        (machine.after event).files .privkey = content := by
    intro content event none here
    exact (perform_files (by rw [none]; exact fun impossible => nomatch impossible) event.world
      event.input).trans here
  apply Machine.guarantees_attemptAll (fun world => world.files .privkey = none)
    (fun _ _ => trivial) _ _ absent
  · intro event member _ here
    apply kept event (silent event.command _) here
    exact List.mem_append_left [.regtest .stop] member
  · intro world absent
    apply guarantees_regtest trivial
    intro addr _
    apply guarantees_regtest trivial
    intro signetchallenge answered
    have challenge : captured signetchallenge.output = node.challenge := answered.2
    apply guarantees_regtest trivial
    intro pubkey _
    refine ⟨trivial, ?_⟩
    intro opened faithful
    have appending : machine.perform (.openAppend .privkey) world opened =
        (world.openFile .privkey, { ok := true }) :=
      World.changing_of_ok _ (works_of_target faithful rfl (by decide)).1
    rw [appending]
    apply guarantees_regtest trivial
    intro listed answered
    have descriptors : listed.output = node.descriptors := answered.2
    dsimp only
    rw [if_pos rfl, challenge, descriptors]
    apply Machine.guarantees_attempt trivial
    intro input faithful
    have written : (machine.perform (.write .privkey node.descriptors)
        (world.openFile .privkey) input).1.files .privkey = some node.descriptors := by
      have worked := works_of_target faithful rfl (by decide)
      change (World.changing _ input _).1.files .privkey = _
      rw [World.changing_of_ok _ worked.1]
      exact World.appendLines_openFile absent node.descriptors
    apply Machine.guarantees_attemptAll (fun world => world.files .privkey = some node.descriptors)
      (fun _ _ => trivial) _ _ written
    · intro event member _ here
      apply kept event _ here
      simp only [List.mem_cons, List.not_mem_nil, or_false] at member
      rcases member with same | same <;> rw [same] <;> rfl
    · intro world written
      exact guarantees_writeFiles written ended

/-- `gen-signet-keys.sh` of a miner on a volume without a key. -/
theorem guarantees_storePair (miner : env.minerenabled = "1") (absent : world.files .privkey = none) :
    machine.Guarantees (Faithful node) (fun _ => True) (fun _ => Stored env node)
      (genSignetKeys env) world := by
  unfold genSignetKeys
  rw [if_pos miner]
  split
  · next missing =>
      apply guarantees_generatePair absent
      intro world challengeFile keyFile
      refine ⟨?_, ?_⟩
      · rw [storedChallenge, if_pos missing]
        exact challengeFile
      · rw [storedKey, if_pos missing]
        exact keyFile
  · next given =>
      apply guarantees_writeFile (by decide)
      apply guarantees_writeFile (by decide)
      have keyFile : ((world.setFile .privkey (textLines env.privkey)).setFile .signetchallenge
          [env.signetchallenge]).files .privkey = some (textLines env.privkey) :=
        (World.setFile_files_of_ne (by decide)).trans (World.setFile_self _)
      apply guarantees_writeFiles keyFile
      intro world challengeFile keyFile
      refine ⟨?_, ?_⟩
      · rw [storedChallenge, if_neg given]
        exact challengeFile
      · rw [storedKey, if_neg given]
        exact keyFile

/-- `gen-bitcoind-conf.sh`, from the files as they are stored. -/
theorem guarantees_configure (stored : Stored env node world)
    (ended : forall rpcauth, Configured env node
        (world.setFile .bitcoinConf (confLines env (usedChallenge env node) rpcauth)) ->
      post 0 (world.setFile .bitcoinConf (confLines env (usedChallenge env node) rpcauth))) :
    machine.Guarantees (Faithful node) (fun _ => True) post (rewriteConf env) world := by
  have kept : forall lines, Stored env node (world.setFile .bitcoinConf lines) := by
    intro lines
    apply stored.congr
    rintro file (same | same)
    · exact World.setFile_files_of_ne (by rw [same]; decide)
    · exact World.setFile_files_of_ne (by rw [same]; decide)
  apply guarantees_rewriteConf (fun event faithful target => works_of_target faithful target (by decide))
    (fun _ => trivial) (fun challenge => challenge = usedChallenge env node) trivial
  · intro given
    rw [usedChallenge, if_pos given]
  · intro missing input faithful
    have worked : input.ok = true := (faithful.1 (Or.inl rfl)).1
    have generated : storedChallenge env node = node.challenge := if_pos (Or.inl missing)
    have output : (perform (.cat .signetchallenge) (world.setFile .bitcoinConf []) input).2.output =
        [storedChallenge env node] := by
      change (World.cat _ _ input).2.output = _
      rw [World.cat, (kept []).challengeFile, generated, node.verbatim]
      dsimp only
      rw [if_pos worked]
      rfl
    rw [output, usedChallenge, if_neg (by rw [missing]; decide)]
    exact captured_singleton _
  · intro challenge rpcauth same
    subst same
    exact ended rpcauth ⟨kept _, rpcauth, World.setFile_self _⟩

/-- What does not touch the files keeps them, whatever becomes of it. -/
theorem guarantees_configured {A : Type} {script : Script Command A}
    (calls : script.Calls fun command => ¬ Touches command)
    (configured : Configured env node world) :
    machine.Guarantees (Faithful node) (fun _ => True) (fun _ => Configured env node) script
      world := by
  apply Machine.guarantees_of_invariant (Configured env node) calls _ (fun _ _ => trivial)
    (fun _ _ configured => configured) configured
  intro event spares _ configured
  exact configured.step event.command spares event.input

end Scripts

/-! ## Whole starts -/

/-- The volume behind a start that succeeded. -/
structure Ready (env : Environment) (node : TemporaryWallet) (world : World) : Prop
    extends Configured env node world where
  installed : (world.files .installDone).isSome = true

/-- What a start guarantees that ends in its command. -/
def Leaves (env : Environment) (node : TemporaryWallet) (ended : Ended) (world : World) : Prop :=
  ended = .exec -> Ready env node world

section Starts

theorem not_touches_of_imports {command : Command} (imports : Imports command) :
    ¬ Touches command := by
  rw [Touches, imports.target]
  decide

theorem calls_importSigningKey (privkeyMode wallet : String) :
    (importSigningKey privkeyMode wallet).Calls Imports := by
  unfold importSigningKey
  split
  · exact calls_importWifToDescriptor wallet
  · refine ⟨Or.inl (Or.inr rfl), ?_⟩
    intro reply
    dsimp only
    split
    · refine Script.calls_mustAll ?_ trivial
      intro command member
      rcases List.mem_map.mp member with ⟨line, -, same⟩
      exact Or.inr (Or.inr ⟨wallet, _, same.symm⟩)
    · trivial

/-- `setup-signet.sh` finds the key and leaves it. -/
theorem guarantees_setUp (configured : Configured env node world) :
    machine.Guarantees (Faithful node) (fun _ => True) (fun _ => Configured env node)
      (setupSignet env) world := by
  have imports : (importIfMiner env).Calls fun command => ¬ Touches command := by
    refine ⟨by decide, ?_⟩
    intro reply
    dsimp only
    split
    · split
      · exact (calls_importSigningKey _ _).mono fun _ => not_touches_of_imports
      · trivial
    · trivial
  apply Machine.guarantees_attempt trivial
  intro started _
  apply Machine.guarantees_attempt trivial
  intro created _
  have running := configured.step .bitcoind (by decide) started
  have walleted := running.step (.createwallet "custom_signet") (by decide) created
  apply guarantees_isFile trivial
  split
  · exact guarantees_configured imports walleted
  · next missing => exact absurd (Option.isSome_iff_exists.mpr ⟨_, walleted.keyFile⟩) missing

/-- The end of `install.sh` puts the marker there, if its status is zero. -/
theorem guarantees_mark (configured : Configured env node world) :
    machine.Guarantees (Faithful node) (fun _ => True)
      (fun status world => status = 0 -> Ready env node world) (finishInstall env) world := by
  have mark : forall world, Configured env node world -> machine.Guarantees (Faithful node)
      (fun _ => True) (fun status world => status = 0 -> Ready env node world)
      (.call (.touch .installDone) fun reply => .done (statusOf reply)) world := by
    intro world configured
    refine ⟨trivial, ?_⟩
    intro input _ success
    have worked : input.ok = true := by
      by_contra failed
      have status : statusOf (machine.perform (.touch .installDone) world input).2 = 1 := by
        change (if input.ok then 0 else 1) = 1
        rw [if_neg failed]
      rw [status] at success
      cases success
    refine ⟨configured.step (.touch .installDone) (by decide) input, ?_⟩
    change ((world.changing input _).1.files .installDone).isSome = true
    rw [World.changing_of_ok _ worked]
    exact World.openFile_isSome
  unfold finishInstall
  dsimp only
  split
  · apply Machine.guarantees_attempt trivial
    intro input _
    exact mark _ (configured.step .mineGenesis (by decide) input)
  · exact mark world configured

theorem Ready.step (ready : Ready env node world) (command : Command) (spares : ¬ Touches command)
    (outcome : Outcome) : Ready env node (perform command world outcome).1 :=
  ⟨ready.toConfigured.step command spares outcome, perform_installed _ _ ready.installed⟩

theorem guarantees_ready {A : Type} {script : Script Command A}
    (calls : script.Calls fun command => ¬ Touches command) (ready : Ready env node world) :
    machine.Guarantees (Faithful node) (fun _ => True) (fun _ => Ready env node) script world := by
  apply Machine.guarantees_of_invariant (Ready env node) calls _ (fun _ _ => trivial)
    (fun _ _ ready => ready) ready
  intro event spares _ ready
  exact ready.step event.command spares event.input

/-- The first start. -/
theorem guarantees_firstStart (miner : env.minerenabled = "1")
    (unmarked : world.files .installDone = none) (absent : world.files .privkey = none) :
    machine.Guarantees (Faithful node) (fun _ => True) (Leaves env node) (entrypoint env) world := by
  apply Machine.guarantees_must trivial
  · intro made _ _
    apply guarantees_isFile trivial
    rw [if_neg (by
      change ¬ (world.files .installDone).isSome = true
      rw [unmarked]
      exact Bool.false_ne_true)]
    apply Machine.guarantees_andThen.mpr
    apply Machine.guarantees_attempt trivial
    intro touched _
    have absent' : (perform (.touch .usesModernWallet) world touched).1.files .privkey = none :=
      (perform_files (by decide) world touched).trans absent
    apply Machine.guarantees_andThen.mpr
    apply (guarantees_storePair miner absent').mono (fun _ _ => trivial)
    intro _ world stored
    apply Machine.guarantees_andThen.mpr
    apply guarantees_configure stored
    intro rpcauth configured
    apply Machine.guarantees_andThen.mpr
    apply (guarantees_setUp configured).mono (fun _ _ => trivial)
    intro _ world configured
    apply (guarantees_mark configured).mono (fun _ _ => trivial)
    intro status world ready
    split
    · next success =>
        have calls : (Script.attempt Command.stop <| .must (Ended.exited 1) .awaitStopped
            (.done .exec)).Calls fun command => ¬ Touches command := by
          refine ⟨by decide, fun _ => ⟨by decide, ?_⟩⟩
          intro reply
          dsimp only
          split <;> trivial
        exact (guarantees_ready calls (ready success)).mono (fun _ _ => trivial)
          fun _ _ ready _ => ready
    · exact fun impossible => nomatch impossible
  · intro _ _ _ impossible
    cases impossible

/-- A later start. -/
theorem guarantees_laterStart (ready : Ready env node world) :
    machine.Guarantees (Faithful node) (fun _ => True) (Leaves env node) (entrypoint env) world := by
  have rewrites : forall world, Ready env node world -> machine.Guarantees (Faithful node)
      (fun _ => True) (Leaves env node) (orExit (rewriteConf env) (.done .exec)) world := by
    intro world ready
    apply Machine.guarantees_andThen.mpr
    apply guarantees_configure ready.toStored
    intro rpcauth configured
    rw [if_pos rfl]
    intro _
    refine ⟨configured, ?_⟩
    rw [World.setFile_files_of_ne (by decide)]
    exact ready.installed
  have migrates : migrate.Calls fun command => ¬ Touches command := by
    apply calls_migrate_target.mono
    rintro command (none | marker)
    · rw [Touches, none]
      decide
    · rw [Touches, marker]
      decide
  apply guarantees_onInstalled trivial ready.installed (fun impossible => nomatch impossible)
  apply guarantees_isFile trivial
  split
  · exact rewrites world ready
  · apply Machine.guarantees_andThen.mpr
    apply (guarantees_ready migrates ready).mono (fun _ _ => trivial)
    intro status world ready
    split
    · apply Machine.guarantees_must trivial
      · intro input _ _
        exact rewrites _ (ready.step .sleep (by decide) input)
      · intro _ _ _ impossible
        cases impossible
    · exact fun impossible => nomatch impossible

end Starts

/-! ## Every sequence of starts -/

section Runs

variable {belongs : String -> List String -> Prop}

/-- The files of a start that succeeded are consistent unless the environment has
a challenge, and another one was generated or is printed for it. -/
theorem consistent_of_configured (configured : Configured env node world)
    (together : env.signetchallenge ≠ "" -> env.privkey ≠ "" ->
      belongs env.signetchallenge (textLines env.privkey))
    (generated : belongs node.challenge node.descriptors) :
    Consistent belongs world <->
      (env.signetchallenge = "" ∨ node.challenge = env.signetchallenge ∨
        env.privkey ≠ "" ∧ env.shell.Verbatim env.signetchallenge) := by
  rcases configured.confFile with ⟨rpcauth, whole⟩
  have used := confChallenge_confLines env (usedChallenge env node) rpcauth
  constructor
  · rintro ⟨conf, challenge, key, confFile, chosen, challengeFile, -, -⟩
    cases whole.symm.trans confFile
    have same : usedChallenge env node = challenge := Option.some.inj (used.symm.trans chosen)
    have equal : env.shell.echo (storedChallenge env node) = [challenge] :=
      Option.some.inj (configured.challengeFile.symm.trans challengeFile)
    by_cases challengeGiven : env.signetchallenge = ""
    · exact Or.inl challengeGiven
    · rw [usedChallenge, if_pos challengeGiven] at same
      rw [← same] at equal
      by_cases keyGiven : env.privkey = ""
      · rw [storedChallenge, if_pos (Or.inr keyGiven), node.verbatim] at equal
        exact Or.inr (Or.inl (List.singleton_inj.mp equal))
      · rw [storedChallenge, if_neg (not_or.mpr ⟨challengeGiven, keyGiven⟩)] at equal
        exact Or.inr (Or.inr ⟨keyGiven, equal⟩)
  · intro condition
    have agree : usedChallenge env node = storedChallenge env node := by
      unfold usedChallenge
      split
      · next challengeGiven =>
          unfold storedChallenge
          split
          · rcases condition with missing | same | given
            · exact absurd missing challengeGiven
            · exact same.symm
            · next either => exact absurd either (by simp [challengeGiven, given.1])
          · rfl
      · rfl
    have printed : env.shell.echo (storedChallenge env node) = [storedChallenge env node] := by
      unfold storedChallenge
      split
      · exact node.verbatim
      · next both =>
          rcases condition with missing | same | given
          · exact absurd (Or.inl missing) both
          · rw [← same]
            exact node.verbatim
          · exact given.2
    have pair : belongs (storedChallenge env node) (storedKey env node) := by
      unfold storedChallenge storedKey
      split
      · exact generated
      · next given =>
          rw [not_or] at given
          exact together given.1 given.2
    rw [agree] at whole used
    exact ⟨_, _, _, whole, used, configured.challengeFile.trans (congrArg some printed),
      configured.keyFile, pair⟩

/-- A volume in front of a start: nothing was installed on it, or a start
succeeded. -/
def StartsFrom (env : Environment) (node : TemporaryWallet) (world : World) : Prop :=
  world.files .installDone = none ∧ world.files .privkey = none ∨ Ready env node world

theorem ready_of_start (miner : env.minerenabled = "1") (volume : StartsFrom env node world)
    {outcomes : List Outcome} (successful : Successful env node world outcomes) :
    Ready env node (machine.exec (entrypoint env) world outcomes).1 := by
  have guaranteed : machine.Guarantees (Faithful node) (fun _ => True) (Leaves env node)
      (entrypoint env) world := by
    rcases volume with ⟨unmarked, absent⟩ | ready
    · exact guarantees_firstStart miner unmarked absent
    · exact guarantees_laterStart ready
  exact (guaranteed.sound outcomes successful.faithful).2 _ successful.ended rfl

end Runs

/-! ## A challenge without a key -/

instance (node : TemporaryWallet) (event : Event Command World Outcome) :
    Decidable (Answers node event) := by
  unfold Answers
  split <;> infer_instance

instance (node : TemporaryWallet) (event : Event Command World Outcome) :
    Decidable (Faithful node event) := by
  unfold Faithful Carries Works
  infer_instance

/-- A generated pair. -/
def generatedPair : TemporaryWallet where
  challenge := "5120ab"
  descriptors := ["tr(tprv8/86h/1h/0h/0/*)", "tr(tprv8/86h/1h/0h/1/*)"]
  given := by decide
  hex := by decide

/-- A first start in which everything works and the pair is generated. -/
def generatingStart : List Outcome :=
  List.replicate 11 works ++ { works with output := [generatedPair.challenge] } ::
    List.replicate 2 works ++ { works with output := generatedPair.descriptors } ::
    List.replicate 40 works

/-- The two belong together. -/
def generatedBelongs (challenge : String) (key : List String) : Prop :=
  challenge = generatedPair.challenge ∧ key = generatedPair.descriptors

/-- The volume in front of the next start. -/
def generatedVolume : World :=
  reboot (machine.exec (entrypoint {}) emptyVolume generatingStart).1

/-- An environment with a challenge and no key. -/
def givenChallenge : Environment where
  signetchallenge := "51"

end Setup
end MutinyNet
