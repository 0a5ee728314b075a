import MutinyNet.Setup.MinerWallet
import MutinyNet.Shell.Echo

namespace MutinyNet
namespace Setup

open Shell

/-!
# The configuration of the node

`gen-bitcoind-conf.sh` prints `bitcoin.conf` from the environment, one `echo`
after another; its caller redirects it into the file, which is empty before the
first one.  The challenge is the one of the environment, and only if that is
empty the one of `SIGNETCHALLENGE.txt`.
-/

/-- The environment of the container; an empty value stands for a missing one as
well, which no script tells apart.  `shell` is what its working directory and its
`echo` add to a word. -/
structure Environment where
  minerenabled : String := "1"
  mineGenesis : String := "0"
  privkeyMode : String := "descriptor"
  privkey : String := ""
  privKey : String := ""
  signetchallenge : String := ""
  rpcuser : String := "bitcoin"
  rpcpassword : String := "bitcoin"
  cookiefile : String := "false"
  coinstatsindex : String := ""
  uacomment : String := "CustomSignet"
  externalIp : String := ""
  dbcache : String := ""
  maxconnections : String := ""
  blockproductiondelay : String := ""
  zmqpubrawblock : String := "tcp://0.0.0.0:28332"
  zmqpubrawtx : String := "tcp://0.0.0.0:28333"
  zmqpubhashblock : String := "tcp://0.0.0.0:28334"
  rpcbind : String := "0.0.0.0:38332"
  rpcallowip : String := "0.0.0.0/0"
  whitelist : String := ""
  connectnode : String := ""
  addnode : String := ""
  i2psam : String := ""
  onionproxy : String := ""
  torpassword : String := ""
  torcontrol : String := ""
  shell : Expansion := .bare

/-- The entries of a list with commas. -/
def entries (text : String) : List String :=
  (text.toList.splitOn ',').map String.ofList

/-- An `echo` that depends on whether a value is there. -/
def ifSet (value : String) (block : List String) : List (List String) :=
  if value = "" then [] else [block]

/-- The blocks that are printed, one for each `echo`, up to the last but one. -/
def confBlocks (env : Environment) (signetchallenge rpcauth : String) : List (List String) :=
  [["signet=1"]] ++
  [if env.cookiefile = "true" then
    ["rpccookiefile=/root/.bitcoin/.cookie", "rpcauth=" ++ rpcauth]
  else
    ["rpcauth=" ++ rpcauth, "rpcuser=" ++ env.rpcuser, "rpcpassword=" ++ env.rpcpassword]] ++
  [["txindex=1", "blockfilterindex=1", "peerblockfilters=1",
    "coinstatsindex=" ++ (if env.coinstatsindex = "" then "1" else env.coinstatsindex),
    "dnsseed=0", "persistmempool=1", "uacomment=" ++ env.uacomment]] ++
  (if env.externalIp = "" then []
    else (entries env.externalIp).map fun ip => ["externalip=" ++ ip]) ++
  ifSet env.dbcache ["dbcache=" ++ env.dbcache] ++
  ifSet env.maxconnections ["maxconnections=" ++ env.maxconnections] ++
  [["[signet]", "rest=1", "listen=1", "server=1", "acceptnonstdtxn=1", "v2transport=1",
    "discover=1", "signetblocktime=" ++ env.blockproductiondelay,
    "signetchallenge=" ++ signetchallenge, "zmqpubrawblock=" ++ env.zmqpubrawblock,
    "zmqpubrawtx=" ++ env.zmqpubrawtx, "zmqpubhashblock=" ++ env.zmqpubhashblock,
    "rpcbind=" ++ env.rpcbind, "rpcallowip=" ++ env.rpcallowip, "fallbackfee=0.0002",
    "minrelaytxfee=0.00000100", "datacarriersize=100000"]] ++
  ifSet env.whitelist ["whitelist=" ++ env.whitelist] ++
  (if env.connectnode ≠ "" then (entries env.connectnode).map fun node => ["connect=" ++ node]
    else if env.addnode ≠ "" then (entries env.addnode).map fun node => ["addnode=" ++ node]
    else []) ++
  ifSet env.i2psam ["i2psam=" ++ env.i2psam] ++
  ifSet env.onionproxy ["onion=" ++ env.onionproxy] ++
  ifSet env.torpassword ["torpassword=" ++ env.torpassword]

/-- The last block, whose status is the status of the script. -/
def lastBlock (env : Environment) : List (List String) :=
  ifSet env.torcontrol ["torcontrol=" ++ env.torcontrol]

/-- All lines of the file. -/
def confLines (env : Environment) (signetchallenge rpcauth : String) : List String :=
  (confBlocks env signetchallenge rpcauth ++ lastBlock env).flatten

/-- A status of a script. -/
def statusOf (reply : Reply) : Nat :=
  if reply.ok then 0 else 1

/-- The echos of a list of blocks; the status is that of the last one. -/
def echoLast (blocks : List (List String)) : Script Command Nat :=
  match blocks with
  | [] => .done 0
  | block :: _ => .call (.write .bitcoinConf block) fun reply => .done (statusOf reply)

/-- `${SIGNETCHALLENGE:-$(cat ~/.bitcoin/SIGNETCHALLENGE.txt)}`. -/
def chosenChallenge (env : Environment) (next : String -> Script Command Nat) :
    Script Command Nat :=
  if env.signetchallenge ≠ "" then next env.signetchallenge
  else .capture (.cat .signetchallenge) fun lines => next (captured lines)

/-- `gen-bitcoind-conf.sh`, with its output redirected into the file. -/
def genBitcoindConf (env : Environment) : Script Command Nat :=
  chosenChallenge env fun signetchallenge =>
    .capture .rpcauth fun rpcauth =>
      .attemptAll ((confBlocks env signetchallenge (captured rpcauth)).map (.write .bitcoinConf)) <|
        echoLast (lastBlock env)

/-- `gen-bitcoind-conf.sh > bitcoin.conf`; the script does not run if the file
cannot be opened. -/
def rewriteConf (env : Environment) : Script Command Nat :=
  .call (.truncate .bitcoinConf) fun reply =>
    if reply.ok then genBitcoindConf env else .done 1

/-- `bitcoin.conf` was written to its end. -/
def ConfWritten (env : Environment) (world : World) : Prop :=
  Exists fun signetchallenge => Exists fun rpcauth =>
    world.files .bitcoinConf = some (confLines env signetchallenge rpcauth)

/-! ## Writing the file -/

/-- The commands of the script: they write no other file and do not speak to the
node. -/
def ConfOnly (command : Command) : Prop :=
  command = .truncate .bitcoinConf ∨ (Exists fun lines => command = .write .bitcoinConf lines) ∨
    command = .cat .signetchallenge ∨ command = .rpcauth

theorem calls_rewriteConf (env : Environment) : (rewriteConf env).Calls ConfOnly := by
  have blocks : forall challenge rpcauth, (Script.attemptAll
      ((confBlocks env challenge rpcauth).map (Command.write .bitcoinConf))
        (echoLast (lastBlock env))).Calls ConfOnly := by
    intro challenge rpcauth
    apply Script.calls_attemptAll
    · intro command member
      rcases List.mem_map.mp member with ⟨block, -, same⟩
      exact Or.inr (Or.inl ⟨block, same.symm⟩)
    · unfold echoLast
      split
      · trivial
      · exact ⟨Or.inr (Or.inl ⟨_, rfl⟩), fun _ => trivial⟩
  have printed : forall challenge, (Script.capture .rpcauth fun rpcauth => .attemptAll
      ((confBlocks env challenge (captured rpcauth)).map (Command.write .bitcoinConf))
        (echoLast (lastBlock env)) : Script Command Nat).Calls ConfOnly :=
    fun challenge => ⟨Or.inr (Or.inr (Or.inr rfl)), fun _ => blocks challenge _⟩
  refine ⟨Or.inl rfl, ?_⟩
  intro reply
  dsimp only
  split
  · unfold genBitcoindConf chosenChallenge
    split
    · exact printed _
    · exact ⟨Or.inr (Or.inr (Or.inl rfl)), fun _ => printed _⟩
  · trivial

/-- Such a command leaves the wallets and every other file as they are. -/
theorem ConfOnly.keeps {command : Command} (confOnly : ConfOnly command) (world : World)
    (outcome : Outcome) :
    (perform command world outcome).1.wallets = world.wallets ∧
      forall file, file ≠ .bitcoinConf ->
        (perform command world outcome).1.files file = world.files file := by
  rcases confOnly with truncated | ⟨lines, written⟩ | read | asked
  · subst truncated
    constructor
    · change (world.changing outcome _).1.wallets = world.wallets
      unfold World.changing
      split <;> rfl
    · intro file different
      apply perform_files
      intro same
      cases same
      exact different rfl
  · subst written
    constructor
    · change (world.changing outcome _).1.wallets = world.wallets
      unfold World.changing
      split <;> rfl
    · intro file different
      apply perform_files
      intro same
      cases same
      exact different rfl
  · subst read
    constructor
    · change (world.cat _ outcome).1.wallets = world.wallets
      unfold World.cat
      split
      · rfl
      · split <;> rfl
    · intro file _
      apply perform_files
      intro impossible
      cases impossible
  · subst asked
    exact ⟨rfl, fun _ _ => rfl⟩

section Rewrite

variable {env : Environment} {allowed : Event Command World Outcome -> Prop}
  {crash : World -> Prop} {post : Nat -> World -> Prop} {world : World}

variable (works : forall event, allowed event -> event.command.target = some .bitcoinConf ->
    Works event)
  (cut : forall lines, crash (world.setFile .bitcoinConf lines))

include works cut

/-- An echo that works adds its block to the file. -/
theorem guarantees_echo {before block : List String} {next : Reply -> Script Command Nat}
    (goesOn : machine.Guarantees allowed crash post (next { ok := true })
      (world.setFile .bitcoinConf (before ++ block))) :
    machine.Guarantees allowed crash post (.call (.write .bitcoinConf block) next)
      (world.setFile .bitcoinConf before) := by
  refine ⟨cut before, ?_⟩
  intro input first
  have worked := works _ first rfl
  change machine.Guarantees allowed crash post _ (World.changing _ input _).1
  have performed : (machine.perform (.write .bitcoinConf block)
      (world.setFile .bitcoinConf before) input) =
        (world.setFile .bitcoinConf (before ++ block), { ok := true }) := by
    change World.changing _ input _ = _
    rw [World.changing_of_ok _ worked.1, World.appendLines_setFile]
  change machine.Guarantees allowed crash post (next (machine.perform _ _ input).2)
    (machine.perform (.write .bitcoinConf block) (world.setFile .bitcoinConf before) input).1
  rw [performed]
  exact goesOn

theorem guarantees_echoAll {before : List String} {blocks : List (List String)}
    {next : Script Command Nat}
    (goesOn : machine.Guarantees allowed crash post next
      (world.setFile .bitcoinConf (before ++ blocks.flatten))) :
    machine.Guarantees allowed crash post
      (.attemptAll (blocks.map (Command.write .bitcoinConf)) next)
      (world.setFile .bitcoinConf before) := by
  induction blocks generalizing before with
  | nil =>
      rw [List.flatten_nil, List.append_nil] at goesOn
      exact goesOn
  | cons block blocks inductionHypothesis =>
      apply guarantees_echo works cut
      apply inductionHypothesis
      rw [List.flatten_cons, ← List.append_assoc] at goesOn
      exact goesOn

/-- When the file can be opened and written, it ends up complete, with a
challenge that the script could choose. -/
theorem guarantees_rewriteConf (chosen : String -> Prop) (here : crash world)
    (given : env.signetchallenge ≠ "" -> chosen env.signetchallenge)
    (read : env.signetchallenge = "" -> forall input,
      allowed { command := .cat .signetchallenge, world := world.setFile .bitcoinConf [], input } ->
        chosen (captured
          (perform (.cat .signetchallenge) (world.setFile .bitcoinConf []) input).2.output))
    (ended : forall challenge rpcauth, chosen challenge ->
      post 0 (world.setFile .bitcoinConf (confLines env challenge rpcauth))) :
    machine.Guarantees allowed crash post (rewriteConf env) world := by
  refine ⟨here, ?_⟩
  intro input first
  have worked := works _ first rfl
  have opened : machine.perform (.truncate .bitcoinConf) world input =
      (world.setFile .bitcoinConf [], { ok := true }) := by
    change World.changing _ input _ = _
    rw [World.changing, Outcome.effective, worked.1]
    rfl
  rw [opened]
  change machine.Guarantees allowed crash post (genBitcoindConf env) _
  have printed : forall challenge, chosen challenge -> machine.Guarantees allowed crash post
      (.capture .rpcauth fun rpcauth => .attemptAll
        ((confBlocks env challenge (captured rpcauth)).map (Command.write .bitcoinConf))
          (echoLast (lastBlock env))) (world.setFile .bitcoinConf []) := by
    intro challenge choice
    apply Machine.guarantees_capture (cut [])
    intro input _
    apply guarantees_echoAll works cut
    rw [List.nil_append]
    have whole := ended challenge (captured input.output) choice
    unfold confLines at whole
    rw [List.flatten_append] at whole
    unfold echoLast
    cases last : lastBlock env with
    | nil =>
        rw [last, List.flatten_nil, List.append_nil] at whole
        exact whole
    | cons block rest =>
        have single : rest = [] := by
          unfold lastBlock ifSet at last
          split at last
          · cases last
          · exact (List.cons.inj last).2.symm
        rw [last, single, List.flatten_cons, List.flatten_nil, List.append_nil] at whole
        exact guarantees_echo works cut whole
  unfold genBitcoindConf chosenChallenge
  split
  · next set => exact printed _ (given set)
  · next unset =>
      apply Machine.guarantees_capture (cut [])
      intro input first
      have same : (machine.perform (.cat .signetchallenge) (world.setFile .bitcoinConf [])
          input).1 = world.setFile .bitcoinConf [] := by
        change (World.cat _ _ input).1 = _
        unfold World.cat
        split
        · rfl
        · split <;> rfl
      rw [same]
      exact printed _ (read (by simpa using unset) input first)

end Rewrite

end Setup
end MutinyNet
