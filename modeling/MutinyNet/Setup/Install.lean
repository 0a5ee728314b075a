import MutinyNet.Setup.Configuration

namespace MutinyNet
namespace Setup

open Shell

/-!
# Installation and migration

The scripts a container runs before the node: on an empty volume `install.sh`,
on a volume with `install_done` at most `migrate.sh`.  Apart from the entrypoint
and the imports none of them stops at a failing command.
-/

/-- `echo text > file`. -/
def writeFile (file : File) (lines : List String) (next : Script Command Nat) :
    Script Command Nat :=
  .call (.truncate file) fun reply =>
    if reply.ok then .attempt (.write file lines) next else next

/-- `write_files` of `gen-signet-keys.sh`, without what it prints; its expansions are
not quoted. -/
def writeFiles (shell : Expansion) (signetchallenge addr pubkey : String) : Script Command Nat :=
  writeFile .addr (shell.echo addr) <| writeFile .pubkey (shell.echo pubkey) <|
    writeFile .signetchallenge (shell.echo signetchallenge) (.done 0)

/-- The branch of `gen-signet-keys.sh` that generates a key in a wallet of a
temporary node and appends its descriptors to `PRIVKEY.txt`. -/
def generateKeys (shell : Expansion) : Script Command Nat :=
  .attemptAll [.regtest .removeDatadir, .regtest .makeDatadir, .pkill, .regtest .writeConf,
    .regtest .daemon, .sleep, .regtest .createwallet] <|
  .capture (.regtest .getnewaddress) fun addr =>
  .capture (.regtest (.scriptPubKey (captured addr))) fun signetchallenge =>
  .capture (.regtest (.publicKey (captured addr))) fun pubkey =>
  .call (.openAppend .privkey) fun opened =>
  .capture (.regtest .listdescriptors) fun descriptors =>
  let rest := .attemptAll [.regtest .stop, .regtest .removeDatadir] <|
    writeFiles shell (captured signetchallenge) (captured addr) (captured pubkey)
  if opened.ok then .attempt (.write .privkey descriptors) rest else rest

/-- `gen-signet-keys.sh`. -/
def genSignetKeys (env : Environment) : Script Command Nat :=
  if env.minerenabled = "1" then
    if env.signetchallenge = "" ∨ env.privkey = "" then generateKeys env.shell
    else writeFile .privkey (textLines env.privkey) <|
      writeFile .signetchallenge [env.signetchallenge] <|
        writeFiles env.shell env.signetchallenge "" ""
  else writeFiles env.shell env.signetchallenge "" ""

/-- The end of `setup-signet.sh`: a miner with a modern wallet gets its key. -/
def importIfMiner (env : Environment) : Script Command Nat :=
  .test (.isFile .usesModernWallet)
    (if env.minerenabled = "1" then importSigningKey env.privkeyMode "custom_signet" else .done 0)
    (.done 0)

/-- `setup-signet.sh`. -/
def setupSignet (env : Environment) : Script Command Nat :=
  .attempt .bitcoind <| .attempt (.createwallet "custom_signet") <|
  .test (.isFile .privkey) (importIfMiner env) <|
  writeFile .privkey (textLines env.privKey) (importIfMiner env)

/-- The end of `install.sh`. -/
def finishInstall (env : Environment) : Script Command Nat :=
  let mark := .call (.touch .installDone) fun reply => .done (statusOf reply)
  if env.mineGenesis = "1" then .attempt .mineGenesis mark else mark

/-- `install.sh`. -/
def install (env : Environment) : Script Command Nat :=
  .attempt (.touch .usesModernWallet) <|
  (genSignetKeys env).andThen fun _ =>
  (rewriteConf env).andThen fun _ =>
  (setupSignet env).andThen fun _ => finishInstall env

/-- `migrate.sh`. -/
def migrate : Script Command Nat :=
  .attemptAll [.bitcoind, .sleep] <|
  .test (.migratewallet "custom_signet")
    ((importWifToDescriptor "custom_signet").andThen fun _ =>
      .attemptAll [.touch .usesModernWallet, .stop] <|
      .call .sleep fun reply => .done (statusOf reply))
    (.done 1)

/-- How the entrypoint ends: it becomes its command, or it exits. -/
inductive Ended where
  | exec
  | exited (status : Nat)
  deriving DecidableEq, Repr

/-- `errexit` behind a script. -/
def orExit (script : Script Command Nat) (next : Script Command Ended) : Script Command Ended :=
  script.andThen fun status => if status = 0 then next else .done (.exited status)

/-- `docker-entrypoint.sh`. -/
def entrypoint (env : Environment) : Script Command Ended :=
  .must (.exited 1) .mkdir <|
  .test (.isFile .installDone)
    (.test (.isFile .usesModernWallet)
      (orExit (rewriteConf env) (.done .exec))
      (orExit migrate <| .must (.exited 1) .sleep <| orExit (rewriteConf env) (.done .exec)))
    (orExit (install env) <| .attempt .stop <| .must (.exited 1) .awaitStopped (.done .exec))

/-- A volume on which the container is started again and again. -/
def nextStart (env : Environment) (world : World) (outcomes : List Outcome) : Option World :=
  machine.restart (entrypoint env) reboot world outcomes

end Setup
end MutinyNet
