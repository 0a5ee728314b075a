import MutinyNet.Spark.Volumes

namespace MutinyNet
namespace Spark

open Shell

/-!
# The entrypoint of an operator

`spark-entrypoint.sh` creates the identity and the certificate of the operator
if they are not there, shows both to the other operator, and waits for those of
the other one.  It runs under `errexit` and `pipefail`, so a command that fails
ends it wherever its status is not tested.
-/

/-- How a function of the script ends. -/
inductive Ended where
  | returned
  | exited
  deriving DecidableEq, Repr

/-- The rest of the script, behind a function. -/
def behind (script next : Script Command Ended) : Script Command Ended :=
  script.andThen fun
    | .returned => next
    | .exited => .done .exited

/-- A command under `errexit`. -/
def run (command : Command) (next : Script Command Ended) : Script Command Ended :=
  .must .exited command next

/-- `[ -f file ] && ...`. -/
def ifFiles : List File -> Script Command Ended -> Script Command Ended -> Script Command Ended
  | [], yes, _ => yes
  | file :: files, yes, no => .test (.isFile file) (ifFiles files yes no) no

/-- `$(command)` under `errexit`. -/
def capturing (command : Command) (next : Chars -> Script Command Ended) : Script Command Ended :=
  .call command fun reply => if reply.ok then next (captured reply.output) else .done .exited

/-- `echo text > file` or a here-document. -/
def writeFile (file : File) (chars : Chars) (next : Script Command Ended) : Script Command Ended :=
  run (.openFile file) (run (.write file chars) next)

/-! ## The databases -/

def databases (index : Index) : List String :=
  ["sparkoperator_" ++ toString index.val, "spark_ephemeral_" ++ toString index.val]

def createDatabases : List String -> Script Command Ended -> Script Command Ended
  | [], next => next
  | db :: dbs, next =>
      .test (.databaseExists db) (createDatabases dbs next)
        (run (.createdb db) (createDatabases dbs next))

def runMigrations (index : Index) (next : Script Command Ended) : Script Command Ended :=
  .mustAll .exited ((databases index).map .migrate) next

/-! ## The identity -/

@[simp] def operatorKey (index : Index) : File := .home index .operatorKey

@[simp] def keypair (index : Index) : File := .home index .keypair

@[simp] def pubkey (index : Index) : File := .shared index .pubkey

/-- The end of `ensure_identity`: the public key is shown to the other operator. -/
def publishPubkey (index : Index) : Script Command Ended :=
  capturing (.select "PUBLIC:".toList (keypair index)) fun identity =>
    if identity = [] then .done .exited
    else writeFile (pubkey index) (unlines [identity]) (.done .returned)

/-- The branch of `ensure_identity` that draws a key. -/
def generateIdentity (index : Index) (next : Script Command Ended) : Script Command Ended :=
  run (.openFile (keypair index)) <|
  run (.keygen (keypair index)) <|
  run (.openFile (operatorKey index)) <|
  run (.extract "PRIVATE:".toList (keypair index) (operatorKey index)) <|
  run (.chmod (operatorKey index)) next

/-- `ensure_identity`; the tests for the two files are made as the shell makes
them, from the left and no further than needed. -/
def ensureIdentity (index : Index) : Script Command Ended :=
  let refuse := .done .exited
  let elif := .test (.isFile (operatorKey index))
    (.test (.isFile (keypair index)) (publishPubkey index) refuse) refuse
  .test (.isFile (operatorKey index)) elif <|
  .test (.isFile (keypair index)) elif <|
  generateIdentity index (publishPubkey index)

/-! ## The certificate -/

@[simp] def serverCrt (index : Index) : File := .home index .serverCrt

@[simp] def serverKey (index : Index) : File := .home index .serverKey

@[simp] def serverCrtTmp (index : Index) : File := .home index .serverCrtTmp

@[simp] def serverKeyTmp (index : Index) : File := .home index .serverKeyTmp

@[simp] def serverCrtLegacyCa (index : Index) : File := .home index .serverCrtLegacyCa

@[simp] def serverKeyLegacyCa (index : Index) : File := .home index .serverKeyLegacyCa

@[simp] def sharedCrt (index : Index) : File := .shared index .serverCrt

@[simp] def sharedCrtTmp (index : Index) : File := .shared index .serverCrtTmp

/-- The end of `ensure_tls_cert`: the certificate is shown to the other
operator. -/
def publishCrt (index : Index) : Script Command Ended :=
  run (.copy (serverCrt index) (sharedCrtTmp index)) <|
  run (.move (sharedCrtTmp index) (sharedCrt index)) (.done .returned)

/-- A new key and a new certificate, and the key is put in place first. -/
def generateCrt (index : Index) : Script Command Ended :=
  run (.genrsa (serverKeyTmp index)) <|
  run (.req (serverKeyTmp index) (serverCrtTmp index)) <|
  run (.move (serverKeyTmp index) (serverKey index)) <|
  run (.move (serverCrtTmp index) (serverCrt index)) (publishCrt index)

/-- `[ -f legacy ] || cp -p file legacy`. -/
def backUp (file legacy : File) (next : Script Command Ended) : Script Command Ended :=
  .test (.isFile legacy) next (run (.copy file legacy) next)

/-- `ensure_tls_cert`. -/
def ensureTlsCert (index : Index) : Script Command Ended :=
  let present := [serverCrt index, serverKey index]
  let replace := ifFiles present
    (backUp (serverCrt index) (serverCrtLegacyCa index) <|
      backUp (serverKey index) (serverKeyLegacyCa index) (generateCrt index))
    (generateCrt index)
  ifFiles present (.test (.isCaFalse (serverCrt index)) (publishCrt index) replace) replace

/-! ## The other operator -/

/-- `operators.json`, with the identities of the operators. -/
def operatorsJson (pub0 pub1 : Chars) : Chars :=
  unlines [
    "[".toList,
    "  \x7b".toList,
    "    \"id\": 0,".toList,
    "    \"address\": \"spark:10010\",".toList,
    "    \"external_address\": \"spark:10010\",".toList,
    "    \"identity_public_key\": \"".toList ++ pub0 ++ "\",".toList,
    "    \"cert_path\": \"/home/spark-shared/server_0.crt\"".toList,
    "  \x7d,".toList,
    "  \x7b".toList,
    "    \"id\": 1,".toList,
    "    \"address\": \"spark2:10011\",".toList,
    "    \"external_address\": \"spark2:10011\",".toList,
    "    \"identity_public_key\": \"".toList ++ pub1 ++ "\",".toList,
    "    \"cert_path\": \"/home/spark-shared/server_1.crt\"".toList,
    "  \x7d".toList,
    "]".toList]

@[simp] def operatorsFile (index : Index) : File := .home index .operatorsJson

/-- The waiting loop of `rendezvous_operators`. -/
def awaitPeer : Nat -> Script Command Ended -> Script Command Ended
  | 0, next => next
  | rounds + 1, next =>
      ifFiles [pubkey 0, pubkey 1, sharedCrt 0, sharedCrt 1] next (run .sleep (awaitPeer rounds next))

/-- `rendezvous_operators`. -/
def rendezvousOperators (index : Index) : Script Command Ended :=
  awaitPeer 60 <|
  ifFiles [pubkey 0, pubkey 1]
    (ifFiles [sharedCrt 0, sharedCrt 1]
      (capturing (.cat (pubkey 0)) fun pub0 =>
        capturing (.cat (pubkey 1)) fun pub1 =>
          writeFile (operatorsFile index) (operatorsJson pub0 pub1) (.done .returned))
      (.done .exited))
    (.done .exited)

/-! ## The whole script -/

/-- Up to `ensure_identity`. -/
def prepare (index : Index) (next : Script Command Ended) : Script Command Ended :=
  run .mkdir <| run .waitForDb <| createDatabases (databases index) <| runMigrations index next

/-- Up to the end of `rendezvous_operators`. -/
def startup (index : Index) : Script Command Ended :=
  prepare index <|
  behind (ensureIdentity index) <|
  behind (ensureTlsCert index) <|
  rendezvousOperators index

/-- The loop of `start_frost_signer`. -/
def awaitSocket : Nat -> Script Command Ended -> Script Command Ended
  | 0, next => next
  | rounds + 1, next =>
      .test .isSocket next (.test .isAlive (run .sleep (awaitSocket rounds next)) (.done .exited))

def startFrostSigner (next : Script Command Ended) : Script Command Ended :=
  run .removeSocket <| .attempt .startSigner <|
  awaitSocket 30 <| .test .isSocket next (.done .exited)

/-- `spark-entrypoint.sh`; it returns where it becomes the operator. -/
def entrypoint (index : Index) : Script Command Ended :=
  behind (startup index) <|
  .test .isConfig (run .envsubst (startFrostSigner (.done .returned))) (.done .exited)

/-! ## The files the functions write -/

/-- The command writes to no other file. -/
def Writes (files : List File) (command : Command) : Prop :=
  command.targets ⊆ files

theorem writes_of_targets {files : List File} {command : Command} (none : command.targets = []) :
    Writes files command := by
  unfold Writes
  rw [none]
  exact List.nil_subset files

/-- The files of `ensure_tls_cert`. -/
def crtFiles (index : Index) : List File :=
  [serverCrt index, serverKey index, serverCrtTmp index, serverKeyTmp index, serverCrtLegacyCa index,
    serverKeyLegacyCa index, sharedCrt index, sharedCrtTmp index]

section Calls

variable {index : Index} {property : Command -> Prop} {next yes no : Script Command Ended}

theorem calls_run {command : Command} (first : property command) (rest : next.Calls property) :
    (run command next).Calls property :=
  Script.calls_must first rest

theorem calls_ifFiles {files : List File} (looks : forall file, property (.isFile file))
    (passes : yes.Calls property) (fails : no.Calls property) :
    (ifFiles files yes no).Calls property := by
  induction files with
  | nil => exact passes
  | cons file files inductionHypothesis =>
      refine ⟨looks file, ?_⟩
      intro reply
      dsimp only
      split
      · exact inductionHypothesis
      · exact fails

theorem calls_backUp {file legacy : File} (looks : property (.isFile legacy))
    (copies : property (.copy file legacy)) (rest : next.Calls property) :
    (backUp file legacy next).Calls property := by
  refine ⟨looks, ?_⟩
  intro reply
  dsimp only
  split
  · exact rest
  · exact calls_run copies rest

theorem calls_capturing {command : Command} {rest : Chars -> Script Command Ended}
    (first : property command) (later : forall chars, (rest chars).Calls property) :
    (capturing command rest).Calls property := by
  refine ⟨first, ?_⟩
  intro reply
  dsimp only
  split
  · exact later _
  · trivial

theorem calls_writeFile {file : File} {chars : Chars} (opens : property (.openFile file))
    (writes : property (.write file chars)) (rest : next.Calls property) :
    (writeFile file chars next).Calls property :=
  calls_run opens (calls_run writes rest)

theorem calls_test {command : Command} (first : property command) (passes : yes.Calls property)
    (fails : no.Calls property) : (Script.test command yes no).Calls property := by
  refine ⟨first, ?_⟩
  intro reply
  dsimp only
  split
  · exact passes
  · exact fails

theorem calls_behind {script : Script Command Ended} (first : script.Calls property)
    (rest : next.Calls property) : (behind script next).Calls property := by
  apply Script.calls_andThen first
  intro ended
  cases ended with
  | returned => exact rest
  | exited => trivial

section Silent

variable (silent : forall {command : Command}, command.targets = [] -> property command)

include silent

theorem calls_createDatabases {dbs : List String} (rest : next.Calls property) :
    (createDatabases dbs next).Calls property := by
  induction dbs with
  | nil => exact rest
  | cons db dbs inductionHypothesis =>
      refine ⟨silent rfl, ?_⟩
      intro reply
      dsimp only
      split
      · exact inductionHypothesis
      · exact calls_run (silent rfl) inductionHypothesis

theorem calls_prepare (rest : next.Calls property) : (prepare index next).Calls property := by
  apply calls_run (silent rfl)
  apply calls_run (silent rfl)
  apply calls_createDatabases silent
  apply Script.calls_mustAll _ rest
  intro command member
  rcases List.mem_map.mp member with ⟨db, -, same⟩
  subst same
  exact silent rfl

theorem calls_awaitPeer (rounds : Nat) (rest : next.Calls property) :
    (awaitPeer rounds next).Calls property := by
  induction rounds with
  | zero => exact rest
  | succ rounds inductionHypothesis =>
      exact calls_ifFiles (fun _ => silent rfl) rest (calls_run (silent rfl) inductionHypothesis)

theorem calls_awaitSocket (rounds : Nat) (rest : next.Calls property) :
    (awaitSocket rounds next).Calls property := by
  induction rounds with
  | zero => exact rest
  | succ rounds inductionHypothesis =>
      refine ⟨silent rfl, ?_⟩
      intro reply
      dsimp only
      split
      · exact rest
      · refine ⟨silent rfl, ?_⟩
        intro reply
        dsimp only
        split
        · exact calls_run (silent rfl) inductionHypothesis
        · trivial

theorem calls_startFrostSigner (rest : next.Calls property) :
    (startFrostSigner next).Calls property := by
  apply calls_run (silent rfl)
  refine ⟨silent rfl, fun _ => calls_awaitSocket silent _ ⟨silent rfl, ?_⟩⟩
  intro reply
  dsimp only
  split
  · exact rest
  · trivial

end Silent

theorem calls_ensureIdentity :
    (ensureIdentity index).Calls (Writes [keypair index, operatorKey index, pubkey index]) := by
  have publishes : (publishPubkey index).Calls
      (Writes [keypair index, operatorKey index, pubkey index]) := by
    apply calls_capturing (writes_of_targets rfl)
    intro identity
    split
    · trivial
    · exact calls_writeFile (by simp [Writes]) (by simp [Writes]) trivial
  have elif : (Script.test (.isFile (operatorKey index))
      (.test (.isFile (keypair index)) (publishPubkey index) (.done .exited))
      (.done .exited)).Calls (Writes [keypair index, operatorKey index, pubkey index]) := by
    refine calls_test (writes_of_targets rfl) ?_ trivial
    exact calls_test (writes_of_targets rfl) publishes trivial
  refine calls_test (writes_of_targets rfl) elif ?_
  refine calls_test (writes_of_targets rfl) elif ?_
  apply calls_run (by simp [Writes])
  apply calls_run (by simp [Writes])
  apply calls_run (by simp [Writes])
  apply calls_run (by simp [Writes])
  exact calls_run (writes_of_targets rfl) publishes

theorem calls_ensureTlsCert : (ensureTlsCert index).Calls (Writes (crtFiles index)) := by
  have looks : forall file, Writes (crtFiles index) (.isFile file) := fun _ => writes_of_targets rfl
  have publishes : (publishCrt index).Calls (Writes (crtFiles index)) := by
    apply calls_run (by simp [Writes, crtFiles])
    exact calls_run (by simp [Writes, crtFiles]) trivial
  have generates : (generateCrt index).Calls (Writes (crtFiles index)) := by
    apply calls_run (by simp [Writes, crtFiles])
    apply calls_run (by simp [Writes, crtFiles])
    apply calls_run (by simp [Writes, crtFiles])
    exact calls_run (by simp [Writes, crtFiles]) publishes
  have replaces : (ifFiles [serverCrt index, serverKey index]
      (backUp (serverCrt index) (serverCrtLegacyCa index) <|
        backUp (serverKey index) (serverKeyLegacyCa index) (generateCrt index))
      (generateCrt index)).Calls (Writes (crtFiles index)) := by
    refine calls_ifFiles looks ?_ generates
    apply calls_backUp (looks _) (by simp [Writes, crtFiles])
    exact calls_backUp (looks _) (by simp [Writes, crtFiles]) generates
  apply calls_ifFiles looks
  · exact calls_test (writes_of_targets rfl) publishes replaces
  · exact replaces

theorem calls_rendezvousOperators :
    (rendezvousOperators index).Calls (Writes [operatorsFile index]) := by
  have looks : forall file, Writes [operatorsFile index] (.isFile file) :=
    fun _ => writes_of_targets rfl
  apply calls_awaitPeer writes_of_targets
  apply calls_ifFiles looks
  · apply calls_ifFiles looks
    · apply calls_capturing (writes_of_targets rfl)
      intro pub0
      apply calls_capturing (writes_of_targets rfl)
      intro pub1
      exact calls_writeFile (by simp [Writes]) (by simp [Writes]) trivial
    · trivial
  · trivial

end Calls

/-! ## Preconditions -/

section Rules

variable {W I : Type} {machine : Machine Command W I} {allowed : Event Command W I -> Prop}
  {crash : W -> Prop} {post : Ended -> W -> Prop} {world : W}

/-- A command substitution, given what it captures. -/
theorem guarantees_capturing {command : Command} {next : Chars -> Script Command Ended}
    (cut : crash world)
    (succeeds : forall input, allowed { command, world, input } ->
      (machine.perform command world input).2.ok = true -> forall chars,
        captured (machine.perform command world input).2.output = chars ->
          machine.Guarantees allowed crash post (next chars) (machine.perform command world input).1)
    (fails : forall input, allowed { command, world, input } ->
      post .exited (machine.perform command world input).1) :
    machine.Guarantees allowed crash post (capturing command next) world := by
  refine ⟨cut, ?_⟩
  intro input first
  dsimp only
  split
  · next works => exact succeeds input first works _ rfl
  · exact fails input first

/-- A function, and what follows it if it returns. -/
theorem guarantees_behind {script next : Script Command Ended}
    (guaranteed : machine.Guarantees allowed crash
      (fun ended world => (ended = .returned -> machine.Guarantees allowed crash post next world) ∧
        (ended = .exited -> post .exited world)) script world) :
    machine.Guarantees allowed crash post (behind script next) world := by
  apply Machine.guarantees_andThen.mpr
  apply guaranteed.mono fun _ cut => cut
  intro ended world goesOn
  cases ended with
  | returned => exact goesOn.1 rfl
  | exited => exact goesOn.2 rfl

section Prepare

variable (here : W -> Prop) {next : Script Command Ended}

variable (cuts : forall world, here world -> crash world)
  (ends : forall world, here world -> post .exited world)
  (looks : forall event, event.command.targets = [] -> allowed event -> here event.world ->
    here (machine.after event))

include cuts ends looks

theorem guarantees_run {command : Command} (none : command.targets = [])
    (goesOn : forall world, here world -> machine.Guarantees allowed crash post next world)
    (initially : here world) : machine.Guarantees allowed crash post (run command next) world := by
  apply Machine.guarantees_must (cuts world initially)
  · intro input first _
    exact goesOn _ (looks ⟨command, world, input⟩ none first initially)
  · intro input first _
    exact ends _ (looks ⟨command, world, input⟩ none first initially)

/-- What commands that change nothing keep is still there behind the databases. -/
theorem guarantees_prepare {index : Index}
    (goesOn : forall world, here world -> machine.Guarantees allowed crash post next world)
    (initially : here world) : machine.Guarantees allowed crash post (prepare index next) world := by
  have migrates : forall (dbs : List String) world, here world -> machine.Guarantees allowed crash post
      (.mustAll .exited (dbs.map .migrate) next) world := by
    intro dbs
    induction dbs with
    | nil => exact goesOn
    | cons db dbs inductionHypothesis =>
        intro world initially
        exact guarantees_run here cuts ends looks rfl inductionHypothesis initially
  have creates : forall (dbs : List String) world, here world -> machine.Guarantees allowed crash post
      (createDatabases dbs (runMigrations index next)) world := by
    intro dbs
    induction dbs with
    | nil => exact migrates (databases index)
    | cons db dbs inductionHypothesis =>
        intro world initially
        apply Machine.guarantees_test (cuts world initially)
        · intro input first _
          exact inductionHypothesis _
            (looks ⟨.databaseExists db, world, input⟩ rfl first initially)
        · intro input first _
          exact guarantees_run here cuts ends looks rfl inductionHypothesis
            (looks ⟨.databaseExists db, world, input⟩ rfl first initially)
  apply guarantees_run here cuts ends looks rfl _ initially
  intro world initially
  exact guarantees_run here cuts ends looks rfl (creates _) initially

omit ends in
/-- Nor do tests of files change anything. -/
theorem guarantees_lookFor {files : List File} {yes no : Script Command Ended}
    (passes : forall world, here world -> machine.Guarantees allowed crash post yes world)
    (fails : forall world, here world -> machine.Guarantees allowed crash post no world)
    (initially : here world) :
    machine.Guarantees allowed crash post (ifFiles files yes no) world := by
  induction files generalizing world with
  | nil => exact passes world initially
  | cons file files inductionHypothesis =>
      apply Machine.guarantees_test (cuts world initially)
      · intro input first _
        exact inductionHypothesis (looks ⟨.isFile file, world, input⟩ rfl first initially)
      · intro input first _
        exact fails _ (looks ⟨.isFile file, world, input⟩ rfl first initially)

/-- Nor does the waiting loop. -/
theorem guarantees_awaitPeer {rounds : Nat}
    (goesOn : forall world, here world -> machine.Guarantees allowed crash post next world)
    (initially : here world) :
    machine.Guarantees allowed crash post (awaitPeer rounds next) world := by
  induction rounds generalizing world with
  | zero => exact goesOn world initially
  | succ rounds inductionHypothesis =>
      apply guarantees_lookFor here cuts looks goesOn _ initially
      intro world initially
      exact guarantees_run here cuts ends looks rfl (fun _ => inductionHypothesis) initially

end Prepare

end Rules

end Spark
end MutinyNet
