import MutinyNet.Shell.Guarantee
import MutinyNet.Spark.Secrecy

namespace MutinyNet
namespace Spark

open Shell Python

/-!
# The keys for the environment

`spark-operator-pubkeys.sh` prints the public keys of both operators, which are
copied to the environment of the wallet.  It reads the key pairs from the volumes
and waits for nobody, so it may find a file that is being written or that a start
which was killed has left, and it reads one file after the other.

A key pair is never written again, and an operator that shows itself has all of
it.  So what the script prints are the keys the operators have, whenever it is
run and whatever they do behind it.
-/

/-- `$2` of a line whose `$1` is `PUBLIC`. -/
def publicField (line : Chars) : Option Chars :=
  match line.splitOn ':' with
  | label :: fields => if label = "PUBLIC".toList then some (fields.headD []) else none
  | [] => none

/-- `awk -F: '$1 == "PUBLIC" { print $2 }'`. -/
def awkPublic (chars : Chars) : List Chars :=
  (lines chars).filterMap publicField

def isLowerHexDigit (char : Char) : Bool :=
  ('0' ≤ char && char ≤ '9') || ('a' ≤ char && char ≤ 'f')

/-- `[[ "$P" =~ ^0[23][0-9a-f]{64}$ ]]`. -/
def isPubkey : Chars -> Bool
  | '0' :: sign :: digits =>
      (sign = '2' || sign = '3') && digits.length = 64 && digits.all isLowerHexDigit
  | _ => false

/-- `P0` and `P1`: a file that is not there reads as an empty one. -/
def readPubkey (world : World) (index : Index) : Chars :=
  captured [String.ofList (unlines (awkPublic (world.text (keypair index))))]

/-- `spark-operator-pubkeys.sh`: the line it prints, or its error. -/
def operatorPubkeys (pub0 pub1 : Chars) : Except String Chars :=
  if pub0 = [] ∨ pub1 = [] then
    .error "Operator keys were not found. Start spark and spark2 first."
  else if ¬ isPubkey pub0 ∨ ¬ isPubkey pub1 then
    .error "An operator public key is invalid."
  else .ok ("SO_IDENTITY_PUBKEYS=".toList ++ pub0 ++ ',' :: pub1)

/-! ## How far the operators have got -/

/-- A key pair that is not there, one that is being written and has not been used,
or all of it. -/
inductive Stage (curve : Curve) (index : Index) (world : World) : Prop where
  | fresh (pair : world (keypair index) = none) (key : world (operatorKey index) = none)
      (shared : world (pubkey index) = none)
  | drawn (secret : Nat) (chars : Chars) (pair : world (keypair index) = some (.chars chars))
      (front : chars <+: keypairText curve secret) (key : world (operatorKey index) = none)
      (shared : world (pubkey index) = none)
  | complete (secret : Nat)
      (pair : world (keypair index) = some (.chars (keypairText curve secret)))
      (shared : forall content, world (pubkey index) = some content -> Exists fun chars =>
        content = .chars chars ∧ chars <+: unlines [publicHex curve secret])

/-- The first part of the key that an operator has. -/
def Known (curve : Curve) (world : World) (index : Index) (digits : Chars) : Prop :=
  Exists fun secret => world (keypair index) = some (.chars (keypairText curve secret)) ∧
    digits <+: publicHex curve secret

/-- The volumes of operators that were never given other identities. -/
structure Consistent (curve : Curve) (world : World) : Prop where
  stage : forall index, Stage curve index world
  json : forall index content, world (operatorsFile index) = some content ->
    Exists fun pub0 => Exists fun pub1 => Exists fun chars =>
      (Known curve world 0 pub0 ∧ Known curve world 1 pub1) ∧ chars <+: operatorsJson pub0 pub1 ∧
        content = .chars chars

/-- Key pairs are written to their end, and never again. -/
def Grows (world changed : World) : Prop :=
  forall index chars, world (keypair index) = some (.chars chars) -> Exists fun longer =>
    changed (keypair index) = some (.chars longer) ∧ chars <+: longer

/-- What the operators keep to. -/
def lasting (curve : Curve) : Machine.Compact Index World where
  holds := Consistent curve
  rely index world changed := Consistent curve changed ∧ Grows world changed ∧
    forall file, file.owner = index -> changed file = world file
  does index world changed := Consistent curve changed ∧ Grows world changed ∧
    forall file, file.owner ≠ index -> changed file = world file

variable {curve : Curve} {index : Index} {world changed later : World} {chars digits : Chars}
  {secret : Nat}

theorem Grows.of_same (same : forall index, changed (keypair index) = world (keypair index)) :
    Grows world changed :=
  fun index chars there => ⟨chars, (same index).trans there, List.prefix_refl chars⟩

theorem Grows.trans (first : Grows world changed) (second : Grows changed later) :
    Grows world later := by
  intro index chars there
  rcases first index chars there with ⟨longer, behind, front⟩
  rcases second index longer behind with ⟨longest, last, rest⟩
  exact ⟨longest, last, front.trans rest⟩

/-! ## A complete key pair -/

/-- A key pair with both line breaks is not the first part of another text. -/
theorem keypairText_of_front {other : Nat}
    (front : keypairText curve secret <+: keypairText curve other) :
    keypairText curve secret = keypairText curve other := by
  rcases front_cases front with inPrivate | ⟨part, inPublic, joined⟩ | same
  · have member : '\n' ∈ keypairText curve secret := by
      rw [keypairText_eq]
      simp
    exact absurd (inPrivate.subset member) break_not_mem_privateLine
  · rw [keypairText_eq] at joined
    have lines := congrArg Spark.lines joined
    rw [← keypairText_eq, lines_keypairText, lines_of_public inPublic] at lines
    split at lines
    · simp at lines
    · have privates : privateLine secret = privateLine other := (List.cons.inj lines).1
      have publics : publicLine curve secret = part := (List.cons.inj (List.cons.inj lines).2).1
      rw [← publics, privates] at joined
      have lengths := congrArg List.length joined
      simp only [List.length_append, List.length_cons] at lengths
      omega
  · exact same

theorem publicHex_of_keypairText {other : Nat}
    (same : keypairText curve secret = keypairText curve other) :
    publicHex curve secret = publicHex curve other := by
  have lines := congrArg Spark.lines same
  rw [lines_keypairText, lines_keypairText] at lines
  have publics := (List.cons.inj (List.cons.inj lines).2).1
  exact List.append_cancel_left publics

/-- What is known of a key pair that is complete. -/
theorem Stage.shows (stage : Stage curve index world)
    (pair : world (keypair index) = some (.chars (keypairText curve secret))) :
    forall content, world (pubkey index) = some content -> Exists fun chars =>
      content = .chars chars ∧ chars <+: unlines [publicHex curve secret] := by
  intro content there
  cases stage with
  | fresh _ _ shared | drawn _ _ _ _ _ shared =>
      rw [shared] at there
      cases there
  | complete other known shared =>
      have same : keypairText curve other = keypairText curve secret := by
        have contents := known.symm.trans pair
        simpa using contents
      rcases shared content there with ⟨chars, shown, front⟩
      rw [publicHex_of_keypairText same] at front
      exact ⟨chars, shown, front⟩

theorem Grows.complete (grows : Grows world changed) (stage : Stage curve index changed)
    (pair : world (keypair index) = some (.chars (keypairText curve secret))) :
    changed (keypair index) = some (.chars (keypairText curve secret)) := by
  rcases grows index _ pair with ⟨longer, there, front⟩
  have complete : longer = keypairText curve secret := by
    cases stage with
    | fresh absent =>
        rw [absent] at there
        cases there
    | drawn other chars known inside =>
        have same : chars = longer := by
          have contents := known.symm.trans there
          simpa using contents
        subst same
        have whole := keypairText_of_front (front.trans inside)
        exact (inside.eq_of_length_le (by rw [← whole]; exact front.length_le)).trans whole.symm
    | complete other known =>
        have same : keypairText curve other = longer := by
          have contents := known.symm.trans there
          simpa using contents
        subst same
        exact (keypairText_of_front front).symm
  rw [there, complete]

theorem Known.grow (known : Known curve world index digits) (grows : Grows world changed)
    (stage : Stage curve index changed) : Known curve changed index digits := by
  rcases known with ⟨secret, pair, front⟩
  exact ⟨secret, grows.complete stage pair, front⟩

/-! ## What a command leaves consistent -/

/-- The identity of an operator is as it was. -/
theorem Stage.of_same (stage : Stage curve index world)
    (pair : changed (keypair index) = world (keypair index))
    (key : changed (operatorKey index) = world (operatorKey index))
    (shared : changed (pubkey index) = world (pubkey index)) : Stage curve index changed := by
  cases stage with
  | fresh noPair noKey unshown =>
      exact .fresh (pair.trans noPair) (key.trans noKey) (shared.trans unshown)
  | drawn secret chars there front noKey unshown =>
      exact .drawn secret chars (pair.trans there) front (key.trans noKey) (shared.trans unshown)
  | complete secret there shown =>
      refine .complete secret (pair.trans there) ?_
      rw [shared]
      exact shown

/-- A command of an operator on files of its own. -/
theorem does_of_stage {command : Command} (outcome : Outcome) (consistent : Consistent curve world)
    (owned : forall file, file ∈ command.targets -> file.owner = index)
    (other : operatorsFile index ∉ command.targets)
    (stage : Stage curve index (perform curve command world outcome).1)
    (grows : forall chars, world (keypair index) = some (.chars chars) -> Exists fun longer =>
      (perform curve command world outcome).1 (keypair index) = some (.chars longer) ∧
        chars <+: longer) :
    (lasting curve).does index world (perform curve command world outcome).1 := by
  have frame : forall file, file.owner ≠ index ->
      (perform curve command world outcome).1 file = world file := by
    intro file different
    exact perform_of_not_mem (fun member => different (owned file member)) curve world outcome
  have allGrow : Grows world (perform curve command world outcome).1 := by
    intro place chars there
    by_cases same : place = index
    · subst same
      exact grows chars there
    · exact ⟨chars, (frame (keypair place) same).trans there, List.prefix_refl chars⟩
  have stages : forall place, Stage curve place (perform curve command world outcome).1 := by
    intro place
    by_cases same : place = index
    · subst same
      exact stage
    · exact (consistent.stage place).of_same (frame (keypair place) same)
        (frame (operatorKey place) same) (frame (pubkey place) same)
  refine ⟨⟨stages, ?_⟩, allGrow, frame⟩
  intro place content there
  have same : (perform curve command world outcome).1 (operatorsFile place) =
      world (operatorsFile place) := by
    by_cases own : place = index
    · subst own
      exact perform_of_not_mem other curve world outcome
    · exact frame (operatorsFile place) own
  rw [same] at there
  rcases consistent.json place content there with ⟨pub0, pub1, chars, both, written, shape⟩
  exact ⟨pub0, pub1, chars, ⟨both.1.grow allGrow (stages 0), both.2.grow allGrow (stages 1)⟩,
    written, shape⟩

theorem does_self (consistent : Consistent curve world) : (lasting curve).does index world world :=
  ⟨consistent, Grows.of_same fun _ => rfl, fun _ _ => rfl⟩

theorem does_of_targets {command : Command} (none : command.targets = []) (outcome : Outcome)
    (consistent : Consistent curve world) :
    (lasting curve).does index world (perform curve command world outcome).1 := by
  rw [perform_of_targets none]
  exact does_self consistent

/-- A command that leaves the identities and `operators.json` alone. -/
theorem does_of_writes {files : List File} {command : Command} (outcome : Outcome)
    (consistent : Consistent curve world) (writes : Writes files command)
    (owned : forall file, file ∈ files -> file.owner = index) (pair : keypair index ∉ files)
    (key : operatorKey index ∉ files) (shared : pubkey index ∉ files)
    (json : operatorsFile index ∉ files) :
    (lasting curve).does index world (perform curve command world outcome).1 := by
  have kept : forall {file : File}, file ∉ files ->
      (perform curve command world outcome).1 file = world file :=
    fun absent => perform_of_not_mem (fun member => absent (writes member)) curve world outcome
  apply does_of_stage outcome consistent fun file member => owned file (writes member)
  · exact fun member => json (writes member)
  · exact (consistent.stage index).of_same (kept pair) (kept key) (kept shared)
  · intro chars there
    exact ⟨chars, (kept pair).trans there, List.prefix_refl chars⟩

/-- A command that writes to the private key behind a complete key pair. -/
theorem does_of_key {command : Command} (outcome : Outcome) (consistent : Consistent curve world)
    (pair : world (keypair index) = some (.chars (keypairText curve secret)))
    (writes : Writes [operatorKey index] command) :
    (lasting curve).does index world (perform curve command world outcome).1 ∧
      (perform curve command world outcome).1 (keypair index) =
        some (.chars (keypairText curve secret)) := by
  have kept : forall {file : File}, file ≠ operatorKey index ->
      (perform curve command world outcome).1 file = world file := by
    intro file different
    exact perform_of_not_mem (fun member => different (List.mem_singleton.mp (writes member))) curve
      world outcome
  have still := (@kept (keypair index) (by simp)).trans pair
  refine ⟨does_of_stage outcome consistent ?_ ?_ (.complete secret still ?_) ?_, still⟩
  · intro file member
    rw [List.mem_singleton.mp (writes member)]
    rfl
  · intro member
    simpa using writes member
  · rw [kept (by simp)]
    exact (consistent.stage index).shows pair
  · intro chars there
    exact ⟨chars, (kept (by simp)).trans there, List.prefix_refl chars⟩

/-- A command with one target changes nothing else. -/
theorem perform_of_ne {command : Command} {file other : File} (targets : command.targets = [file])
    (different : other ≠ file) (curve : Curve) (world : World) (outcome : Outcome) :
    (perform curve command world outcome).1 other = world other := by
  apply perform_of_not_mem
  rw [targets]
  exact fun member => different (List.mem_singleton.mp member)

theorem owner_of_targets {command : Command} {file : File} (targets : command.targets = [file])
    (owned : file.owner = index) :
    forall other, other ∈ command.targets -> other.owner = index := by
  intro other member
  rw [targets] at member
  rw [List.mem_singleton.mp member]
  exact owned

/-- A file of a public key that gets the first part of its line. -/
theorem does_of_show {command : Command} (outcome : Outcome) (consistent : Consistent curve world)
    (pair : world (keypair index) = some (.chars (keypairText curve secret)))
    (targets : command.targets = [pubkey index])
    (front : chars <+: unlines [publicHex curve secret])
    (done : (perform curve command world outcome).1 (pubkey index) = some (.chars chars)) :
    (lasting curve).does index world (perform curve command world outcome).1 := by
  have still : (perform curve command world outcome).1 (keypair index) =
      some (.chars (keypairText curve secret)) :=
    (perform_of_ne targets (by simp) curve world outcome).trans pair
  apply does_of_stage outcome consistent (@owner_of_targets index _ _ targets rfl)
  · rw [targets]
    simp
  · refine .complete secret still ?_
    intro content there
    rw [done] at there
    cases there
    exact ⟨chars, rfl, front⟩
  · intro other there
    rw [pair] at there
    cases there
    exact ⟨_, still, List.prefix_refl _⟩

/-- A key pair that is not in use gets the first part of its text. -/
theorem does_of_draw {command : Command} (outcome : Outcome) (consistent : Consistent curve world)
    (pair : world (keypair index) = none ∨ world (keypair index) = some (.chars []))
    (key : world (operatorKey index) = none) (shared : world (pubkey index) = none)
    (targets : command.targets = [keypair index])
    (front : chars <+: keypairText curve secret)
    (done : (perform curve command world outcome).1 (keypair index) = some (.chars chars)) :
    (lasting curve).does index world (perform curve command world outcome).1 := by
  apply does_of_stage outcome consistent (@owner_of_targets index _ _ targets rfl)
  · rw [targets]
    simp
  · exact .drawn secret chars done front
      ((perform_of_ne targets (by simp) curve world outcome).trans key)
      ((perform_of_ne targets (by simp) curve world outcome).trans shared)
  · intro other there
    refine ⟨chars, done, ?_⟩
    rcases pair with absent | empty
    · rw [absent] at there
      cases there
    · rw [empty] at there
      cases there
      exact List.nil_prefix

/-- An `operators.json` that gets the first part of its text. -/
theorem does_of_json {command : Command} {pub0 pub1 : Chars} (outcome : Outcome)
    (consistent : Consistent curve world)
    (known : Known curve world 0 pub0 ∧ Known curve world 1 pub1)
    (targets : command.targets = [operatorsFile index])
    (front : chars <+: operatorsJson pub0 pub1)
    (done : (perform curve command world outcome).1 (operatorsFile index) = some (.chars chars)) :
    (lasting curve).does index world (perform curve command world outcome).1 := by
  have kept : forall {file : File}, file ≠ operatorsFile index ->
      (perform curve command world outcome).1 file = world file :=
    fun different => perform_of_ne targets different curve world outcome
  have stages : forall place, Stage curve place (perform curve command world outcome).1 :=
    fun place => (consistent.stage place).of_same (kept (by simp)) (kept (by simp)) (kept (by simp))
  have grows : Grows world (perform curve command world outcome).1 :=
    Grows.of_same fun _ => kept (by simp)
  have still : forall {place : Index} {digits : Chars}, Known curve world place digits ->
      Known curve (perform curve command world outcome).1 place digits :=
    fun known => known.grow grows (stages _)
  refine ⟨⟨stages, ?_⟩, grows, ?_⟩
  · intro place content there
    by_cases same : place = index
    · subst same
      rw [done] at there
      cases there
      exact ⟨pub0, pub1, chars, ⟨still known.1, still known.2⟩, front, rfl⟩
    · rw [kept (by simpa using same)] at there
      rcases consistent.json place content there with ⟨other0, other1, text, both, written, shape⟩
      exact ⟨other0, other1, text, ⟨still both.1, still both.2⟩, written, shape⟩
  · intro file different
    exact kept fun same => different (by rw [same]; rfl)

/-! ## One operator among both -/

/-- A script of an operator, from the worlds of its last command on. -/
abbrev Secures (curve : Curve) (index : Index) (script : Script Command Ended)
    (worlds : World × World) : Prop :=
  (lasting curve).Secures (machine curve) index script worlds

/-- The last command did what it may. -/
abbrev Done (curve : Curve) (index : Index) (worlds : World × World) : Prop :=
  (lasting curve).does index worlds.1 worlds.2

variable {worlds : World × World} {script next : Script Command Ended}

theorem secures_done {ended : Ended} (worlds : World × World) (done : Done curve index worlds) :
    Secures curve index (.done ended) worlds :=
  done

/-- Commands without targets do nothing. -/
theorem done_of_look (event : Event Command (World × World) (World × Outcome))
    (none : event.command.targets = [])
    (allowed : (lasting curve).rely index event.world.2 event.input.1)
    (_ : Done curve index event.world) : Done curve index ((machine curve).paired.after event) :=
  does_of_targets none event.input.2 allowed.1

theorem secures_isFile {file : File} {yes no : Script Command Ended}
    (done : Done curve index worlds)
    (passes : forall found, Consistent curve found -> (lasting curve).rely index worlds.2 found ->
      (found file).isSome = true -> Secures curve index yes (found, found))
    (fails : forall found, Consistent curve found -> (lasting curve).rely index worlds.2 found ->
      (found file).isSome = false -> Secures curve index no (found, found)) :
    Secures curve index (.test (.isFile file) yes no) worlds := by
  apply Machine.guarantees_test done
  · rintro ⟨found, outcome⟩ rely there
    exact passes found rely.1 rely there
  · rintro ⟨found, outcome⟩ rely missing
    exact fails found rely.1 rely missing

/-- A command whose effect on what is known is known. -/
theorem secures_run {command : Command} {fact after : World -> Prop}
    (stable : forall world changed, (lasting curve).rely index world changed -> fact world ->
      fact changed)
    (does : forall found outcome, Consistent curve found -> fact found ->
      (lasting curve).does index found (perform curve command found outcome).1)
    (known : forall found outcome, Consistent curve found -> fact found ->
      (perform curve command found outcome).2.ok = true ->
        after (perform curve command found outcome).1)
    (goesOn : forall worlds, Done curve index worlds -> after worlds.2 ->
      Secures curve index next worlds)
    (done : Done curve index worlds) (before : fact worlds.2) :
    Secures curve index (run command next) worlds := by
  apply Machine.guarantees_must done
  · rintro ⟨found, outcome⟩ allowed works
    have here := stable _ _ allowed before
    exact goesOn _ (does found outcome allowed.1 here) (known found outcome allowed.1 here works)
  · rintro ⟨found, outcome⟩ allowed _
    exact does found outcome allowed.1 (stable _ _ allowed before)

theorem secures_behind (first : Secures curve index script worlds)
    (later : forall worlds, Done curve index worlds -> Secures curve index next worlds) :
    Secures curve index (behind script next) worlds := by
  apply guarantees_behind
  apply first.mono fun _ cut => cut
  intro ended worlds done
  exact ⟨fun _ => later worlds done, fun _ => done⟩

/-- A redirection to a file of the operator, and what is printed into it. -/
theorem secures_redirect {file : File} {prints : Command} {fact after : World -> Prop}
    (stable : forall world changed, (lasting curve).rely index world changed -> fact world ->
      fact changed)
    (owned : file.owner = index)
    (opens : forall found outcome, Consistent curve found -> fact found ->
      outcome.effective = true ->
        (lasting curve).does index found (perform curve (.openFile file) found outcome).1)
    (known : forall found outcome, fact found ->
      fact (perform curve (.openFile file) found outcome).1)
    (does : forall found outcome, Consistent curve found -> fact found ->
      found file = some (.chars []) ->
        (lasting curve).does index found (perform curve prints found outcome).1)
    (printed : forall found outcome, fact found -> found file = some (.chars []) ->
      (perform curve prints found outcome).2.ok = true ->
        after (perform curve prints found outcome).1)
    (goesOn : forall worlds, Done curve index worlds -> after worlds.2 ->
      Secures curve index next worlds)
    (done : Done curve index worlds) (before : fact worlds.2) :
    Secures curve index (run (.openFile file) (run prints next)) worlds := by
  have opening : forall found outcome, Consistent curve found -> fact found ->
      (lasting curve).does index found (perform curve (.openFile file) found outcome).1 := by
    intro found outcome consistent here
    cases effective : outcome.effective with
    | true => exact opens found outcome consistent here effective
    | false =>
        rw [openFile_eq, effective]
        exact does_self consistent
  apply @secures_run curve index _ _ _ fact
    (fun world => fact world ∧ world file = some (.chars [])) stable opening _ _ done before
  · intro found outcome _ here opened
    exact ⟨known found outcome here,
      emptied_of_effective curve file found (Outcome.effective_of_ok opened)⟩
  · intro worlds done here
    apply @secures_run curve index _ _ _ (fun world => fact world ∧ world file = some (.chars []))
      after _ _ _ goesOn done here
    · intro world changed rely here
      exact ⟨stable world changed rely here.1, (rely.2.2 file owned).trans here.2⟩
    · intro found outcome consistent here
      exact does found outcome consistent here.1 here.2
    · intro found outcome _ here works
      exact printed found outcome here.1 here.2 works

/-- A text that is printed to an emptied file, or its first part. -/
theorem printing_of_empty {file : File} {text : Chars} {outcome : Outcome}
    (emptied : world file = some (.chars [])) :
    Exists fun part => part <+: text ∧
      (world.printing file text outcome) file = some (.chars part) ∧
        (outcome.ok = true -> part = text) := by
  refine ⟨if outcome.ok then text else text.take outcome.written, ?_, ?_, ?_⟩
  · split
    · exact List.prefix_refl text
    · exact List.take_prefix _ _
  · rw [World.printing, World.put_self, World.text_eq emptied, List.nil_append]
  · exact fun ok => if_pos ok

/-! ## The identity -/

/-- The operator has all of its key pair. -/
def Complete (curve : Curve) (index : Index) (secret : Nat) (world : World) : Prop :=
  world (keypair index) = some (.chars (keypairText curve secret))

theorem Complete.stable (world changed : World) (rely : (lasting curve).rely index world changed)
    (complete : Complete curve index secret world) : Complete curve index secret changed :=
  (rely.2.2 (keypair index) rfl).trans complete

theorem secures_publishPubkey (done : Done curve index worlds)
    (complete : Complete curve index secret worlds.2) :
    Secures curve index (publishPubkey index) worlds := by
  apply guarantees_capturing done
  · rintro ⟨found, outcome⟩ allowed works identity read
    have pair : Complete curve index secret found := Complete.stable _ _ allowed complete
    have right : identity = publicHex curve secret := by
      have output : captured [String.ofList (unlines (fields "PUBLIC:".toList
          (found.text (keypair index))))] = identity := read
      rw [World.text_eq pair, fields_public, captured_publicHex] at output
      exact output.symm
    subst right
    rw [if_neg publicHex_ne_nil]
    apply @secures_redirect curve index _ _ (pubkey index) _ (Complete curve index secret)
      (fun _ => True) Complete.stable rfl _ _ _ (fun _ _ _ _ _ => trivial)
      (fun worlds done _ => secures_done worlds done) (does_of_targets rfl outcome allowed.1) pair
    · intro found outcome consistent complete effective
      exact does_of_show outcome consistent complete rfl List.nil_prefix
        (emptied_of_effective curve (pubkey index) found effective)
    · intro found outcome complete
      exact (perform_of_not_mem (by simp) curve found outcome).trans complete
    · intro found outcome consistent complete emptied
      rcases printing_of_empty emptied with ⟨part, front, written, -⟩
      exact does_of_show outcome consistent complete rfl front written
  · rintro ⟨found, outcome⟩ allowed
    exact does_of_targets rfl outcome allowed.1

/-- There is no identity, or only the file for the key pair. -/
structure Undrawn (index : Index) (world : World) : Prop where
  pair : world (keypair index) = none ∨ world (keypair index) = some (.chars [])
  key : world (operatorKey index) = none
  shared : world (pubkey index) = none

theorem Undrawn.stable (world changed : World) (rely : (lasting curve).rely index world changed)
    (undrawn : Undrawn index world) : Undrawn index changed where
  pair := by
    rw [rely.2.2 (keypair index) rfl]
    exact undrawn.pair
  key := (rely.2.2 (operatorKey index) rfl).trans undrawn.key
  shared := (rely.2.2 (pubkey index) rfl).trans undrawn.shared

theorem secures_generateIdentity (done : Done curve index worlds)
    (undrawn : Undrawn index worlds.2) :
    Secures curve index (generateIdentity index (publishPubkey index)) worlds := by
  apply @secures_redirect curve index _ _ (keypair index) _ (Undrawn index)
    (fun world => Exists fun secret => Complete curve index secret world) Undrawn.stable rfl _ _ _ _
    _ done undrawn
  · intro found outcome consistent undrawn effective
    exact @does_of_draw curve index found [] 0 _ outcome consistent undrawn.pair undrawn.key
      undrawn.shared rfl List.nil_prefix
      (emptied_of_effective curve (keypair index) found effective)
  · intro found outcome undrawn
    refine ⟨?_, ?_, ?_⟩
    · rw [openFile_eq]
      split
      · exact Or.inr (World.put_self _ _ _)
      · exact undrawn.pair
    · exact (perform_of_not_mem (by simp) curve found outcome).trans undrawn.key
    · exact (perform_of_not_mem (by simp) curve found outcome).trans undrawn.shared
  · intro found outcome consistent undrawn emptied
    rcases printing_of_empty emptied with ⟨part, front, written, -⟩
    exact does_of_draw outcome consistent undrawn.pair undrawn.key undrawn.shared rfl front written
  · intro found outcome undrawn emptied works
    rcases printing_of_empty emptied with ⟨part, front, written, whole⟩
    rw [whole works] at written
    exact ⟨outcome.secret, written⟩
  · rintro worlds done ⟨secret, complete⟩
    have keeps : forall {command : Command}, Writes [operatorKey index] command ->
        forall {next : Script Command Ended},
        (forall worlds, Done curve index worlds -> Complete curve index secret worlds.2 ->
          Secures curve index next worlds) ->
        forall worlds, Done curve index worlds -> Complete curve index secret worlds.2 ->
          Secures curve index (run command next) worlds := by
      intro command writes next goesOn worlds done complete
      apply @secures_run curve index _ _ _ (Complete curve index secret)
        (Complete curve index secret) Complete.stable _ _ goesOn done complete
      · intro found outcome consistent complete
        exact (does_of_key outcome consistent complete writes).1
      · intro found outcome consistent complete _
        exact (does_of_key outcome consistent complete writes).2
    apply keeps (List.Subset.refl _) _ worlds done complete
    apply keeps (List.Subset.refl _)
    apply keeps (writes_of_targets rfl)
    exact fun _ => secures_publishPubkey

/-- `ensure_identity`. -/
theorem secures_ensureIdentity (done : Done curve index worlds) :
    Secures curve index (ensureIdentity index) worlds := by
  have elif : forall worlds, Done curve index worlds -> Secures curve index
      (.test (.isFile (operatorKey index))
        (.test (.isFile (keypair index)) (publishPubkey index) (.done .exited)) (.done .exited))
      worlds := by
    intro worlds done
    apply secures_isFile done
    · intro found consistent _ there
      have complete : Exists fun secret => Complete curve index secret found := by
        cases consistent.stage index with
        | fresh _ key | drawn _ _ _ _ key =>
            rw [key] at there
            cases there
        | complete secret pair => exact ⟨secret, pair⟩
      rcases complete with ⟨secret, complete⟩
      apply secures_isFile (does_self consistent)
      · intro found' consistent' rely _
        exact secures_publishPubkey (does_self consistent') (Complete.stable _ _ rely complete)
      · intro found' consistent' _ _
        exact does_self consistent'
    · intro found consistent _ _
      exact does_self consistent
  apply secures_isFile done
  · intro found consistent _ _
    exact elif _ (does_self consistent)
  · intro found consistent _ _
    apply secures_isFile (does_self consistent)
    · intro found' consistent' _ _
      exact elif _ (does_self consistent')
    · intro found' consistent' _ missing
      have absent : found' (keypair index) = none := by
        rw [← Option.not_isSome_iff_eq_none, missing]
        simp
      apply secures_generateIdentity (does_self consistent')
      cases consistent'.stage index with
      | fresh pair key shared => exact ⟨Or.inl pair, key, shared⟩
      | drawn _ _ pair | complete _ pair =>
          rw [absent] at pair
          cases pair

/-! ## The certificate and the other operator -/

/-- A script that writes to other files. -/
theorem secures_of_writes {files : List File} (calls : script.Calls (Writes files))
    (owned : forall file, file ∈ files -> file.owner = index) (pair : keypair index ∉ files)
    (key : operatorKey index ∉ files) (shared : pubkey index ∉ files)
    (json : operatorsFile index ∉ files) (done : Done curve index worlds) :
    Secures curve index script worlds := by
  apply Machine.guarantees_of_invariant (Done curve index) calls
  · rintro ⟨command, before, found, outcome⟩ writes rely -
    exact does_of_writes outcome rely.1 writes owned pair key shared json
  · intro worlds done
    exact done
  · intro ended worlds done
    exact done
  · exact done

/-- A read of a public key: the operator it belongs to has all of its key pair. -/
theorem secures_cat {other : Index} {rest : Chars -> Script Command Ended}
    (goesOn : forall digits found, Consistent curve found ->
      (lasting curve).rely index worlds.2 found -> Known curve found other digits ->
        Secures curve index (rest digits) (found, found))
    (done : Done curve index worlds) :
    Secures curve index (capturing (.cat (pubkey other)) rest) worlds := by
  apply guarantees_capturing done
  · rintro ⟨found, outcome⟩ rely works chars read
    have consistent : Consistent curve found := rely.1
    have there : (found (pubkey other)).isSome = true := (Bool.and_eq_true_iff.mp works).2
    rcases Option.isSome_iff_exists.mp there with ⟨content, shown⟩
    apply goesOn chars found consistent rely
    cases consistent.stage other with
    | fresh _ _ shared | drawn _ _ _ _ _ shared =>
        rw [shown] at shared
        cases shared
    | complete secret pair shared =>
        rcases shared content shown with ⟨text, same, written⟩
        subst same
        have output : captured [String.ofList (found.text (pubkey other))] = chars := read
        rw [World.text_eq shown] at output
        rw [← output]
        exact ⟨secret, pair, captured_of_front (List.prefix_refl _) written⟩
  · rintro ⟨found, outcome⟩ rely
    exact does_of_targets rfl outcome rely.1

/-- Both operators have keys that start with these digits. -/
def BothKnown (curve : Curve) (pub0 pub1 : Chars) (world : World) : Prop :=
  Known curve world 0 pub0 ∧ Known curve world 1 pub1

theorem BothKnown.stable {pub0 pub1 : Chars} (world changed : World)
    (rely : (lasting curve).rely index world changed) (known : BothKnown curve pub0 pub1 world) :
    BothKnown curve pub0 pub1 changed :=
  ⟨known.1.grow rely.2.1 (rely.1.stage 0), known.2.grow rely.2.1 (rely.1.stage 1)⟩

theorem secures_writeJson {pub0 pub1 : Chars} (done : Done curve index worlds)
    (known : BothKnown curve pub0 pub1 worlds.2) :
    Secures curve index
      (writeFile (operatorsFile index) (operatorsJson pub0 pub1) (.done .returned)) worlds := by
  apply @secures_redirect curve index _ _ (operatorsFile index) _ (BothKnown curve pub0 pub1)
    (fun _ => True) BothKnown.stable rfl _ _ _ (fun _ _ _ _ _ => trivial)
    (fun worlds done _ => secures_done worlds done) done known
  · intro found outcome consistent known effective
    exact does_of_json outcome consistent known rfl List.nil_prefix
      (emptied_of_effective curve (operatorsFile index) found effective)
  · intro found outcome known
    have kept : forall place, (perform curve (.openFile (operatorsFile index)) found outcome).1
        (keypair place) = found (keypair place) :=
      fun place => perform_of_not_mem (by simp) curve found outcome
    rcases known with ⟨⟨secret0, pair0, front0⟩, ⟨secret1, pair1, front1⟩⟩
    exact ⟨⟨secret0, (kept 0).trans pair0, front0⟩, ⟨secret1, (kept 1).trans pair1, front1⟩⟩
  · intro found outcome consistent known emptied
    rcases printing_of_empty emptied with ⟨part, front, written, -⟩
    exact does_of_json outcome consistent known rfl front written

/-- `rendezvous_operators`. -/
theorem secures_rendezvousOperators (done : Done curve index worlds) :
    Secures curve index (rendezvousOperators index) worlds := by
  have cuts : forall worlds, Done curve index worlds -> Done curve index worlds :=
    fun _ done => done
  apply guarantees_awaitPeer (Done curve index) cuts cuts done_of_look _ done
  intro worlds done
  apply guarantees_lookFor (Done curve index) cuts done_of_look _ secures_done done
  intro worlds done
  apply guarantees_lookFor (Done curve index) cuts done_of_look _ secures_done done
  intro worlds done
  apply secures_cat _ done
  intro pub0 found consistent _ known0
  apply secures_cat _ (does_self consistent)
  intro pub1 found' consistent' rely known1
  exact secures_writeJson (does_self consistent')
    ⟨known0.grow rely.2.1 (consistent'.stage 0), known1⟩

/-! ## Both operators -/

theorem secures_entrypoint (consistent : Consistent curve world) :
    Secures curve index (entrypoint index) (world, world) := by
  have cuts : forall worlds, Done curve index worlds -> Done curve index worlds :=
    fun _ done => done
  have certificate : forall worlds, Done curve index worlds ->
      Secures curve index (ensureTlsCert index) worlds := by
    intro worlds done
    exact secures_of_writes calls_ensureTlsCert (by simp [crtFiles, File.owner])
      (by simp [crtFiles]) (by simp [crtFiles]) (by simp [crtFiles]) (by simp [crtFiles]) done
  have identity : forall worlds, Done curve index worlds ->
      Secures curve index (behind (ensureIdentity index) <| behind (ensureTlsCert index) <|
        rendezvousOperators index) worlds := by
    intro worlds done
    apply secures_behind (secures_ensureIdentity done)
    intro worlds done
    exact secures_behind (certificate worlds done) fun _ => secures_rendezvousOperators
  apply secures_behind
  · exact guarantees_prepare (Done curve index) cuts cuts done_of_look identity
      (does_self consistent)
  · intro worlds done
    have silent : forall {command : Command}, command.targets = [] -> Writes [] command :=
      writes_of_targets
    apply @secures_of_writes _ _ _ _ [] _ (by simp) (by simp) (by simp) (by simp) (by simp) done
    refine calls_test (silent rfl) ?_ trivial
    exact calls_run (silent rfl) (calls_startFrostSigner silent trivial)

theorem lasting_sound : (lasting curve).Sound (machine curve) entrypoint where
  kept does := does.1
  reflexive _ _ consistent := ⟨consistent, Grows.of_same fun _ => rfl, fun _ _ => rfl⟩
  transitive _ _ _ _ first second := ⟨second.1, first.2.1.trans second.2.1,
    fun file own => (second.2.2 file own).trans (first.2.2 file own)⟩
  yields different does :=
    ⟨does.1, does.2.1, fun file own => does.2.2 file fun same => different (same.symm.trans own)⟩
  starts _ _ := secures_entrypoint

/-! ## What is read of a key pair -/

theorem publicField_of_not_mem {line : Chars} (absent : 'U' ∉ line) : publicField line = none := by
  have joined : [':'].intercalate (line.splitOn ':') = line := List.intercalate_splitOn ':'
  unfold publicField
  split
  · next label fields pieces =>
      rw [pieces] at joined
      have front : label <+: line := by
        rw [← joined]
        cases fields with
        | nil => simp [List.intercalate]
        | cons field fields => simp [List.intercalate]
      rw [if_neg]
      intro same
      rw [same] at front
      exact absent (front.subset (by simp))
  · rfl

theorem splitOn_of_not_mem {label : Chars} (plain : ':' ∉ label) : label.splitOn ':' = [label] := by
  have pieces : ([':'].intercalate [label]).splitOn ':' = [label] := by
    apply List.splitOn_intercalate
    · simpa using plain
    · simp
  simpa [List.intercalate] using pieces

theorem publicField_of_digits (known : digits <+: publicHex curve secret) :
    publicField ("PUBLIC:".toList ++ digits) = some digits := by
  have plain : ':' ∉ digits := by
    intro member
    have impossible := isHexDigit_of_front known member
    revert impossible
    decide
  have pieces : ("PUBLIC:".toList ++ digits).splitOn ':' = ["PUBLIC".toList, digits] := by
    have shape : "PUBLIC:".toList ++ digits = [':'].intercalate ["PUBLIC".toList, digits] := by
      simp [List.intercalate]
    rw [shape]
    apply List.splitOn_intercalate
    · simpa using plain
    · simp
  unfold publicField
  rw [pieces]
  simp

/-- The part of the line of a public key that is there. -/
theorem publicField_of_front {part : Chars} (front : part <+: publicLine curve secret) :
    publicField part = none ∨ publicField part = some [] ∨
      Exists fun digits => digits <+: publicHex curve secret ∧ part = "PUBLIC:".toList ++ digits ∧
        publicField part = some digits := by
  have line : publicLine curve secret = "PUBLIC".toList ++ ':' :: publicHex curve secret := rfl
  rw [line] at front
  rcases front_of_append_cons front with inLabel | ⟨digits, known, joined⟩
  · have plain : ':' ∉ part := fun member => by simpa using inLabel.subset member
    unfold publicField
    rw [splitOn_of_not_mem plain]
    dsimp only
    split
    · exact Or.inr (Or.inl rfl)
    · exact Or.inl rfl
  · refine Or.inr (Or.inr ⟨digits, known, joined, ?_⟩)
    rw [joined]
    exact publicField_of_digits known

/-- What `awk` prints of the first part of a key pair: nothing, an empty line, or
the digits that are there. -/
theorem awkPublic_of_front (front : chars <+: keypairText curve secret) :
    awkPublic chars = [] ∨ awkPublic chars = [[]] ∨
      Exists fun digits => digits <+: publicHex curve secret ∧ awkPublic chars = [digits] ∧
        privateLine secret ++ '\n' :: ("PUBLIC:".toList ++ digits) <+: chars := by
  have missed : forall {line : Chars}, line <+: privateLine secret -> publicField line = none :=
    fun inPrivate => publicField_of_not_mem fun member =>
      not_mem_privateLine (inPrivate.subset member)
  have whole := missed (List.prefix_refl (privateLine secret))
  have read : forall {part : Chars}, part <+: publicLine curve secret ->
      [privateLine secret, part].filterMap publicField = [] ∨
        [privateLine secret, part].filterMap publicField = [[]] ∨
        Exists fun digits => digits <+: publicHex curve secret ∧
          [privateLine secret, part].filterMap publicField = [digits] ∧
          part = "PUBLIC:".toList ++ digits := by
    intro part inPublic
    rcases publicField_of_front inPublic with nothing | empty | ⟨digits, known, joined, field⟩
    · exact Or.inl (by simp only [List.filterMap_cons, List.filterMap_nil, whole, nothing])
    · exact Or.inr (Or.inl (by simp only [List.filterMap_cons, List.filterMap_nil, whole, empty]))
    · refine Or.inr (Or.inr ⟨digits, known, ?_, joined⟩)
      simp only [List.filterMap_cons, List.filterMap_nil, whole, field]
  unfold awkPublic
  rcases front_cases front with inPrivate | ⟨part, inPublic, joined⟩ | complete
  · left
    rw [lines_of_private inPrivate]
    split
    · rfl
    · simp only [List.filterMap_cons, List.filterMap_nil, missed inPrivate]
  · subst joined
    rw [lines_of_public inPublic]
    split
    · exact Or.inl (by simp only [List.filterMap_cons, List.filterMap_nil, whole])
    · rcases read inPublic with nothing | empty | ⟨digits, known, field, same⟩
      · exact Or.inl nothing
      · exact Or.inr (Or.inl empty)
      · rw [same] at field ⊢
        exact Or.inr (Or.inr ⟨digits, known, field, List.prefix_refl _⟩)
  · rw [complete, lines_keypairText]
    rcases read (List.prefix_refl (publicLine curve secret)) with nothing | empty |
      ⟨digits, known, field, same⟩
    · exact Or.inl nothing
    · exact Or.inr (Or.inl empty)
    · refine Or.inr (Or.inr ⟨digits, known, field, ?_⟩)
      rw [← same, keypairText_eq, ← List.cons_append]
      exact (List.prefix_append_right_inj _).mpr (List.prefix_append _ _)

/-- Nothing is missing of a key pair but the end of its last line. -/
theorem awkPublic_of_complete (front : chars <+: keypairText curve secret)
    (complete : privateLine secret ++ '\n' :: publicLine curve secret <+: chars) :
    awkPublic chars = [publicHex curve secret] := by
  have read : [privateLine secret, publicLine curve secret].filterMap publicField =
      [publicHex curve secret] := by
    have whole : publicField (privateLine secret) = none :=
      publicField_of_not_mem not_mem_privateLine
    have field : publicField (publicLine curve secret) = some (publicHex curve secret) :=
      publicField_of_digits (List.prefix_refl _)
    simp only [List.filterMap_cons, List.filterMap_nil, whole, field]
  unfold awkPublic
  rcases front_cases front with inPrivate | ⟨part, inPublic, joined⟩ | whole
  · have member : '\n' ∈ chars := complete.subset (by simp)
    exact absurd (inPrivate.subset member) break_not_mem_privateLine
  · rw [joined, List.prefix_append_right_inj, List.cons_prefix_cons] at complete
    have same : part = publicLine curve secret := inPublic.eq_of_length_le complete.2.length_le
    rw [joined, lines_of_public inPublic, same, if_neg (by simp), read]
  · rw [whole, lines_keypairText]
    exact read

theorem length_publicHex (small : (curve secret).1 < 2 ^ 256) :
    (publicHex curve secret).length = 66 := by
  have digits : (hexDigits (curve secret).1).length ≤ 64 := by
    by_contra long
    have power := pow_length_hexDigits_le (show 1 < (hexDigits (curve secret).1).length by omega)
    have least : (16 : Nat) ^ 65 ≤ 16 ^ (hexDigits (curve secret).1).length :=
      Nat.pow_le_pow_right (by decide) (by omega)
    have limit : (16 : Nat) ^ 65 = 16 * 2 ^ 256 := by norm_num
    omega
  unfold publicHex
  rw [formatHexPadded_natCast]
  split <;>
    simp only [List.length_append, List.length_cons, List.length_nil, List.length_map, paddedDigits,
      List.length_replicate] <;> omega

theorem length_of_isPubkey (valid : isPubkey digits = true) : digits.length = 66 := by
  unfold isPubkey at valid
  split at valid
  · simp only [Bool.and_eq_true, decide_eq_true_eq] at valid
    rw [List.length_cons, List.length_cons, valid.1.2]
  · cases valid

theorem readPubkey_of_awk (known : digits <+: publicHex curve secret)
    (there : world (keypair index) = some (.chars chars)) (read : awkPublic chars = [digits]) :
    readPubkey world index = digits := by
  rw [readPubkey, World.text_eq there, read]
  exact (captured_digits known).2

/-- A public key that was read and found valid is the one of the operator, and is
read again at any later time. -/
theorem readPubkey_of_grows (small : forall secret, (curve secret).1 < 2 ^ 256)
    (before : Stage curve index world) (behind : Stage curve index changed)
    (grows : Grows world changed) (valid : isPubkey (readPubkey world index) = true) :
    readPubkey changed index = readPubkey world index ∧
      forall secret, Complete curve index secret changed ->
        readPubkey world index = publicHex curve secret := by
  have nonempty : readPubkey world index ≠ [] := by
    intro empty
    rw [empty] at valid
    cases valid
  have there : Exists fun chars => world (keypair index) = some (.chars chars) := by
    cases before with
    | fresh absent =>
        refine absurd ?_ nonempty
        rw [readPubkey, World.text, absent]
        rfl
    | drawn secret chars pair => exact ⟨chars, pair⟩
    | complete secret pair => exact ⟨_, pair⟩
  rcases there with ⟨chars, there⟩
  rcases grows index chars there with ⟨longer, later, front⟩
  have inText : Exists fun secret => longer <+: keypairText curve secret := by
    cases behind with
    | fresh absent =>
        rw [absent] at later
        cases later
    | drawn secret text pair inside =>
        rw [pair] at later
        cases later
        exact ⟨secret, inside⟩
    | complete secret pair =>
        rw [pair] at later
        cases later
        exact ⟨secret, List.prefix_refl _⟩
  rcases inText with ⟨secret, inside⟩
  have right : readPubkey world index = publicHex curve secret ∧
      privateLine secret ++ '\n' :: publicLine curve secret <+: chars := by
    have nothing : forall {lines : List Chars}, lines = [] ∨ lines = [[]] ->
        awkPublic chars = lines -> readPubkey world index = [] := by
      intro lines shape read
      rw [readPubkey, World.text_eq there, read]
      rcases shape with same | same <;> rw [same] <;> rfl
    rcases awkPublic_of_front (front.trans inside) with
      none | empty | ⟨digits, known, read, written⟩
    · exact absurd (nothing (Or.inl rfl) none) nonempty
    · exact absurd (nothing (Or.inr rfl) empty) nonempty
    · have same := readPubkey_of_awk known there read
      rw [same] at valid ⊢
      have whole : digits = publicHex curve secret := by
        apply known.eq_of_length
        rw [length_of_isPubkey valid, length_publicHex (small secret)]
      rw [whole] at written
      exact ⟨whole, written⟩
  rw [right.1]
  refine ⟨?_, ?_⟩
  · apply readPubkey_of_awk (List.prefix_refl _) later
    exact awkPublic_of_complete inside (right.2.trans front)
  · intro other complete
    have same : keypairText curve other = longer := by
      have contents := Eq.trans (Eq.symm complete) later
      simpa using contents
    rw [← same] at inside
    exact (publicHex_of_keypairText (keypairText_of_front inside)).symm

/-! ## The environment -/

theorem operatorPubkeys_ok {pub0 pub1 line : Chars}
    (printed : operatorPubkeys pub0 pub1 = .ok line) :
    (isPubkey pub0 = true ∧ isPubkey pub1 = true) ∧
      line = "SO_IDENTITY_PUBKEYS=".toList ++ pub0 ++ ',' :: pub1 := by
  unfold operatorPubkeys at printed
  split at printed
  · cases printed
  · split at printed
    · cases printed
    · next valid =>
        rw [not_or, not_not, not_not] at valid
        cases printed
        exact ⟨valid, rfl⟩

/-- The volumes behind a list of actions. -/
def volumesAfter (curve : Curve) (world : World) (actions : List (Action Index Outcome)) : World :=
  ((machine curve).acts entrypoint (atRest world) actions).world

/-- The volumes stay consistent, and the key pairs only grow. -/
theorem grows_of_acts (consistent : Consistent curve world)
    (first second : List (Action Index Outcome)) :
    Consistent curve (volumesAfter curve world first) ∧
      Grows (volumesAfter curve world first) (volumesAfter curve world (first ++ second)) := by
  have runs : forall {system : System Index Command World Ended} (actions),
      (lasting curve).Intact (machine curve) system ->
        (lasting curve).Intact (machine curve) ((machine curve).acts entrypoint system actions) ∧
          Grows system.world ((machine curve).acts entrypoint system actions).world := by
    intro system actions intact
    exact intact.acts lasting_sound (fun _ _ => Grows.of_same fun _ => rfl) Grows.trans
      (fun does => does.2.1) actions
  have initially : (lasting curve).Intact (machine curve) (atRest world) :=
    Machine.Compact.intact_of_atRest consistent
  have intact := (runs first initially).1
  have joined : (machine curve).acts entrypoint (atRest world) (first ++ second) =
      (machine curve).acts entrypoint ((machine curve).acts entrypoint (atRest world) first)
        second :=
    List.foldl_append
  unfold volumesAfter
  rw [joined]
  exact ⟨intact.holds, (runs second intact).2⟩

/-- What `spark-operator-pubkeys.sh` prints, reading one key pair at one time and
the other one later, are the keys the operators have: whatever they do behind it,
each of them shows at most its printed key, the `operators.json` of both name
nothing else, and the script prints the same line again. -/
theorem printed_of_acts (small : forall secret, (curve secret).1 < 2 ^ 256)
    (consistent : Consistent curve world) (first second third : List (Action Index Outcome))
    {line : Chars}
    (printed : operatorPubkeys (readPubkey (volumesAfter curve world first) 0)
      (readPubkey (volumesAfter curve world (first ++ second)) 1) = .ok line) :
    Exists fun pub : Index -> Chars =>
      line = "SO_IDENTITY_PUBKEYS=".toList ++ pub 0 ++ ',' :: pub 1 ∧
      (forall index content,
        volumesAfter curve world (first ++ second ++ third) (pubkey index) = some content ->
          Exists fun chars => content = .chars chars ∧ chars <+: unlines [pub index]) ∧
      (forall index content,
        volumesAfter curve world (first ++ second ++ third) (operatorsFile index) = some content ->
          Exists fun front0 => Exists fun front1 => Exists fun chars =>
            (front0 <+: pub 0 ∧ front1 <+: pub 1) ∧ chars <+: operatorsJson front0 front1 ∧
              content = .chars chars) ∧
      operatorPubkeys (readPubkey (volumesAfter curve world (first ++ second ++ third)) 0)
        (readPubkey (volumesAfter curve world (first ++ second ++ third)) 1) = .ok line := by
  have earlier := grows_of_acts consistent first second
  have later := grows_of_acts consistent (first ++ second) third
  have consistent3 := (grows_of_acts consistent (first ++ second ++ third) []).1
  rcases operatorPubkeys_ok printed with ⟨valid, shape⟩
  have key0 := readPubkey_of_grows small (earlier.1.stage 0) (consistent3.stage 0)
    (earlier.2.trans later.2) valid.1
  have key1 := readPubkey_of_grows small (later.1.stage 1) (consistent3.stage 1) later.2 valid.2
  let pub : Index -> Chars := fun index =>
    if index = 0 then readPubkey (volumesAfter curve world first) 0
    else readPubkey (volumesAfter curve world (first ++ second)) 1
  have owned : forall index secret,
      Complete curve index secret (volumesAfter curve world (first ++ second ++ third)) ->
        pub index = publicHex curve secret := by
    intro index
    fin_cases index
    · exact key0.2
    · exact key1.2
  have known : forall index digits,
      Known curve (volumesAfter curve world (first ++ second ++ third)) index digits ->
        digits <+: pub index := by
    rintro index digits ⟨secret, pair, front⟩
    rw [owned index secret pair]
    exact front
  refine ⟨pub, shape, ?_, ?_, ?_⟩
  · intro index content there
    cases consistent3.stage index with
    | fresh _ _ shared | drawn _ _ _ _ _ shared =>
        rw [shared] at there
        cases there
    | complete secret pair shared =>
        rw [owned index secret pair]
        exact shared content there
  · intro index content there
    rcases consistent3.json index content there with ⟨pub0, pub1, chars, both, written, same⟩
    exact ⟨pub0, pub1, chars, ⟨known 0 pub0 both.1, known 1 pub1 both.2⟩, written, same⟩
  · rw [key0.1, key1.1]
    exact printed

theorem consistent_emptyVolume : Consistent curve emptyVolume where
  stage _ := .fresh rfl rfl rfl
  json _ _ impossible := by cases impossible

/-- The operators draw their keys. -/
def drawing : List (Action Index Outcome) :=
  .start 0 :: List.replicate 10 (.step 0 { ok := true, secret := 1 }) ++
    .start 1 :: List.replicate 10 (.step 1 { ok := true, secret := 2 })

/-- They show their keys. -/
def publishing : List (Action Index Outcome) :=
  steps 16 0 ++ steps 16 1

/-- The second one is started again, and has emptied the key it shows to write it
anew. -/
def restarting : List (Action Index Outcome) :=
  .start 1 :: steps 11 1

theorem printed_of_acts_sample :
    Exists fun pub : Index -> Chars =>
      volumesAfter curveAtTwo emptyVolume drawing (pubkey 0) = none ∧
        volumesAfter curveAtTwo emptyVolume (drawing ++ publishing) (pubkey 0) =
          some (.chars (unlines [publicHex curveAtTwo 1])) ∧
        volumesAfter curveAtTwo emptyVolume (drawing ++ publishing ++ restarting) (pubkey 1) =
          some (.chars []) ∧
        (forall index content,
          volumesAfter curveAtTwo emptyVolume (drawing ++ publishing ++ restarting) (pubkey index) =
              some content ->
            Exists fun chars => content = .chars chars ∧ chars <+: unlines [pub index]) ∧
        "SO_IDENTITY_PUBKEYS=".toList ++ publicHex curveAtTwo 1 ++ ',' :: publicHex curveAtTwo 2 =
          "SO_IDENTITY_PUBKEYS=".toList ++ pub 0 ++ ',' :: pub 1 := by
  have small : forall secret, (curveAtTwo secret).1 < 2 ^ 256 := by
    intro secret
    unfold curveAtTwo curveAtOne
    split <;> norm_num
  have hidden : volumesAfter curveAtTwo emptyVolume drawing (pubkey 0) = none := by
    decide +kernel
  have shown : volumesAfter curveAtTwo emptyVolume (drawing ++ publishing) (pubkey 0) =
      some (.chars (unlines [publicHex curveAtTwo 1])) := by
    decide +kernel
  have emptied : volumesAfter curveAtTwo emptyVolume (drawing ++ publishing ++ restarting)
      (pubkey 1) = some (.chars []) := by
    decide +kernel
  have keys : readPubkey (volumesAfter curveAtTwo emptyVolume drawing) 0 = publicHex curveAtTwo 1 ∧
      readPubkey (volumesAfter curveAtTwo emptyVolume (drawing ++ publishing)) 1 =
        publicHex curveAtTwo 2 := by
    decide +kernel
  have valid : isPubkey (publicHex curveAtTwo 1) = true ∧
      isPubkey (publicHex curveAtTwo 2) = true := by
    decide +kernel
  have printed : operatorPubkeys (readPubkey (volumesAfter curveAtTwo emptyVolume drawing) 0)
      (readPubkey (volumesAfter curveAtTwo emptyVolume (drawing ++ publishing)) 1) =
        .ok ("SO_IDENTITY_PUBKEYS=".toList ++ publicHex curveAtTwo 1 ++
          ',' :: publicHex curveAtTwo 2) := by
    rw [keys.1, keys.2, operatorPubkeys, if_neg (by simp [publicHex_ne_nil]),
      if_neg (by simp [valid])]
  rcases printed_of_acts small consistent_emptyVolume drawing publishing restarting printed with
    ⟨pub, line, shows, -, -⟩
  exact ⟨pub, hidden, shown, emptied, shows, line⟩

end Spark
end MutinyNet
