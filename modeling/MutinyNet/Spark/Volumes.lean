import MutinyNet.Python.Format
import MutinyNet.Shell.Script
import MutinyNet.Text.Infix

namespace MutinyNet
namespace Spark

open Shell Python

/-!
# The volumes of the operators

Each operator has a volume of its own, and the two have one in common.  The
commands of the entrypoint test, read, write, copy and move files there; a
redirection opens its file, which empties it, and then writes to it, and a
write that fails leaves the first few of its characters.  Whatever else a
command depends on is in its outcome: the keys that are drawn, and what a
failing `openssl` leaves in its output file.
-/

/-- `SPARK_INDEX`. -/
abbrev Index := Fin 2

scoped instance neZero_index : NeZero 2 := ⟨by decide⟩

abbrev Chars := List Char

/-- The files of one operator's volume. -/
inductive HomeFile where
  | operatorKey
  | keypair
  | operatorsJson
  | serverCrt
  | serverKey
  | serverCrtTmp
  | serverKeyTmp
  | serverCrtLegacyCa
  | serverKeyLegacyCa
  deriving DecidableEq, Repr

/-- The files with which an operator shows itself to the other one. -/
inductive SharedFile where
  | pubkey
  | serverCrt
  | serverCrtTmp
  deriving DecidableEq, Repr

inductive File where
  | home (index : Index) (file : HomeFile)
  | shared (index : Index) (file : SharedFile)
  deriving DecidableEq, Repr

/-- The operator a file belongs to. -/
def File.owner : File -> Index
  | .home index _ => index
  | .shared index _ => index

/-- A certificate of a key, and whether it is marked `CA:FALSE`. -/
structure Certificate where
  key : Nat
  caFalse : Bool
  serial : Nat
  deriving DecidableEq, Repr

/-- What a file holds: characters, an RSA key or a certificate. -/
inductive Content where
  | chars (chars : Chars)
  | rsaKey (key : Nat)
  | certificate (certificate : Certificate)
  deriving DecidableEq, Repr

abbrev World := File -> Option Content

inductive Command where
  | mkdir
  | waitForDb
  | databaseExists (db : String)
  | createdb (db : String)
  | migrate (db : String)
  | isFile (file : File)
  | openFile (file : File)
  | write (file : File) (chars : Chars)
  | keygen (target : File)
  | extract (pattern : Chars) (source target : File)
  | select (pattern : Chars) (source : File)
  | cat (file : File)
  | chmod (file : File)
  | isCaFalse (file : File)
  | copy (source target : File)
  | move (source target : File)
  | genrsa (target : File)
  | req (key target : File)
  | sleep
  | isConfig
  | envsubst
  | removeSocket
  | startSigner
  | isSocket
  | isAlive
  deriving DecidableEq, Repr

/-- What becomes of a command: its status, whether it took effect although it
failed, how much a failing one wrote, and what was drawn. -/
structure Outcome where
  ok : Bool
  effect : Bool := false
  written : Nat := 0
  secret : Nat := 0
  rsaKey : Nat := 0
  serial : Nat := 0
  left : Option Content := none
  deriving DecidableEq, Repr

/-- A command whose status is zero took effect. -/
def Outcome.effective (outcome : Outcome) : Bool :=
  outcome.ok || outcome.effect

theorem Outcome.effective_of_ok {outcome : Outcome} (ok : outcome.ok = true) :
    outcome.effective = true := by
  rw [effective, ok]
  rfl

/-! ## Texts -/

/-- The lines of a text; what stands behind the last line break is one if there
is anything. -/
def lines (chars : Chars) : List Chars :=
  let pieces := chars.splitOn '\n'
  if pieces.getLast? = some [] then pieces.dropLast else pieces

/-- `cut -d: -f2`, which prints a line without a colon as it is. -/
def cut (line : Chars) : Chars :=
  match line.splitOn ':' with
  | _ :: field :: _ => field
  | _ => line

/-- `grep pattern | cut -d: -f2`. -/
def fields (pattern chars : Chars) : List Chars :=
  ((lines chars).filter fun line => pattern <:+: line).map cut

def unlines (lines : List Chars) : Chars :=
  lines.flatMap (· ++ ['\n'])

/-- What a command substitution makes of an output. -/
def captured (output : List String) : Chars :=
  (output.flatMap String.toList).rdropWhile (· = '\n')

/-! ## The key pair of an operator -/

/-- The curve: the coordinates of the public point of a secret exponent. -/
abbrev Curve := Nat -> Nat × Nat

/-- secp256k1 at the secret exponent one, whose public point is the generator. -/
def curveAtOne : Curve := fun _ =>
  (0x79be667ef9dcbbac55a06295ce870b07029bfcdb2dce28d959f2815b16f81798,
    0x483ada7726a3c4655da4fbfc0e1108a8fd17b448a68554199c47d08ffb10d4b8)

def privateHex (secret : Nat) : Chars :=
  formatHexPadded 64 secret

/-- The public point in compressed form. -/
def publicHex (curve : Curve) (secret : Nat) : Chars :=
  (if (curve secret).2 % 2 = 0 then ['0', '2'] else ['0', '3']) ++
    formatHexPadded 64 (curve secret).1

/-- What `keygen.py` prints for the key it draws. -/
def keypairText (curve : Curve) (secret : Nat) : Chars :=
  unlines ["PRIVATE:".toList ++ privateHex secret, "PUBLIC:".toList ++ publicHex curve secret]

/-! ## The commands -/

namespace World

/-- The characters of a file. -/
def text (world : World) (file : File) : Chars :=
  match world file with
  | some (.chars chars) => chars
  | _ => []

def put (world : World) (file : File) (content : Option Content) : World :=
  Function.update world file content

/-- A command that prints characters into a redirection. -/
def printing (world : World) (file : File) (chars : Chars) (outcome : Outcome) : World :=
  world.put file <| some <| .chars <| world.text file ++
    if outcome.ok then chars else chars.take outcome.written

/-- A command that takes effect as a whole, and not if there is no source. -/
def transferring (world : World) (source : File) (outcome : Outcome)
    (transferred : Content -> World) : World × Reply :=
  match world source with
  | none => (world, { ok := false })
  | some content => (if outcome.effective then transferred content else world, { ok := outcome.ok })

/-- Whether the file is a certificate marked `CA:FALSE`. -/
def isCaFalse (world : World) (file : File) : Bool :=
  match world file with
  | some (.certificate certificate) => certificate.caFalse
  | _ => false

/-- `openssl req -new -x509` with `basicConstraints = critical,CA:FALSE`. -/
def req (world : World) (key target : File) (outcome : Outcome) : World × Reply :=
  match outcome.ok, world key with
  | true, some (.rsaKey key) =>
      (world.put target (some (.certificate { key, caFalse := true, serial := outcome.serial })),
        { ok := true })
  | _, _ => (world.put target outcome.left, { ok := false })

end World

/-- What a command does. -/
def perform (curve : Curve) (command : Command) (world : World) (outcome : Outcome) :
    World × Reply :=
  match command with
  | .isFile file => (world, { ok := (world file).isSome })
  | .openFile file =>
      (if outcome.effective then world.put file (some (.chars [])) else world, { ok := outcome.ok })
  | .write file chars => (world.printing file chars outcome, { ok := outcome.ok })
  | .keygen target =>
      (world.printing target (keypairText curve outcome.secret) outcome, { ok := outcome.ok })
  | .extract pattern source target =>
      let found := fields pattern (world.text source)
      (world.printing target (unlines found) outcome, { ok := outcome.ok && !found.isEmpty })
  | .select pattern source =>
      let found := fields pattern (world.text source)
      (world, { ok := outcome.ok && !found.isEmpty, output := [String.ofList (unlines found)] })
  | .cat file =>
      (world, { ok := outcome.ok && (world file).isSome, output := [String.ofList (world.text file)] })
  | .isCaFalse file => (world, { ok := outcome.ok && world.isCaFalse file })
  | .copy source target =>
      world.transferring source outcome fun content => world.put target (some content)
  | .move source target =>
      world.transferring source outcome fun content =>
        (world.put source none).put target (some content)
  | .genrsa target =>
      (world.put target (if outcome.ok then some (.rsaKey outcome.rsaKey) else outcome.left),
        { ok := outcome.ok })
  | .req key target => world.req key target outcome
  | .mkdir | .waitForDb | .databaseExists _ | .createdb _ | .migrate _ | .chmod _ | .sleep
  | .isConfig | .envsubst | .removeSocket | .startSigner | .isSocket | .isAlive =>
      (world, { ok := outcome.ok })

def machine (curve : Curve) : Machine Command World Outcome where
  perform := perform curve

/-! ## What the key pair reads as -/

theorem lines_unlines {lines : List Chars} (plain : forall line, line ∈ lines -> '\n' ∉ line) :
    Spark.lines (unlines lines) = lines := by
  have pieces : (unlines lines).splitOn '\n' = lines ++ [[]] := by
    have joined : unlines lines = ['\n'].intercalate (lines ++ [[]]) := by
      induction lines with
      | nil => rfl
      | cons line rest inductionHypothesis =>
          have later := inductionHypothesis fun other member =>
            plain other (List.mem_cons_of_mem line member)
          unfold unlines at later ⊢
          rw [List.flatMap_cons, later]
          cases rest <;> simp [List.intercalate]
    rw [joined]
    apply List.splitOn_intercalate
    · intro line member
      rcases List.mem_append.mp member with inside | last
      · exact plain line inside
      · rw [List.mem_singleton.mp last]
        exact List.not_mem_nil
    · simp
  unfold Spark.lines
  rw [pieces]
  dsimp only
  rw [List.getLast?_concat, if_pos rfl, List.dropLast_concat]

theorem cut_eq {label field : Chars} (plainLabel : ':' ∉ label) (plainField : ':' ∉ field) :
    cut (label ++ ':' :: field) = field := by
  have pieces : (label ++ ':' :: field).splitOn ':' = [label, field] := by
    have joined : label ++ ':' :: field = [':'].intercalate [label, field] := by
      simp [List.intercalate]
    rw [joined]
    apply List.splitOn_intercalate
    · intro piece member
      rcases List.mem_cons.mp member with first | later
      · rw [first]
        exact plainLabel
      · rw [List.mem_singleton.mp later]
        exact plainField
    · simp
  unfold cut
  rw [pieces]

theorem isHexDigit_of_mem_privateHex {secret : Nat} {char : Char}
    (member : char ∈ privateHex secret) : isHexDigit char = true :=
  isHexDigit_of_mem_formatHexPadded member

theorem isHexDigit_of_mem_publicHex {curve : Curve} {secret : Nat} {char : Char}
    (member : char ∈ publicHex curve secret) : isHexDigit char = true := by
  rcases List.mem_append.mp member with front | back
  · have digits : forall char, char ∈ ['0', '2'] ∨ char ∈ ['0', '3'] -> isHexDigit char = true := by
      intro char
      simp only [List.mem_cons, List.not_mem_nil, or_false]
      rintro ((same | same) | (same | same)) <;> subst same <;> decide
    apply digits
    split at front
    · exact Or.inl front
    · exact Or.inr front
  · exact isHexDigit_of_mem_formatHexPadded back

/-- A label is followed by digits, so it is the only label in its line. -/
theorem not_isInfix_label {pattern label digits : Chars} {char : Char} (member : char ∈ pattern)
    (absent : char ∉ label) (letter : isHexDigit char = false)
    (hex : forall char, char ∈ digits -> isHexDigit char = true) :
    ¬ pattern <:+: label ++ digits := by
  intro occurs
  rcases List.mem_append.mp (occurs.subset member) with inside | behind
  · exact absent inside
  · rw [hex char behind] at letter
    cases letter

section Keypair

variable {curve : Curve} {secret : Nat}

theorem lines_keypairText :
    lines (keypairText curve secret) =
      ["PRIVATE:".toList ++ privateHex secret, "PUBLIC:".toList ++ publicHex curve secret] := by
  have plain : forall {label digits : Chars}, '\n' ∉ label ->
      (forall char, char ∈ digits -> isHexDigit char = true) -> '\n' ∉ label ++ digits := by
    intro label digits absent hex member
    rcases List.mem_append.mp member with inside | behind
    · exact absent inside
    · have impossible := hex _ behind
      revert impossible
      decide
  apply lines_unlines
  intro line member
  rcases List.mem_cons.mp member with first | later
  · rw [first]
    exact plain (by decide) fun _ => isHexDigit_of_mem_privateHex
  · rw [List.mem_singleton.mp later]
    exact plain (by decide) fun _ => isHexDigit_of_mem_publicHex

theorem cut_digits {label digits : Chars} (plain : ':' ∉ label)
    (hex : forall char, char ∈ digits -> isHexDigit char = true) :
    cut (label ++ ':' :: digits) = digits := by
  apply cut_eq plain
  intro member
  have impossible := hex _ member
  revert impossible
  decide

/-- `grep "PRIVATE:" | cut -d: -f2` of a complete key pair. -/
theorem fields_private :
    fields "PRIVATE:".toList (keypairText curve secret) = [privateHex secret] := by
  have first : "PRIVATE:".toList <:+: "PRIVATE:".toList ++ privateHex secret :=
    (List.prefix_append _ _).isInfix
  have second : ¬ "PRIVATE:".toList <:+: "PUBLIC:".toList ++ publicHex curve secret :=
    @not_isInfix_label _ _ _ 'R' (by decide) (by decide) (by decide)
      fun _ => isHexDigit_of_mem_publicHex
  have field : cut ("PRIVATE:".toList ++ privateHex secret) = privateHex secret :=
    @cut_digits "PRIVATE".toList _ (by decide) fun _ => isHexDigit_of_mem_privateHex
  unfold fields
  rw [lines_keypairText]
  simp only [List.filter_cons, List.filter_nil, first, second, decide_true, decide_false, if_true,
    Bool.false_eq_true, if_false, List.map_cons, List.map_nil, field]

/-- `grep "PUBLIC:" | cut -d: -f2` of a complete key pair. -/
theorem fields_public :
    fields "PUBLIC:".toList (keypairText curve secret) = [publicHex curve secret] := by
  have first : ¬ "PUBLIC:".toList <:+: "PRIVATE:".toList ++ privateHex secret :=
    @not_isInfix_label _ _ _ 'U' (by decide) (by decide) (by decide)
      fun _ => isHexDigit_of_mem_privateHex
  have second : "PUBLIC:".toList <:+: "PUBLIC:".toList ++ publicHex curve secret :=
    (List.prefix_append _ _).isInfix
  have field : cut ("PUBLIC:".toList ++ publicHex curve secret) = publicHex curve secret :=
    @cut_digits "PUBLIC".toList _ (by decide) fun _ => isHexDigit_of_mem_publicHex
  unfold fields
  rw [lines_keypairText]
  simp only [List.filter_cons, List.filter_nil, first, second, decide_true, decide_false, if_true,
    Bool.false_eq_true, if_false, List.map_cons, List.map_nil, field]

theorem rdropWhile_publicHex :
    (publicHex curve secret).rdropWhile (· = '\n') = publicHex curve secret := by
  apply List.rdropWhile_eq_self_iff.mpr
  intro nonempty same
  have hex := isHexDigit_of_mem_publicHex (List.getLast_mem nonempty)
  rw [of_decide_eq_true same] at hex
  revert hex
  decide

/-- A command substitution takes the public key off its line. -/
theorem captured_publicHex :
    captured [String.ofList (unlines [publicHex curve secret])] = publicHex curve secret := by
  unfold captured unlines
  rw [List.flatMap_singleton, List.flatMap_singleton, String.toList_ofList]
  rw [List.rdropWhile_concat_pos _ _ _ (by decide)]
  exact rdropWhile_publicHex

/-- And leaves it as it is where its line was not ended. -/
theorem captured_unended :
    captured [String.ofList (publicHex curve secret)] = publicHex curve secret := by
  unfold captured
  rw [List.flatMap_singleton, String.toList_ofList]
  exact rdropWhile_publicHex

theorem publicHex_ne_nil : publicHex curve secret ≠ [] := by
  unfold publicHex
  split <;> simp

end Keypair

/-! ## What a command leaves as it is -/

/-- The files a command changes. -/
@[simp] def Command.targets : Command -> List File
  | .openFile file | .write file _ | .keygen file | .extract _ _ file | .copy _ file | .genrsa file
  | .req _ file => [file]
  | .move source target => [source, target]
  | _ => []

theorem World.text_eq {world : World} {file : File} {chars : Chars}
    (found : world file = some (.chars chars)) : world.text file = chars := by
  rw [World.text, found]

theorem World.put_self (world : World) (file : File) (content : Option Content) :
    world.put file content file = content :=
  Function.update_self _ _ _

theorem World.put_of_ne {file other : File} (different : other ≠ file) (world : World)
    (content : Option Content) : world.put file content other = world other :=
  Function.update_of_ne different _ _

/-- A transfer happens as a whole, or not at all. -/
theorem World.transferring_cases (world : World) (source : File) (outcome : Outcome)
    (transferred : Content -> World) :
    (Exists fun content => world source = some content ∧ outcome.effective = true ∧
      world.transferring source outcome transferred = (transferred content, { ok := outcome.ok })) ∨
    (world source = none ∨ outcome.effective = false) ∧
      world.transferring source outcome transferred = (world, { ok := false }) := by
  unfold World.transferring
  split
  · next missing => exact Or.inr ⟨Or.inl missing, rfl⟩
  · next content present =>
      by_cases effective : outcome.effective = true
      · rw [if_pos effective]
        exact Or.inl ⟨content, present, effective, rfl⟩
      · have refused : outcome.ok = false := by
          rw [Outcome.effective, Bool.or_eq_true, not_or] at effective
          exact Bool.eq_false_of_not_eq_true effective.1
        rw [if_neg effective, refused]
        exact Or.inr ⟨Or.inr (Bool.eq_false_of_not_eq_true effective), rfl⟩

/-- Opening a file empties it, if it takes effect. -/
theorem openFile_eq (curve : Curve) (file : File) (world : World) (outcome : Outcome) :
    (perform curve (.openFile file) world outcome).1 =
      if outcome.effective then world.put file (some (.chars [])) else world :=
  rfl

section Transfers

variable {curve : Curve} {world : World} {outcome : Outcome} {source target : File}

theorem copy_cases :
    (Exists fun content => world source = some content ∧ outcome.effective = true ∧
      perform curve (.copy source target) world outcome =
        (world.put target (some content), { ok := outcome.ok })) ∨
    (world source = none ∨ outcome.effective = false) ∧
      perform curve (.copy source target) world outcome = (world, { ok := false }) :=
  world.transferring_cases source outcome _

theorem move_cases :
    (Exists fun content => world source = some content ∧ outcome.effective = true ∧
      perform curve (.move source target) world outcome =
        ((world.put source none).put target (some content), { ok := outcome.ok })) ∨
    (world source = none ∨ outcome.effective = false) ∧
      perform curve (.move source target) world outcome = (world, { ok := false }) :=
  world.transferring_cases source outcome _

theorem copied_of_ok (works : (perform curve (.copy source target) world outcome).2.ok = true) :
    (perform curve (.copy source target) world outcome).1 target = world source := by
  rcases @copy_cases curve world outcome source target with ⟨content, present, -, done⟩ | ⟨-, refused⟩
  · rw [done, present]
    exact World.put_self _ _ _
  · rw [refused] at works
    cases works

theorem moved_of_ok (works : (perform curve (.move source target) world outcome).2.ok = true) :
    (perform curve (.move source target) world outcome).1 target = world source := by
  rcases @move_cases curve world outcome source target with ⟨content, present, -, done⟩ | ⟨-, refused⟩
  · rw [done, present]
    exact World.put_self _ _ _
  · rw [refused] at works
    cases works

end Transfers

/-- A command changes no file but its targets. -/
theorem perform_of_not_mem {command : Command} {file : File} (other : file ∉ command.targets)
    (curve : Curve) (world : World) (outcome : Outcome) :
    (perform curve command world outcome).1 file = world file := by
  have put : forall {target : File}, file ∉ [target] -> forall (world : World) content,
      world.put target content file = world file := by
    intro target absent world content
    exact World.put_of_ne (fun same => absent (List.mem_singleton.mpr same)) world content
  have transferred : forall {source : File} {changed : Content -> World},
      (forall content, changed content file = world file) ->
        (world.transferring source outcome changed).1 file = world file := by
    intro source changed same
    rcases world.transferring_cases source outcome changed with ⟨content, -, -, done⟩ | ⟨-, done⟩
    · rw [done]
      exact same content
    · rw [done]
  cases command with
  | openFile target =>
      change (if outcome.effective then world.put target (some (.chars [])) else world) file = _
      split
      · exact put other world _
      · rfl
  | write target chars => exact put other world _
  | keygen target => exact put other world _
  | extract pattern source target => exact put other world _
  | copy source target => exact transferred fun content => put other world _
  | move source target =>
      rw [Command.targets, List.mem_cons, List.mem_singleton, not_or] at other
      apply transferred
      intro content
      rw [World.put_of_ne other.2, World.put_of_ne other.1]
  | genrsa target => exact put other world _
  | req key target =>
      change (world.req key target outcome).1 file = world file
      unfold World.req
      split
      · exact put other world _
      · exact put other world _
  | _ => rfl

end Spark
end MutinyNet
