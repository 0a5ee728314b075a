import MutinyNet.Spark.Rendezvous

namespace MutinyNet
namespace Spark

open Shell Python

/-!
# What the operators show

The key pair of an operator is one file with both keys in it, and the public key
is taken out of it by its label.  Each file is written in two commands, so a
start that is cut leaves the first part of one, and the next start may read it.
The certificate is copied from the volume of the operator, where its RSA key
stands beside it.

Whatever is cut and in whatever order the operators run, the volume they share
holds certificates and first parts of public keys, and nothing else.
-/

/-- The first part of the digits of a public key. -/
def PublicDigits (curve : Curve) (digits : Chars) : Prop :=
  Exists fun secret => digits <+: publicHex curve secret

/-- What both operators may know: a certificate, or what has been written of the
line of a public key. -/
inductive Public (curve : Curve) : Content -> Prop where
  | certificate (certificate : Certificate) : Public curve (.certificate certificate)
  | pubkey {digits chars : Chars} (known : PublicDigits curve digits)
      (front : chars <+: unlines [digits]) : Public curve (.chars chars)

/-- What a file may hold, also between two commands. -/
def Admissible (curve : Curve) : File -> Content -> Prop
  | .shared _ .pubkey, content => Exists fun digits => Exists fun chars =>
      PublicDigits curve digits ∧ chars <+: unlines [digits] ∧ content = .chars chars
  | .shared _ .serverCrt, content | .shared _ .serverCrtTmp, content
  | .home _ .serverCrt, content => Exists fun certificate => content = .certificate certificate
  | .home _ .keypair, content => Exists fun secret => Exists fun chars =>
      chars <+: keypairText curve secret ∧ content = .chars chars
  | .home _ .operatorsJson, content => Exists fun pub0 => Exists fun pub1 => Exists fun chars =>
      (PublicDigits curve pub0 ∧ PublicDigits curve pub1) ∧ chars <+: operatorsJson pub0 pub1 ∧
        content = .chars chars
  | _, _ => True

/-- Every file holds what it may. -/
def Guarded (curve : Curve) (world : World) : Prop :=
  forall file content, world file = some content -> Admissible curve file content

/-- A command that leaves every volume guarded, wherever it is run. -/
def Harmless (curve : Curve) (command : Command) : Prop :=
  forall world outcome, Guarded curve world -> Guarded curve (perform curve command world outcome).1

variable {curve : Curve} {index : Index} {world : World} {chars digits : Chars} {file : File}

/-! ## What a key pair that was cut reads as -/

/-- A line that was not ended is one if there is anything of it. -/
theorem lines_unlines_append {ended : List Chars} {last : Chars}
    (plain : forall line, line ∈ ended -> '\n' ∉ line) (unended : '\n' ∉ last) :
    Spark.lines (unlines ended ++ last) = if last = [] then ended else ended ++ [last] := by
  have joined : unlines ended ++ last = ['\n'].intercalate (ended ++ [last]) := by
    induction ended with
    | nil => simp [unlines, List.intercalate]
    | cons line rest inductionHypothesis =>
        have later := inductionHypothesis fun other member =>
          plain other (List.mem_cons_of_mem line member)
        unfold unlines at later ⊢
        rw [List.flatMap_cons, List.append_assoc, later]
        cases rest <;> simp [List.intercalate]
  have pieces : (unlines ended ++ last).splitOn '\n' = ended ++ [last] := by
    rw [joined]
    apply List.splitOn_intercalate
    · intro line member
      rcases List.mem_append.mp member with inside | behind
      · exact plain line inside
      · rw [List.mem_singleton.mp behind]
        exact unended
    · simp
  unfold Spark.lines
  rw [pieces]
  dsimp only
  rw [List.getLast?_concat, List.dropLast_concat]
  simp

/-- The first part of two fields ends in the first one, or behind the character
that parts them. -/
theorem front_of_append_cons {first rest : Chars} {separator : Char}
    (front : chars <+: first ++ separator :: rest) :
    chars <+: first ∨
      Exists fun behind => behind <+: rest ∧ chars = first ++ separator :: behind := by
  rcases List.prefix_or_prefix_of_prefix front (List.prefix_append first (separator :: rest)) with
    short | ⟨tail, joined⟩
  · exact Or.inl short
  · subst joined
    rw [List.prefix_append_right_inj] at front
    cases tail with
    | nil =>
        rw [List.append_nil]
        exact Or.inl (List.prefix_refl first)
    | cons char behind =>
        rcases List.cons_prefix_cons.mp front with ⟨same, later⟩
        exact Or.inr ⟨behind, later, by rw [same]⟩

section Keypair

variable {secret : Nat}

/-- The line of the private key. -/
abbrev privateLine (secret : Nat) : Chars :=
  "PRIVATE:".toList ++ privateHex secret

/-- The line of the public key. -/
abbrev publicLine (curve : Curve) (secret : Nat) : Chars :=
  "PUBLIC:".toList ++ publicHex curve secret

theorem not_mem_line {label digits : Chars} {char : Char} (absent : char ∉ label)
    (letter : isHexDigit char = false)
    (hex : forall char, char ∈ digits -> isHexDigit char = true) :
    char ∉ label ++ digits := by
  intro member
  rcases List.mem_append.mp member with inside | behind
  · exact absent inside
  · rw [hex char behind] at letter
    cases letter

theorem break_not_mem_privateLine : '\n' ∉ privateLine secret :=
  not_mem_line (by simp) (by decide) fun _ => isHexDigit_of_mem_privateHex

theorem break_not_mem_publicLine : '\n' ∉ publicLine curve secret :=
  not_mem_line (by simp) (by decide) fun _ => isHexDigit_of_mem_publicHex

/-- The letter that tells the labels apart. -/
theorem not_mem_privateLine : 'U' ∉ privateLine secret :=
  not_mem_line (by simp) (by decide) fun _ => isHexDigit_of_mem_privateHex

theorem keypairText_eq :
    keypairText curve secret =
      privateLine secret ++ '\n' :: (publicLine curve secret ++ ['\n']) := by
  simp [keypairText, unlines]

/-- Where the writing of a key pair may have stopped. -/
theorem front_cases (front : chars <+: keypairText curve secret) :
    chars <+: privateLine secret ∨
      (Exists fun part => part <+: publicLine curve secret ∧
        chars = privateLine secret ++ '\n' :: part) ∨
      chars = keypairText curve secret := by
  rw [keypairText_eq] at front ⊢
  rcases front_of_append_cons front with inPrivate | ⟨behind, inPublic, joined⟩
  · exact Or.inl inPrivate
  · rcases front_of_append_cons inPublic with part | ⟨nothing, ended, complete⟩
    · exact Or.inr (Or.inl ⟨behind, part, joined⟩)
    · rw [List.prefix_nil.mp ended] at complete
      exact Or.inr (Or.inr (by rw [joined, complete]))

theorem lines_of_private (front : chars <+: privateLine secret) :
    Spark.lines chars = if chars = [] then [] else [chars] :=
  @lines_unlines_append [] chars (by simp) fun member =>
    break_not_mem_privateLine (front.subset member)

theorem lines_of_public {part : Chars} (front : part <+: publicLine curve secret) :
    Spark.lines (privateLine secret ++ '\n' :: part) =
      if part = [] then [privateLine secret] else [privateLine secret, part] := by
  have read := @lines_unlines_append [privateLine secret] part
    (by simpa using break_not_mem_privateLine) fun member =>
      break_not_mem_publicLine (front.subset member)
  have joined : unlines [privateLine secret] ++ part = privateLine secret ++ '\n' :: part := by
    simp [unlines]
  rw [joined] at read
  exact read

theorem isHexDigit_of_front (front : digits <+: publicHex curve secret) {char : Char}
    (member : char ∈ digits) : isHexDigit char = true :=
  isHexDigit_of_mem_publicHex (front.subset member)

/-- A line that breaks off inside the label is not found, and behind the label
its field is the first part of the public key. -/
theorem cut_of_front (front : chars <+: publicLine curve secret)
    (found : "PUBLIC:".toList <:+: chars) : cut chars <+: publicHex curve secret := by
  have labelled : "PUBLIC:".toList <+: chars := by
    rcases List.prefix_or_prefix_of_prefix front (List.prefix_append _ _) with short | long
    · rw [short.eq_of_length_le found.length_le]
    · exact long
  rcases labelled with ⟨digits, joined⟩
  rw [← joined] at front ⊢
  rw [List.prefix_append_right_inj] at front
  have field : cut ("PUBLIC:".toList ++ digits) = digits :=
    @cut_digits "PUBLIC".toList digits (by simp) fun _ => isHexDigit_of_front front
  rw [field]
  exact front

/-- What `grep "PUBLIC:" | cut -d: -f2` finds in the first part of a key pair:
nothing, or the first part of the public key. -/
theorem fields_of_front (front : chars <+: keypairText curve secret) :
    fields "PUBLIC:".toList chars = [] ∨
      Exists fun digits => digits <+: publicHex curve secret ∧
        fields "PUBLIC:".toList chars = [digits] := by
  have missed : forall {line : Chars}, line <+: privateLine secret ->
      ¬ "PUBLIC:".toList <:+: line :=
    fun inPrivate occurs => not_mem_privateLine (inPrivate.subset (occurs.subset (by simp)))
  have whole := missed (List.prefix_refl (privateLine secret))
  rcases front_cases front with inPrivate | ⟨part, inPublic, joined⟩ | complete
  · left
    unfold fields
    rw [lines_of_private inPrivate]
    split
    · rfl
    · simp only [List.filter_cons, List.filter_nil, missed inPrivate, decide_false,
        Bool.false_eq_true, if_false, List.map_nil]
  · subst joined
    unfold fields
    rw [lines_of_public inPublic]
    by_cases found : "PUBLIC:".toList <:+: part
    · right
      have nonempty : part ≠ [] := by
        intro empty
        rw [empty] at found
        simp at found
      refine ⟨cut part, cut_of_front inPublic found, ?_⟩
      rw [if_neg nonempty]
      simp only [List.filter_cons, List.filter_nil, whole, found, decide_false, decide_true,
        Bool.false_eq_true, if_false, if_true, List.map_cons, List.map_nil]
    · left
      split <;>
        simp only [List.filter_cons, List.filter_nil, whole, found, decide_false,
          Bool.false_eq_true, if_false, List.map_nil]
  · right
    rw [complete]
    exact ⟨publicHex curve secret, List.prefix_refl _, fields_public⟩

/-- A command substitution leaves digits as they are, and takes the end of their
line off. -/
theorem captured_digits (front : digits <+: publicHex curve secret) :
    captured [String.ofList digits] = digits ∧
      captured [String.ofList (unlines [digits])] = digits := by
  have kept : digits.rdropWhile (· = '\n') = digits := by
    apply List.rdropWhile_eq_self_iff.mpr
    intro nonempty same
    have hex := isHexDigit_of_front front (List.getLast_mem nonempty)
    rw [of_decide_eq_true same] at hex
    revert hex
    decide
  constructor
  · rw [captured, List.flatMap_singleton, String.toList_ofList]
    exact kept
  · rw [captured, List.flatMap_singleton, String.toList_ofList, unlines, List.flatMap_singleton,
      List.rdropWhile_concat_pos _ _ _ (by simp)]
    exact kept

/-- What is read of a line that is being written. -/
theorem captured_of_front (front : digits <+: publicHex curve secret)
    (written : chars <+: unlines [digits]) :
    captured [String.ofList chars] <+: digits := by
  have line : unlines [digits] = digits ++ '\n' :: [] := List.flatMap_singleton _ _
  have parts := written
  rw [line] at parts
  rcases front_of_append_cons parts with short | ⟨nothing, ended, joined⟩
  · rw [(captured_digits (short.trans front)).1]
    exact short
  · rw [List.prefix_nil.mp ended] at joined
    rw [joined, ← line, (captured_digits front).2]

end Keypair

theorem PublicDigits.captured (known : PublicDigits curve digits)
    (written : chars <+: unlines [digits]) :
    PublicDigits curve (captured [String.ofList chars]) := by
  rcases known with ⟨secret, front⟩
  exact ⟨secret, (captured_of_front front written).trans front⟩

/-! ## Commands that may be run anywhere -/

theorem Guarded.put (guarded : Guarded curve world) {content : Option Content}
    (admissible : forall kept, content = some kept -> Admissible curve file kept) :
    Guarded curve (world.put file content) := by
  intro other kept there
  by_cases same : other = file
  · subst same
    rw [World.put_self] at there
    exact admissible kept there
  · rw [World.put_of_ne same] at there
    exact guarded other kept there

theorem Guarded.putChars (guarded : Guarded curve world)
    (admissible : Admissible curve file (.chars chars)) :
    Guarded curve (world.put file (some (.chars chars))) := by
  apply guarded.put
  intro kept same
  cases same
  exact admissible

/-- Characters printed to an emptied file, of which any first part may be there. -/
theorem Guarded.printing (guarded : Guarded curve world)
    (emptied : world file = some (.chars []))
    (fits : forall front, front <+: chars -> Admissible curve file (.chars front))
    (outcome : Outcome) : Guarded curve (world.printing file chars outcome) := by
  apply guarded.putChars
  rw [World.text_eq emptied, List.nil_append]
  apply fits
  split
  · exact List.prefix_refl _
  · exact List.take_prefix _ _

theorem perform_of_targets {command : Command} (none : command.targets = []) (curve : Curve)
    (world : World) (outcome : Outcome) : (perform curve command world outcome).1 = world := by
  funext file
  apply perform_of_not_mem
  rw [none]
  exact List.not_mem_nil

theorem harmless_of_targets {command : Command} (none : command.targets = []) :
    Harmless curve command := by
  intro world outcome guarded
  rw [perform_of_targets none]
  exact guarded

theorem emptied_of_effective {outcome : Outcome} (curve : Curve) (file : File) (world : World)
    (effective : outcome.effective = true) :
    (perform curve (.openFile file) world outcome).1 file = some (.chars []) := by
  rw [openFile_eq, if_pos effective]
  exact World.put_self _ _ _

theorem harmless_openFile (empty : Admissible curve file (.chars [])) :
    Harmless curve (.openFile file) := by
  intro world outcome guarded
  rw [openFile_eq]
  split
  · exact guarded.putChars empty
  · exact guarded

/-- A file that is copied or moved to where its content may stand too. -/
theorem harmless_transfer {source target : File} {command : Command}
    (transfers : command = .copy source target ∨ command = .move source target)
    (fits : forall content, Admissible curve source content -> Admissible curve target content) :
    Harmless curve command := by
  intro world outcome guarded
  have taken : forall {content : Content}, world source = some content ->
      forall kept, some content = some kept -> Admissible curve target kept := by
    intro content present kept same
    rw [← Option.some.inj same]
    exact fits content (guarded source content present)
  rcases transfers with copies | moves
  · subst copies
    rcases @copy_cases curve world outcome source target with
      ⟨content, present, -, done⟩ | ⟨-, done⟩
    · rw [done]
      exact guarded.put (taken present)
    · rw [done]
      exact guarded
  · subst moves
    rcases @move_cases curve world outcome source target with
      ⟨content, present, -, done⟩ | ⟨-, done⟩
    · rw [done]
      refine (guarded.put ?_).put (taken present)
      intro kept impossible
      cases impossible
    · rw [done]
      exact guarded

theorem harmless_extract {pattern : Chars} {source target : File}
    (free : forall content, Admissible curve target content) :
    Harmless curve (.extract pattern source target) :=
  fun _ _ guarded => guarded.putChars (free _)

theorem harmless_genrsa {target : File} (free : forall content, Admissible curve target content) :
    Harmless curve (.genrsa target) :=
  fun _ _ guarded => guarded.put fun kept _ => free kept

theorem harmless_req {key target : File} (free : forall content, Admissible curve target content) :
    Harmless curve (.req key target) := by
  intro world outcome guarded
  change Guarded curve (world.req key target outcome).1
  unfold World.req
  split
  · exact guarded.put fun kept _ => free kept
  · exact guarded.put fun kept _ => free kept

/-- What the other files of an operator hold is never shown. -/
theorem admissible_home {kept : HomeFile} (index : Index)
    (other : kept ∉ [.keypair, .operatorsJson, .serverCrt]) (content : Content) :
    Admissible curve (.home index kept) content := by
  cases kept with
  | keypair | operatorsJson | serverCrt => simp at other
  | _ => trivial

theorem publicDigits_nil : PublicDigits curve [] :=
  ⟨0, List.nil_prefix⟩

/-- The files that are written in two commands may be empty. -/
theorem admissible_nil (index : Index)
    (named : file ∈ [keypair index, operatorKey index, pubkey index, operatorsFile index]) :
    Admissible curve file (.chars []) := by
  simp only [List.mem_cons, List.not_mem_nil, or_false] at named
  rcases named with same | same | same | same <;> subst same
  · exact ⟨0, [], List.nil_prefix, rfl⟩
  · trivial
  · exact ⟨[], [], publicDigits_nil, List.nil_prefix, rfl⟩
  · exact ⟨[], [], [], ⟨publicDigits_nil, publicDigits_nil⟩, List.nil_prefix, rfl⟩

/-! ## One operator among both -/

/-- What the operators keep to: each writes to its own files, and leaves every
file with what it may hold. -/
def secrecy (curve : Curve) : Machine.Cooperation Index Command World Ended where
  holds := Guarded curve
  rely index world changed :=
    Guarded curve changed ∧ forall file, file.owner = index -> changed file = world file
  own index command := forall file, file ∈ command.targets -> file.owner = index
  post _ _ _ := True

/-- A script that leaves the files guarded wherever it is cut and however it ends. -/
abbrev Guards (curve : Curve) (index : Index) (script : Script Command Ended) (world : World) :
    Prop :=
  (machine curve).Among ((secrecy curve).rely index) (fun _ => True) (Guarded curve)
    (fun _ => Guarded curve) script world

variable {script next yes no : Script Command Ended} {command : Command}

theorem guards_done {ended : Ended} (world : World) (guarded : Guarded curve world) :
    Guards curve index (.done ended) world :=
  guarded

theorem guards_of_harmless (calls : script.Calls (Harmless curve)) (guarded : Guarded curve world) :
    Guards curve index script world := by
  apply Machine.guarantees_of_invariant (Guarded curve) calls
  · rintro ⟨command, before, found, outcome⟩ harmless ⟨⟨held, own⟩, known⟩ -
    exact harmless found outcome held
  · intro world held
    exact held
  · intro ended world held
    exact held
  · exact guarded

theorem guards_behind (first : forall world, Guarded curve world -> Guards curve index script world)
    (later : forall world, Guarded curve world -> Guards curve index next world)
    (guarded : Guarded curve world) : Guards curve index (behind script next) world := by
  apply guarantees_behind
  apply (first world guarded).mono fun _ held => held
  intro ended world held
  exact ⟨fun _ => later world held, fun _ => held⟩

/-- A command that may be run anywhere, and what follows it where it succeeds. -/
theorem guards_run (harmless : Harmless curve command)
    (goesOn : forall found outcome, Guarded curve (perform curve command found outcome).1 ->
      (forall file, file.owner = index -> found file = world file) ->
      (perform curve command found outcome).2.ok = true ->
        Guards curve index next (perform curve command found outcome).1)
    (guarded : Guarded curve world) : Guards curve index (run command next) world := by
  apply Machine.guarantees_must guarded
  · rintro ⟨found, outcome⟩ ⟨⟨held, own⟩, known⟩ works
    exact goesOn found outcome (harmless found outcome held) own works
  · rintro ⟨found, outcome⟩ ⟨⟨held, own⟩, known⟩ _
    exact harmless found outcome held

/-- A command that needs what the one in front of it left. -/
theorem guards_run_behind
    (keeps : forall found outcome, Guarded curve found ->
      (forall file, file.owner = index -> found file = world file) ->
        Guarded curve (perform curve command found outcome).1)
    (goesOn : forall world, Guarded curve world -> Guards curve index next world)
    (guarded : Guarded curve world) : Guards curve index (run command next) world := by
  apply Machine.guarantees_must guarded
  · rintro ⟨found, outcome⟩ ⟨⟨held, own⟩, known⟩ _
    exact goesOn _ (keeps found outcome held own)
  · rintro ⟨found, outcome⟩ ⟨⟨held, own⟩, known⟩ _
    exact keeps found outcome held own

/-- A redirection that succeeded, and what is printed into it. -/
theorem guards_redirect {prints : Command} (empty : Admissible curve file (.chars []))
    (owned : file.owner = index)
    (keeps : forall found outcome, Guarded curve found -> found file = some (.chars []) ->
      Guarded curve (perform curve prints found outcome).1)
    (goesOn : forall world, Guarded curve world -> Guards curve index next world)
    (guarded : Guarded curve world) :
    Guards curve index (run (.openFile file) (run prints next)) world := by
  apply guards_run (harmless_openFile empty) _ guarded
  intro found outcome held _ opened
  have emptied := emptied_of_effective curve file found (Outcome.effective_of_ok opened)
  apply guards_run_behind _ goesOn held
  intro found' outcome' held' own
  exact keeps found' outcome' held' ((own file owned).trans emptied)

theorem guards_writeFile (empty : Admissible curve file (.chars [])) (owned : file.owner = index)
    (fits : forall front, front <+: chars -> Admissible curve file (.chars front))
    (guarded : Guarded curve world) :
    Guards curve index (writeFile file chars (.done .returned)) world := by
  apply guards_redirect empty owned _ guards_done guarded
  intro found outcome held emptied
  exact held.printing emptied fits outcome

/-- Commands without targets leave the files guarded, whoever runs them. -/
theorem guarded_of_look (event : Event Command World (World × Outcome))
    (none : event.command.targets = [])
    (allowed : (secrecy curve).rely index event.world event.input.1 ∧ True)
    (_ : Guarded curve event.world) : Guarded curve ((machine curve).disturbed.after event) :=
  harmless_of_targets none event.input.1 event.input.2 allowed.1.1

theorem guards_lookFor {files : List File}
    (passes : forall world, Guarded curve world -> Guards curve index yes world)
    (fails : forall world, Guarded curve world -> Guards curve index no world)
    (guarded : Guarded curve world) : Guards curve index (ifFiles files yes no) world :=
  guarantees_lookFor (Guarded curve) (fun _ held => held) guarded_of_look passes fails guarded

/-! ## The identity -/

theorem guards_publishPubkey (guarded : Guarded curve world) :
    Guards curve index (publishPubkey index) world := by
  apply guarantees_capturing guarded
  · rintro ⟨found, outcome⟩ ⟨⟨held, own⟩, known⟩ works identity read
    have output : captured [String.ofList (unlines (fields "PUBLIC:".toList
        (found.text (keypair index))))] = identity := read
    have pair : Exists fun secret => found.text (keypair index) <+: keypairText curve secret := by
      cases there : found (keypair index) with
      | none =>
          refine ⟨0, ?_⟩
          rw [World.text, there]
          exact List.nil_prefix
      | some content =>
          rcases held (keypair index) content there with ⟨secret, chars, front, same⟩
          subst same
          exact ⟨secret, by rwa [World.text_eq there]⟩
    rcases pair with ⟨secret, front⟩
    have shown : PublicDigits curve identity := by
      rcases fields_of_front front with nothing | ⟨digits, known, field⟩
      · rw [nothing] at output
        rw [← output]
        exact publicDigits_nil
      · rw [field] at output
        rw [← output]
        exact PublicDigits.captured ⟨secret, known⟩ (List.prefix_refl _)
    split
    · exact held
    · apply guards_writeFile (admissible_nil index (by simp)) rfl _ held
      intro front written
      exact ⟨identity, front, shown, written, rfl⟩
  · rintro ⟨found, outcome⟩ ⟨⟨held, own⟩, known⟩
    exact held

/-- `ensure_identity`, whatever files it finds. -/
theorem guards_ensureIdentity (guarded : Guarded curve world) :
    Guards curve index (ensureIdentity index) world := by
  have elif : forall world, Guarded curve world -> Guards curve index
      (ifFiles [operatorKey index, keypair index] (publishPubkey index) (.done .exited)) world :=
    fun _ => guards_lookFor (fun _ => guards_publishPubkey) guards_done
  have generates : forall world, Guarded curve world ->
      Guards curve index (generateIdentity index (publishPubkey index)) world := by
    intro world guarded
    apply guards_redirect (admissible_nil index (by simp)) rfl _ _ guarded
    · intro found outcome held emptied
      apply held.printing emptied
      intro front written
      exact ⟨outcome.secret, front, written, rfl⟩
    · intro world guarded
      apply guards_run (harmless_openFile (admissible_nil index (by simp))) _ guarded
      intro found outcome held _ _
      apply guards_run_behind _ _ held
      · intro found outcome held _
        exact harmless_extract (admissible_home index (by simp)) found outcome held
      · intro world guarded
        apply guards_run_behind _ (fun _ => guards_publishPubkey) guarded
        intro found outcome held _
        exact harmless_of_targets rfl found outcome held
  apply @guards_lookFor _ _ _ _ _ [operatorKey index] elif _ guarded
  intro world guarded
  exact @guards_lookFor _ _ _ _ _ [keypair index] elif generates guarded

/-! ## The certificate -/

theorem guards_publishCrt (guarded : Guarded curve world) :
    Guards curve index (publishCrt index) world := by
  apply guards_of_harmless _ guarded
  apply calls_run
  · exact harmless_transfer (Or.inl rfl) fun _ held => held
  · refine calls_run ?_ trivial
    exact harmless_transfer (Or.inr rfl) fun _ held => held

/-- A new certificate: what is moved into its place is what `openssl req` made,
also where another one failed before. -/
theorem guards_generateCrt (guarded : Guarded curve world) :
    Guards curve index (generateCrt index) world := by
  apply guards_run (harmless_genrsa (admissible_home index (by simp))) _ guarded
  intro found outcome held _ _
  apply guards_run (harmless_req (admissible_home index (by simp))) _ held
  intro found outcome held _ requested
  have made : Exists fun certificate =>
      (perform curve (.req (serverKeyTmp index) (serverCrtTmp index)) found outcome).1
        (serverCrtTmp index) = some (.certificate certificate) := by
    change (found.req (serverKeyTmp index) (serverCrtTmp index) outcome).2.ok = true at requested
    change Exists fun certificate => (found.req (serverKeyTmp index) (serverCrtTmp index) outcome).1
      (serverCrtTmp index) = some (.certificate certificate)
    unfold World.req at requested ⊢
    split
    · exact ⟨_, World.put_self _ _ _⟩
    · next failed =>
        split at requested
        · next key ok there => exact absurd there (failed key ok)
        · cases requested
  rcases made with ⟨certificate, made⟩
  apply guards_run (harmless_transfer (Or.inr rfl) fun content _ =>
    admissible_home index (by simp) content) _ held
  intro found' outcome' held' own _
  have still : (perform curve (.move (serverKeyTmp index) (serverKey index)) found' outcome').1
      (serverCrtTmp index) = some (.certificate certificate) := by
    rw [perform_of_not_mem (by simp), own _ rfl]
    exact made
  apply guards_run_behind _ (fun _ => guards_publishCrt) held'
  intro found'' outcome'' held'' own'
  rcases @move_cases curve found'' outcome'' (serverCrtTmp index) (serverCrt index) with
    ⟨content, present, -, done⟩ | ⟨-, done⟩
  · have same := present.symm.trans ((own' _ rfl).trans still)
    cases same
    rw [done]
    refine (held''.put ?_).put ?_
    · intro kept impossible
      cases impossible
    · intro kept same
      cases same
      exact ⟨certificate, rfl⟩
  · rw [done]
    exact held''

/-- `ensure_tls_cert`, whatever files it finds. -/
theorem guards_ensureTlsCert (guarded : Guarded curve world) :
    Guards curve index (ensureTlsCert index) world := by
  have backsUp : forall {file legacy : File} {next : Script Command Ended},
      (forall content, Admissible curve legacy content) ->
      (forall world, Guarded curve world -> Guards curve index next world) ->
      forall world, Guarded curve world -> Guards curve index (backUp file legacy next) world := by
    intro file legacy next free later world guarded
    apply @guards_lookFor _ _ _ _ _ [legacy] later _ guarded
    intro world guarded
    apply guards_run_behind _ later guarded
    intro found outcome held _
    exact harmless_transfer (Or.inl rfl) (fun _ _ => free _) found outcome held
  have replaces : forall world, Guarded curve world -> Guards curve index
      (ifFiles [serverCrt index, serverKey index]
        (backUp (serverCrt index) (serverCrtLegacyCa index) <|
          backUp (serverKey index) (serverKeyLegacyCa index) (generateCrt index))
        (generateCrt index)) world := by
    intro world guarded
    apply guards_lookFor _ (fun _ => guards_generateCrt) guarded
    apply backsUp (admissible_home index (by simp))
    exact backsUp (admissible_home index (by simp)) fun _ => guards_generateCrt
  apply guards_lookFor _ replaces guarded
  intro world guarded
  apply Machine.guarantees_test guarded
  · rintro ⟨found, outcome⟩ ⟨⟨held, own⟩, known⟩ _
    exact guards_publishCrt held
  · rintro ⟨found, outcome⟩ ⟨⟨held, own⟩, known⟩ _
    exact replaces found held

/-! ## The other operator -/

/-- A read of a public key, also of one that is being written. -/
theorem guards_cat {other : Index} {rest : Chars -> Script Command Ended}
    (goesOn : forall digits, PublicDigits curve digits -> forall world, Guarded curve world ->
      Guards curve index (rest digits) world)
    (guarded : Guarded curve world) :
    Guards curve index (capturing (.cat (pubkey other)) rest) world := by
  apply guarantees_capturing guarded
  · rintro ⟨found, outcome⟩ ⟨⟨held, own⟩, -⟩ works chars read
    have there : (found (pubkey other)).isSome = true := (Bool.and_eq_true_iff.mp works).2
    rcases Option.isSome_iff_exists.mp there with ⟨content, shown⟩
    rcases held (pubkey other) content shown with ⟨digits, text, known, front, same⟩
    subst same
    have output : captured [String.ofList (found.text (pubkey other))] = chars := read
    rw [World.text_eq shown] at output
    rw [← output]
    exact goesOn _ (known.captured front) found held
  · rintro ⟨found, outcome⟩ ⟨⟨held, own⟩, known⟩
    exact held

/-- `rendezvous_operators`. -/
theorem guards_rendezvousOperators (guarded : Guarded curve world) :
    Guards curve index (rendezvousOperators index) world := by
  apply guarantees_awaitPeer (Guarded curve) (fun _ held => held) (fun _ held => held)
    guarded_of_look _ guarded
  intro world guarded
  apply guards_lookFor _ guards_done guarded
  intro world guarded
  apply guards_lookFor _ guards_done guarded
  intro world guarded
  apply guards_cat _ guarded
  intro pub0 known0 world guarded
  apply guards_cat _ guarded
  intro pub1 known1 world guarded
  apply guards_writeFile (admissible_nil index (by simp)) rfl _ guarded
  intro front written
  exact ⟨pub0, pub1, front, ⟨known0, known1⟩, written, rfl⟩

/-! ## Both operators -/

theorem guards_entrypoint (guarded : Guarded curve world) :
    Guards curve index (entrypoint index) world := by
  have identity : forall world, Guarded curve world ->
      Guards curve index (behind (ensureIdentity index) <| behind (ensureTlsCert index) <|
        rendezvousOperators index) world := by
    intro world
    apply guards_behind fun _ => guards_ensureIdentity
    intro world
    exact guards_behind (fun _ => guards_ensureTlsCert) fun _ => guards_rendezvousOperators
  apply guards_behind _ _ guarded
  · intro world guarded
    exact guarantees_prepare (Guarded curve) (fun _ held => held) (fun _ held => held)
      guarded_of_look identity guarded
  · intro world guarded
    apply guards_of_harmless _ guarded
    refine calls_test (harmless_of_targets rfl) ?_ trivial
    exact calls_run (harmless_of_targets rfl) (calls_startFrostSigner harmless_of_targets trivial)

/-- Every command of the entrypoint writes to files of its operator. -/
theorem calls_own_entrypoint : (entrypoint index).Calls ((secrecy curve).own index) := by
  have silent : forall {command : Command}, command.targets = [] ->
      (secrecy curve).own index command := by
    intro command none file member
    rw [none] at member
    cases member
  apply calls_behind (@calls_startup curve (fun _ => 0) index)
  refine calls_test (silent rfl) ?_ trivial
  exact calls_run (silent rfl) (calls_startFrostSigner silent trivial)

theorem secrecy_sound : (secrecy curve).Sound (machine curve) entrypoint fun _ => True where
  reflexive _ _ guarded := ⟨guarded, fun _ _ => rfl⟩
  transitive _ _ _ _ first second :=
    ⟨second.1, fun file own => (second.2 file own).trans (first.2 file own)⟩
  yields := by
    intro index other command world outcome different own guarded
    refine ⟨guarded, ?_⟩
    intro file owner
    apply perform_of_not_mem
    intro member
    exact different ((own file member).symm.trans owner)
  stable _ _ _ _ _ _ := trivial
  starts index world guarded := by
    refine ⟨calls_own_entrypoint, ?_⟩
    apply (@guards_entrypoint curve index world guarded).mono fun _ held => held
    intro ended world held
    exact ⟨held, trivial⟩

/-- However the operators are started, stopped and interleaved, and whatever each
of their commands does, the volume they share holds certificates and what has been
written of public keys, and `operators.json` names no other keys. -/
theorem public_of_acts (guarded : Guarded curve world) (actions : List (Action Index Outcome))
    (index : Index) :
    (forall file content,
      ((machine curve).acts entrypoint (atRest world) actions).world (.shared index file) =
        some content -> Public curve content) ∧
    forall content,
      ((machine curve).acts entrypoint (atRest world) actions).world (operatorsFile index) =
        some content ->
      Exists fun pub0 => Exists fun pub1 => Exists fun chars =>
        (PublicDigits curve pub0 ∧ PublicDigits curve pub1) ∧ chars <+: operatorsJson pub0 pub1 ∧
          content = .chars chars := by
  have initially : (secrecy curve).Intact (machine curve) (fun _ => True) (atRest world) := by
    refine ⟨guarded, ?_⟩
    intro process script impossible
    cases impossible
  have held : Guarded curve ((machine curve).acts entrypoint (atRest world) actions).world :=
    (initially.acts secrecy_sound fun _ _ => trivial).holds
  refine ⟨?_, fun content there => held _ content there⟩
  intro file content there
  have admissible := held _ content there
  cases file with
  | pubkey =>
      rcases admissible with ⟨digits, chars, known, front, same⟩
      subst same
      exact .pubkey known front
  | serverCrt =>
      rcases admissible with ⟨certificate, same⟩
      subst same
      exact .certificate certificate
  | serverCrtTmp =>
      rcases admissible with ⟨certificate, same⟩
      subst same
      exact .certificate certificate

/-- Both operators start on empty volumes, and the first one is cut while it shows
the key it has drawn. -/
def showing : List (Action Index Outcome) :=
  .start 0 :: .start 1 :: steps 15 0 ++ [.step 0 { ok := false, written := 4 }, .stop 0]

theorem public_of_acts_sample :
    ((machine curveAtTwo).acts entrypoint (atRest emptyVolume) showing).world (.shared 0 .pubkey) =
        some (.chars ['0', '2', '7', '9']) ∧
      Public curveAtTwo (.chars ['0', '2', '7', '9']) := by
  have guarded : Guarded curveAtTwo emptyVolume := by
    intro file content impossible
    cases impossible
  have shown : ((machine curveAtTwo).acts entrypoint (atRest emptyVolume) showing).world
      (.shared 0 .pubkey) = some (.chars ['0', '2', '7', '9']) := by
    decide +kernel
  exact ⟨shown, (public_of_acts guarded showing 0).1 .pubkey (.chars ['0', '2', '7', '9']) shown⟩

end Spark
end MutinyNet
