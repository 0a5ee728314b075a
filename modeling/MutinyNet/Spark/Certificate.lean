import MutinyNet.Shell.Record
import MutinyNet.Spark.Entrypoint

namespace MutinyNet
namespace Spark

open Shell Transition

/-!
# Rotating the certificate

`ensure_tls_cert` keeps a pair that is marked `CA:FALSE` and replaces every other
one, the key in front of the certificate, behind a backup of each.  Whether a
pair is kept is decided by the mark of its certificate alone.  So a pair that
was good but could not be read once, and whose key was replaced in a run that
did not come to the certificate, is kept from then on.
-/

/-- The two files hold the pair of the certificate. -/
def Holds (crt key : File) (certificate : Certificate) (world : World) : Prop :=
  world crt = some (.certificate certificate) ∧ world key = some (.rsaKey certificate.key)

def Serving (index : Index) (certificate : Certificate) (world : World) : Prop :=
  Holds (serverCrt index) (serverKey index) certificate world

def BackedUp (index : Index) (certificate : Certificate) (world : World) : Prop :=
  Holds (serverCrtLegacyCa index) (serverKeyLegacyCa index) certificate world

/-- A volume with no certificate or with a matching pair, legacy or not, that has
not been rotated yet. -/
structure Unrotated (index : Index) (world : World) : Prop where
  pair : world (serverCrt index) = none ∧ world (serverKey index) = none ∨
    Exists fun certificate => Serving index certificate world
  crtLegacyCa : world (serverCrtLegacyCa index) = none
  keyLegacyCa : world (serverKeyLegacyCa index) = none

/-- A matching pair that is marked `CA:FALSE`, and its certificate is published. -/
def Rotated (index : Index) (world : World) : Prop :=
  Exists fun certificate : Certificate => certificate.caFalse = true ∧
    Serving index certificate world ∧
    world (sharedCrt index) = some (.certificate certificate)

/-- What a run leaves. -/
def leftByCert (curve : Curve) (index : Index) (world : World) (outcomes : List Outcome) : World :=
  ((machine curve).exec (ensureTlsCert index) world outcomes).1

/-- The run was not cut and no command under `errexit` failed. -/
def Completes (curve : Curve) (index : Index) (world : World) (outcomes : List Outcome) : Prop :=
  ((machine curve).exec (ensureTlsCert index) world outcomes).2 = some .returned

def nextCertRun (curve : Curve) (index : Index) (world : World) (outcomes : List Outcome) :
    Option World :=
  some (leftByCert curve index world outcomes)

/-! ## Runs that stop between the two moves -/

/-- The new key replaces the key of a certificate that is marked `CA:FALSE`. -/
def Unpairs (index : Index) (event : Event Command World Outcome) : Prop :=
  event.command = .move (serverKeyTmp index) (serverKey index) ∧ event.input.effective = true ∧
    event.world.isCaFalse (serverCrt index) = true

/-- The new certificate is put in place. -/
def Pairs (index : Index) (event : Event Command World Outcome) : Prop :=
  event.command = .move (serverCrtTmp index) (serverCrt index) ∧ event.input.effective = true

/-- A run that takes its key from a certificate marked `CA:FALSE` goes on to the
new certificate. -/
def CarefulCert (curve : Curve) (index : Index) (world : World) (outcomes : List Outcome) : Prop :=
  (Exists fun event => event ∈ (machine curve).events (ensureTlsCert index) world outcomes ∧
    Unpairs index event) ->
  Exists fun event => event ∈ (machine curve).events (ensureTlsCert index) world outcomes ∧
    Pairs index event

/-! ## One run, and the pair -/

/-- A certificate marked `CA:FALSE` has its key beside it. -/
def SoundPair (index : Index) (world : World) : Prop :=
  world.isCaFalse (serverCrt index) = true ->
    Exists fun certificate : Certificate => certificate.caFalse = true ∧
      Serving index certificate world

/-- Where a run may be cut: the pair is sound, or the run is not careful. -/
def CutSound (index : Index) (state : World × List (Event Command World Outcome)) : Prop :=
  ((Exists fun event => event ∈ state.2 ∧ Unpairs index event) ->
    Exists fun event => event ∈ state.2 ∧ Pairs index event) -> SoundPair index state.1

/-- How a run may end. -/
def EndsSound (index : Index) (ended : Ended)
    (state : World × List (Event Command World Outcome)) : Prop :=
  CutSound index state ∧ (ended = .returned -> Rotated index state.1)

/-- In front of the two moves. -/
structure BeforeMoves (index : Index) (state : World × List (Event Command World Outcome)) :
    Prop where
  sound : SoundPair index state.1
  unmoved : forall event, event ∈ state.2 -> ¬ Pairs index event

/-- Between the two moves. -/
structure BetweenMoves (index : Index) (certificate : Certificate)
    (state : World × List (Event Command World Outcome)) : Prop where
  caFalse : certificate.caFalse = true
  crtTmp : state.1 (serverCrtTmp index) = some (.certificate certificate)
  key : state.1 (serverKey index) = some (.rsaKey certificate.key)
  unmoved : forall event, event ∈ state.2 -> ¬ Pairs index event
  unpaired : state.1.isCaFalse (serverCrt index) = true ->
    Exists fun event => event ∈ state.2 ∧ Unpairs index event

section Pair

variable {index : Index} {curve : Curve} {world : World}
  {past : List (Event Command World Outcome)}

theorem isCaFalse_congr {other : World} {file : File} (same : other file = world file) :
    other.isCaFalse file = world.isCaFalse file := by
  unfold World.isCaFalse
  rw [same]

theorem SoundPair.congr {other : World} (sound : SoundPair index world)
    (crt : other (serverCrt index) = world (serverCrt index))
    (key : other (serverKey index) = world (serverKey index)) : SoundPair index other := by
  intro marked
  rw [isCaFalse_congr crt] at marked
  rcases sound marked with ⟨certificate, caFalse, first, second⟩
  exact ⟨certificate, caFalse, crt.trans first, key.trans second⟩

theorem soundPair_of_serving {certificate : Certificate} (caFalse : certificate.caFalse = true)
    (serving : Serving index certificate world) : SoundPair index world :=
  fun _ => ⟨certificate, caFalse, serving⟩

theorem BeforeMoves.cut (before : BeforeMoves index (world, past)) :
    CutSound index (world, past) :=
  fun _ => before.sound

theorem BetweenMoves.cut {certificate : Certificate}
    (between : BetweenMoves index certificate (world, past)) : CutSound index (world, past) := by
  intro careful marked
  rcases careful (between.unpaired marked) with ⟨event, member, pairs⟩
  exact absurd pairs (between.unmoved event member)

/-- A command that leaves the pair alone. -/
theorem BeforeMoves.step {command : Command} {input : Outcome}
    (before : BeforeMoves index (world, past)) (crt : serverCrt index ∉ command.targets)
    (key : serverKey index ∉ command.targets) :
    BeforeMoves index ((perform curve command world input).1,
      past ++ [⟨command, world, input⟩]) where
  sound := before.sound.congr (perform_of_not_mem crt curve world input)
    (perform_of_not_mem key curve world input)
  unmoved := by
    intro event member
    rcases List.mem_append.mp member with earlier | last
    · exact before.unmoved event earlier
    · rw [List.mem_singleton.mp last]
      rintro ⟨same, -⟩
      dsimp only at same
      subst same
      exact crt (List.mem_cons_of_mem _ List.mem_cons_self)

/-- Wherever the script is cut the pair is sound, or the run is not careful; and
if it returns, the pair is good and published. -/
def SafeFrom (curve : Curve) (index : Index) (script : Script Command Ended)
    (state : World × List (Event Command World Outcome)) : Prop :=
  (machine curve).recording.Guarantees (fun _ => True) (CutSound index) (EndsSound index) script state

theorem safeFrom_exited {state : World × List (Event Command World Outcome)}
    (cut : CutSound index state) : SafeFrom curve index (.done .exited) state :=
  ⟨cut, fun impossible => nomatch impossible⟩

theorem BeforeMoves.run {command : Command} {next : Script Command Ended}
    (before : BeforeMoves index (world, past)) (crt : serverCrt index ∉ command.targets)
    (key : serverKey index ∉ command.targets)
    (goesOn : forall input, (perform curve command world input).2.ok = true ->
      BeforeMoves index ((perform curve command world input).1,
        past ++ [⟨command, world, input⟩]) ->
      SafeFrom curve index next ((perform curve command world input).1,
        past ++ [⟨command, world, input⟩])) :
    SafeFrom curve index (Spark.run command next) (world, past) := by
  apply Machine.guarantees_must before.cut
  · intro input _ works
    exact goesOn input works (before.step crt key)
  · intro input _ _
    exact @safeFrom_exited _ curve _ (before.step crt key).cut

theorem BeforeMoves.test {command : Command} {yes no : Script Command Ended}
    (before : BeforeMoves index (world, past)) (crt : serverCrt index ∉ command.targets)
    (key : serverKey index ∉ command.targets)
    (passes : forall input, (perform curve command world input).2.ok = true ->
      BeforeMoves index ((perform curve command world input).1,
        past ++ [⟨command, world, input⟩]) ->
      SafeFrom curve index yes ((perform curve command world input).1,
        past ++ [⟨command, world, input⟩]))
    (fails : forall input, BeforeMoves index ((perform curve command world input).1,
        past ++ [⟨command, world, input⟩]) ->
      SafeFrom curve index no ((perform curve command world input).1,
        past ++ [⟨command, world, input⟩])) :
    SafeFrom curve index (.test command yes no) (world, past) := by
  apply Machine.guarantees_test before.cut
  · intro input _ works
    exact passes input works (before.step crt key)
  · intro input _ _
    exact fails input (before.step crt key)

/-- A good pair is published. -/
theorem safeFrom_publishCrt {certificate : Certificate} (caFalse : certificate.caFalse = true)
    (serving : Serving index certificate world) :
    SafeFrom curve index (publishCrt index) (world, past) := by
  have cut : forall {world : World} {past}, Serving index certificate world ->
      CutSound index (world, past) := fun serving _ => soundPair_of_serving caFalse serving
  have kept : forall {command : Command} {world : World}, Serving index certificate world ->
      serverCrt index ∉ command.targets -> serverKey index ∉ command.targets -> forall input,
        Serving index certificate (perform curve command world input).1 := by
    intro command world serving crt key input
    exact ⟨(perform_of_not_mem crt curve world input).trans serving.1,
      (perform_of_not_mem key curve world input).trans serving.2⟩
  have copied : forall input, Serving index certificate
      (perform curve (.copy (serverCrt index) (sharedCrtTmp index)) world input).1 :=
    kept serving (by simp) (by simp)
  apply Machine.guarantees_must (cut serving)
  · intro input _ works
    have shown := (copied_of_ok works).trans serving.1
    have moved := @kept (.move (sharedCrtTmp index) (sharedCrt index)) _ (copied input) (by simp)
      (by simp)
    apply Machine.guarantees_must (cut (copied input))
    · intro input' _ works'
      exact ⟨cut (moved input'), fun _ =>
        ⟨certificate, caFalse, moved input', (moved_of_ok works').trans shown⟩⟩
    · intro input' _ _
      exact @safeFrom_exited _ curve _ (cut (moved input'))
  · intro input _ _
    exact @safeFrom_exited _ curve _ (cut (copied input))

/-- Between the moves the script goes on to the certificate, or the run is not
careful. -/
theorem BetweenMoves.safeFrom {certificate : Certificate}
    (between : BetweenMoves index certificate (world, past)) :
    SafeFrom curve index
      (Spark.run (.move (serverCrtTmp index) (serverCrt index)) (publishCrt index))
      (world, past) := by
  have serving : forall {input : Outcome},
      (perform curve (.move (serverCrtTmp index) (serverCrt index)) world input).1
        (serverCrt index) = some (.certificate certificate) ->
      Serving index certificate
        (perform curve (.move (serverCrtTmp index) (serverCrt index)) world input).1 := by
    intro input crt
    exact ⟨crt, (perform_of_not_mem (by simp) curve world input).trans between.key⟩
  apply Machine.guarantees_must between.cut
  · intro input _ works
    exact safeFrom_publishCrt between.caFalse
      (serving ((moved_of_ok works).trans between.crtTmp))
  · intro input _ fails
    apply @safeFrom_exited _ curve
    rcases @move_cases curve world input (serverCrtTmp index) (serverCrt index) with
      ⟨content, present, -, done⟩ | ⟨reason, refused⟩
    · -- The command failed behind its effect, and the certificate is there.
      intro _
      have same : content = .certificate certificate :=
        Option.some.inj (present.symm.trans between.crtTmp)
      apply soundPair_of_serving between.caFalse (serving _)
      rw [done, same]
      exact World.put_self _ _ _
    · have unmoved : BetweenMoves index certificate (world,
          past ++ [⟨.move (serverCrtTmp index) (serverCrt index), world, input⟩]) := by
        refine ⟨between.caFalse, between.crtTmp, between.key, ?_, ?_⟩
        · intro event member
          rcases List.mem_append.mp member with earlier | last
          · exact between.unmoved event earlier
          · rw [List.mem_singleton.mp last]
            rintro ⟨-, effective⟩
            rcases reason with missing | ineffective
            · cases missing.symm.trans between.crtTmp
            · rw [ineffective] at effective
              cases effective
        · intro marked
          rcases between.unpaired marked with ⟨event, member, unpairs⟩
          exact ⟨event, List.mem_append_left _ member, unpairs⟩
      change CutSound index ((perform curve _ world input).1, _)
      rw [refused]
      exact unmoved.cut

/-- Behind the first move. -/
theorem BeforeMoves.betweenMoves {certificate : Certificate} {input : Outcome}
    (before : BeforeMoves index (world, past)) (caFalse : certificate.caFalse = true)
    (crtTmp : world (serverCrtTmp index) = some (.certificate certificate))
    (effective : input.effective = true) :
    BetweenMoves index certificate
      ((world.put (serverKeyTmp index) none).put (serverKey index) (some (.rsaKey certificate.key)),
        past ++ [⟨.move (serverKeyTmp index) (serverKey index), world, input⟩]) where
  caFalse := caFalse
  crtTmp := by
    dsimp only
    rw [World.put_of_ne (by simp), World.put_of_ne (by simp)]
    exact crtTmp
  key := World.put_self _ _ _
  unmoved := by
    intro event member
    rcases List.mem_append.mp member with earlier | last
    · exact before.unmoved event earlier
    · rw [List.mem_singleton.mp last]
      rintro ⟨same, -⟩
      simp at same
  unpaired := by
    intro marked
    refine ⟨_, List.mem_append_right _ List.mem_cons_self, rfl, effective, ?_⟩
    rw [← marked]
    apply isCaFalse_congr
    dsimp only
    rw [World.put_of_ne (by simp), World.put_of_ne (by simp)]

/-- The new pair is moved into place. -/
theorem BeforeMoves.movePair {certificate : Certificate} (before : BeforeMoves index (world, past))
    (caFalse : certificate.caFalse = true)
    (keyTmp : world (serverKeyTmp index) = some (.rsaKey certificate.key))
    (crtTmp : world (serverCrtTmp index) = some (.certificate certificate)) :
    SafeFrom curve index
      (Spark.run (.move (serverKeyTmp index) (serverKey index)) <|
        Spark.run (.move (serverCrtTmp index) (serverCrt index)) (publishCrt index))
      (world, past) := by
  have moved : forall {content : Content}, world (serverKeyTmp index) = some content ->
      content = .rsaKey certificate.key :=
    fun present => Option.some.inj (present.symm.trans keyTmp)
  apply Machine.guarantees_must before.cut
  · intro input _ works
    rcases @move_cases curve world input (serverKeyTmp index) (serverKey index) with
      ⟨content, present, effective, done⟩ | ⟨-, refused⟩
    · change SafeFrom curve index _ ((perform curve _ world input).1, _)
      rw [done, moved present]
      exact (before.betweenMoves caFalse crtTmp effective).safeFrom
    · change (perform curve _ world input).2.ok = true at works
      rw [refused] at works
      cases works
  · intro input _ _
    apply @safeFrom_exited _ curve
    change CutSound index ((perform curve _ world input).1, _)
    rcases @move_cases curve world input (serverKeyTmp index) (serverKey index) with
      ⟨content, present, effective, done⟩ | ⟨-, refused⟩
    · rw [done, moved present]
      exact (before.betweenMoves caFalse crtTmp effective).cut
    · rw [refused]
      intro _
      exact before.sound

/-- A new pair takes the place of the old one. -/
theorem BeforeMoves.generateCrt (before : BeforeMoves index (world, past)) :
    SafeFrom curve index (Spark.generateCrt index) (world, past) := by
  apply before.run (by simp) (by simp)
  intro drawn works before
  have keyTmp : (perform curve (.genrsa (serverKeyTmp index)) world drawn).1 (serverKeyTmp index) =
      some (.rsaKey drawn.rsaKey) := by
    change drawn.ok = true at works
    change World.put _ _ _ _ = _
    rw [works, World.put_self]
    rfl
  generalize (perform curve (.genrsa (serverKeyTmp index)) world drawn).1 = world at before keyTmp ⊢
  apply before.run (by simp) (by simp)
  intro signed works before
  apply @BeforeMoves.movePair _ _ _ _
    { key := drawn.rsaKey, caFalse := true, serial := signed.serial } before rfl
  · rw [perform_of_not_mem (by simp)]
    exact keyTmp
  · change (World.req _ _ _ _).2.ok = true at works
    change (World.req _ _ _ _).1 _ = _
    unfold World.req at works ⊢
    rw [keyTmp] at works ⊢
    cases drawnOk : signed.ok with
    | true => exact World.put_self _ _ _
    | false =>
        rw [drawnOk] at works
        cases works

/-- Tests of files only look. -/
theorem BeforeMoves.ifFiles {files : List File} {yes no : Script Command Ended}
    (before : BeforeMoves index (world, past))
    (passes : forall past, BeforeMoves index (world, past) -> SafeFrom curve index yes (world, past))
    (fails : forall past, BeforeMoves index (world, past) -> SafeFrom curve index no (world, past)) :
    SafeFrom curve index (Spark.ifFiles files yes no) (world, past) := by
  induction files generalizing past with
  | nil => exact passes past before
  | cons file files inductionHypothesis =>
      apply before.test (by simp) (by simp)
      · intro input _ before
        exact inductionHypothesis before
      · intro input before
        exact fails _ before

theorem BeforeMoves.backUp {file legacy : File} {next : Script Command Ended}
    (before : BeforeMoves index (world, past)) (crt : serverCrt index ≠ legacy)
    (key : serverKey index ≠ legacy)
    (goesOn : forall world past, BeforeMoves index (world, past) ->
      SafeFrom curve index next (world, past)) :
    SafeFrom curve index (Spark.backUp file legacy next) (world, past) := by
  apply before.test (by simp) (by simp)
  · intro input _ before
    exact goesOn _ _ before
  · intro input before
    have other : forall {file' : File}, file' ≠ legacy ->
        file' ∉ (Command.copy file legacy).targets :=
      fun different member => different (List.mem_singleton.mp member)
    apply before.run (other crt) (other key)
    intro input _ before
    exact goesOn _ _ before

/-- The whole function. -/
theorem BeforeMoves.ensureTlsCert (before : BeforeMoves index (world, past)) :
    SafeFrom curve index (Spark.ensureTlsCert index) (world, past) := by
  have replaces : forall past, BeforeMoves index (world, past) -> SafeFrom curve index
      (Spark.ifFiles [serverCrt index, serverKey index]
        (Spark.backUp (serverCrt index) (serverCrtLegacyCa index) <|
          Spark.backUp (serverKey index) (serverKeyLegacyCa index) (Spark.generateCrt index))
        (Spark.generateCrt index)) (world, past) := by
    intro past before
    apply before.ifFiles
    · intro past before
      apply before.backUp (by simp) (by simp)
      intro world past before
      apply before.backUp (by simp) (by simp)
      intro world past before
      exact before.generateCrt
    · intro past before
      exact before.generateCrt
  apply before.ifFiles
  · intro past before
    apply before.test (by simp) (by simp)
    · intro input works before
      have marked : world.isCaFalse (serverCrt index) = true :=
        ((Bool.and_eq_true _ _).mp works).2
      rcases before.sound marked with ⟨certificate, caFalse, serving⟩
      exact safeFrom_publishCrt caFalse serving
    · intro input before
      exact replaces _ before
  · exact replaces

/-- What a run leaves of a sound pair, and what a run that completes leaves. -/
theorem soundPair_of_run {outcomes : List Outcome} (sound : SoundPair index world) :
    (CarefulCert curve index world outcomes -> SoundPair index (leftByCert curve index world outcomes)) ∧
      (Completes curve index world outcomes -> Rotated index (leftByCert curve index world outcomes)) := by
  have before : BeforeMoves index (world, []) := ⟨sound, fun _ impossible => nomatch impossible⟩
  have recorded := (@BeforeMoves.ensureTlsCert _ curve _ _ before).recorded outcomes
  constructor
  · intro careful
    cases ended : ((machine curve).exec (Spark.ensureTlsCert index) world outcomes).2 with
    | none => exact recorded.1 ended careful
    | some result => exact (recorded.2 result ended).1 careful
  · intro completes
    exact (recorded.2 _ completes).2 rfl

end Pair

/-! ## One run, and the backups -/

/-- The pair that was there first: in place as long as a backup is missing. -/
def Kept (index : Index) (certificate : Certificate) (world : World) : Prop :=
  BackedUp index certificate world ∨ Serving index certificate world ∧
    (world (serverCrtLegacyCa index) = none ∨
      world (serverCrtLegacyCa index) = some (.certificate certificate)) ∧
    (world (serverKeyLegacyCa index) = none ∨
      world (serverKeyLegacyCa index) = some (.rsaKey certificate.key))

section Backups

variable {index : Index} {curve : Curve} {world : World} {certificate : Certificate}

/-- The commands that leave the pair and its backups alone. -/
def Spares (index : Index) (command : Command) : Prop :=
  serverCrt index ∉ command.targets ∧ serverKey index ∉ command.targets ∧
    serverCrtLegacyCa index ∉ command.targets ∧ serverKeyLegacyCa index ∉ command.targets

/-- The commands that leave the backups alone. -/
def SparesBackups (index : Index) (command : Command) : Prop :=
  serverCrtLegacyCa index ∉ command.targets ∧ serverKeyLegacyCa index ∉ command.targets

theorem Kept.perform {command : Command} (kept : Kept index certificate world)
    (spares : Spares index command) (input : Outcome) :
    Kept index certificate (perform curve command world input).1 := by
  rcases spares with ⟨crt, key, crtLegacyCa, keyLegacyCa⟩
  unfold Kept BackedUp Serving Holds at kept ⊢
  rw [perform_of_not_mem crt, perform_of_not_mem key, perform_of_not_mem crtLegacyCa,
    perform_of_not_mem keyLegacyCa]
  exact kept

theorem BackedUp.perform {command : Command} (backedUp : BackedUp index certificate world)
    (spares : SparesBackups index command) (input : Outcome) :
    BackedUp index certificate (perform curve command world input).1 := by
  unfold BackedUp Holds at backedUp ⊢
  rw [perform_of_not_mem spares.1, perform_of_not_mem spares.2]
  exact backedUp

section Rules

variable {crash : World -> Prop} {post : Ended -> World -> Prop}
  {yes no next : Script Command Ended}

/-- A test of files, whose answer the world knows. -/
theorem guarantees_ifFiles {files : List File} (cut : crash world)
    (passes : (forall file, file ∈ files -> (world file).isSome = true) ->
      (machine curve).Guarantees (fun _ => True) crash post yes world)
    (fails : forall file, file ∈ files -> world file = none ->
      (machine curve).Guarantees (fun _ => True) crash post no world) :
    (machine curve).Guarantees (fun _ => True) crash post (ifFiles files yes no) world := by
  induction files with
  | nil => exact passes fun _ impossible => nomatch impossible
  | cons file files inductionHypothesis =>
      apply Machine.guarantees_test cut
      · intro input _ present
        apply inductionHypothesis
        · intro rest
          apply passes
          intro other member
          rcases List.mem_cons.mp member with same | later
          · rw [same]
            exact present
          · exact rest other later
        · intro other member
          exact fails other (List.mem_cons_of_mem file member)
      · intro input _ absent
        exact fails file List.mem_cons_self
          (Option.isNone_iff_eq_none.mp (Option.isSome_eq_false_iff.mp absent))

/-- A backup that is there is not made again. -/
theorem guarantees_backUp_of_present {file legacy : File} (cut : crash world)
    (present : (world legacy).isSome = true)
    (goesOn : (machine curve).Guarantees (fun _ => True) crash post next world) :
    (machine curve).Guarantees (fun _ => True) crash post (backUp file legacy next) world := by
  apply Machine.guarantees_test cut
  · intro input _ _
    exact goesOn
  · intro input _ absent
    change (world legacy).isSome = false at absent
    rw [present] at absent
    cases absent

/-- A backup that is missing or right is right afterwards, and nothing else is
changed. -/
theorem guarantees_backUp {file legacy : File} {content : Content}
    (there : world file = some content)
    (backup : world legacy = none ∨ world legacy = some content)
    (cut : crash world) (cutBehind : crash (world.put legacy (some content)))
    (goesOn : forall later, later legacy = some content ->
      (forall other, other ≠ legacy -> later other = world other) ->
        (machine curve).Guarantees (fun _ => True) crash (fun _ => crash) next later) :
    (machine curve).Guarantees (fun _ => True) crash (fun _ => crash) (backUp file legacy next)
      world := by
  rcases backup with missing | right
  · apply Machine.guarantees_test cut
    · intro input _ present
      change (world legacy).isSome = true at present
      rw [missing] at present
      cases present
    · intro input _ _
      apply Machine.guarantees_must cut
      · intro input _ works
        apply goesOn
        · exact (@copied_of_ok curve _ _ _ _ works).trans there
        · intro other different
          exact perform_of_not_mem (fun member => different (List.mem_singleton.mp member)) curve _ _
      · intro input _ _
        change crash (perform curve (.copy file legacy) world input).1
        rcases @copy_cases curve world input file legacy with
          ⟨found, present, -, done⟩ | ⟨-, refused⟩
        · rw [done, Option.some.inj (present.symm.trans there)]
          exact cutBehind
        · rw [refused]
          exact cut
  · apply guarantees_backUp_of_present cut
    · rw [right]
      rfl
    · exact goesOn world right fun _ _ => rfl

end Rules

theorem calls_publishCrt : (publishCrt index).Calls (Spares index) := by
  apply Script.calls_must ⟨by simp, by simp, by simp, by simp⟩
  exact Script.calls_must ⟨by simp, by simp, by simp, by simp⟩ trivial

theorem calls_generateCrt : (generateCrt index).Calls (SparesBackups index) := by
  apply Script.calls_must ⟨by simp, by simp⟩
  apply Script.calls_must ⟨by simp, by simp⟩
  apply Script.calls_must ⟨by simp, by simp⟩
  apply Script.calls_must ⟨by simp, by simp⟩
  exact calls_publishCrt.mono fun _ spares => ⟨spares.2.2.1, spares.2.2.2⟩

/-- Behind the backups. -/
theorem guarantees_backedUp {script : Script Command Ended}
    (calls : script.Calls (SparesBackups index)) (backedUp : BackedUp index certificate world) :
    (machine curve).Guarantees (fun _ => True) (BackedUp index certificate)
      (fun _ => BackedUp index certificate) script world := by
  apply Machine.guarantees_of_invariant (BackedUp index certificate) calls
  · intro event spares _ backedUp
    exact backedUp.perform spares event.input
  · intro world backedUp
    exact backedUp
  · intro ended world backedUp
    exact backedUp
  · exact backedUp

/-- The test of the pair, and what follows it. -/
theorem guarantees_ensureTlsCert {crash : World -> Prop} (cut : crash world)
    (publishes : (machine curve).Guarantees (fun _ => True) crash (fun _ => crash)
      (publishCrt index) world)
    (backsUp : (world (serverCrt index)).isSome = true -> (world (serverKey index)).isSome = true ->
      (machine curve).Guarantees (fun _ => True) crash (fun _ => crash)
        (backUp (serverCrt index) (serverCrtLegacyCa index) <|
          backUp (serverKey index) (serverKeyLegacyCa index) (generateCrt index)) world)
    (generates : world (serverCrt index) = none ∨ world (serverKey index) = none ->
      (machine curve).Guarantees (fun _ => True) crash (fun _ => crash) (generateCrt index) world) :
    (machine curve).Guarantees (fun _ => True) crash (fun _ => crash) (ensureTlsCert index) world := by
  have missing : forall file, file ∈ [serverCrt index, serverKey index] -> world file = none ->
      world (serverCrt index) = none ∨ world (serverKey index) = none := by
    intro file member absent
    rcases List.mem_cons.mp member with first | second
    · exact Or.inl (first ▸ absent)
    · exact Or.inr (List.mem_singleton.mp second ▸ absent)
  have replaces : (machine curve).Guarantees (fun _ => True) crash (fun _ => crash)
      (ifFiles [serverCrt index, serverKey index]
        (backUp (serverCrt index) (serverCrtLegacyCa index) <|
          backUp (serverKey index) (serverKeyLegacyCa index) (generateCrt index))
        (generateCrt index)) world := by
    apply guarantees_ifFiles cut
    · intro present
      exact backsUp (present _ List.mem_cons_self)
        (present _ (List.mem_cons_of_mem _ List.mem_cons_self))
    · intro file member absent
      exact generates (missing file member absent)
  apply guarantees_ifFiles cut
  · intro _
    apply Machine.guarantees_test cut
    · intro input _ _
      exact publishes
    · intro input _ _
      exact replaces
  · intro file member absent
    exact replaces

/-- A run leaves the backups as they are when both are there. -/
theorem backedUp_of_run {outcomes : List Outcome} (backedUp : BackedUp index certificate world) :
    BackedUp index certificate (leftByCert curve index world outcomes) := by
  have guaranteed : (machine curve).Guarantees (fun _ => True) (BackedUp index certificate)
      (fun _ => BackedUp index certificate) (ensureTlsCert index) world := by
    apply guarantees_ensureTlsCert backedUp
    · exact guarantees_backedUp (calls_publishCrt.mono fun _ spares => ⟨spares.2.2.1, spares.2.2.2⟩)
        backedUp
    · intro _ _
      apply guarantees_backUp_of_present backedUp (by rw [backedUp.1]; rfl)
      apply guarantees_backUp_of_present backedUp (by rw [backedUp.2]; rfl)
      exact guarantees_backedUp calls_generateCrt backedUp
    · intro _
      exact guarantees_backedUp calls_generateCrt backedUp
  exact guaranteed.left outcomes fun _ _ => trivial

/-- The pair that was there first is in place until both backups are. -/
theorem kept_of_run {outcomes : List Outcome} (kept : Kept index certificate world) :
    Kept index certificate (leftByCert curve index world outcomes) := by
  rcases kept with backedUp | serving
  · exact Or.inl (backedUp_of_run backedUp)
  · have kept : Kept index certificate world := Or.inr serving
    rcases serving with ⟨⟨crt, key⟩, crtLegacyCa, keyLegacyCa⟩
    have guaranteed : (machine curve).Guarantees (fun _ => True) (Kept index certificate)
        (fun _ => Kept index certificate) (ensureTlsCert index) world := by
      apply guarantees_ensureTlsCert kept
      · apply Machine.guarantees_of_invariant (Kept index certificate) calls_publishCrt
        · intro event spares _ kept
          exact kept.perform spares event.input
        · intro world kept
          exact kept
        · intro ended world kept
          exact kept
        · exact kept
      · intro _ _
        apply guarantees_backUp crt crtLegacyCa kept
        · refine Or.inr ⟨⟨?_, ?_⟩, Or.inr (World.put_self _ _ _), ?_⟩
          · exact (World.put_of_ne (by simp) _ _).trans crt
          · exact (World.put_of_ne (by simp) _ _).trans key
          · rw [World.put_of_ne (by simp)]
            exact keyLegacyCa
        · intro later crtSaved same
          have laterKey := (same (serverKey index) (by simp)).trans key
          have laterCrt := (same (serverCrt index) (by simp)).trans crt
          have laterBackup : later (serverKeyLegacyCa index) = none ∨
              later (serverKeyLegacyCa index) = some (.rsaKey certificate.key) := by
            rw [same _ (by simp)]
            exact keyLegacyCa
          apply guarantees_backUp laterKey laterBackup
          · exact Or.inr ⟨⟨laterCrt, laterKey⟩, Or.inr crtSaved, laterBackup⟩
          · exact Or.inl ⟨(World.put_of_ne (by simp) _ _).trans crtSaved, World.put_self _ _ _⟩
          · intro last keySaved same
            have backedUp : BackedUp index certificate last :=
              ⟨(same _ (by simp)).trans crtSaved, keySaved⟩
            exact (guarantees_backedUp calls_generateCrt backedUp).mono (fun _ => Or.inl)
              fun _ _ => Or.inl
      · rintro (missing | missing)
        · cases missing.symm.trans crt
        · cases missing.symm.trans key
    exact guaranteed.left outcomes fun _ _ => trivial

end Backups

/-! ## Every sequence of runs -/

/-- In every sequence of runs, each cut anywhere and with any commands failing,
the pair that was there first is in place until both its backups are, and these
stay; and if every run that takes its key from a certificate marked `CA:FALSE`
goes on to the new certificate, then every run that completes leaves a matching
pair marked `CA:FALSE` and publishes it. -/
theorem rotation_safe {curve : Curve} {index : Index} {world : World} {runs : List (List Outcome)}
    (unrotated : Unrotated index world) :
    (forall certificate, Serving index certificate world ->
      forall visit, visit ∈ visits (nextCertRun curve index) (some world) runs ->
        (¬ Serving index certificate (leftByCert curve index visit.1 visit.2) ->
          BackedUp index certificate (leftByCert curve index visit.1 visit.2)) ∧
        (BackedUp index certificate visit.1 ->
          BackedUp index certificate (leftByCert curve index visit.1 visit.2))) ∧
    ((forall visit, visit ∈ visits (nextCertRun curve index) (some world) runs ->
        CarefulCert curve index visit.1 visit.2) ->
      forall visit, visit ∈ visits (nextCertRun curve index) (some world) runs ->
        Completes curve index visit.1 visit.2 ->
          Rotated index (leftByCert curve index visit.1 visit.2)) := by
  constructor
  · intro certificate serving visit member
    have kept : Kept index certificate visit.1 := by
      apply (visits_invariant _ _ visit member).1
      · intro state same
        cases same
        exact Or.inr ⟨serving, Or.inl unrotated.crtLegacyCa, Or.inl unrotated.keyLegacyCa⟩
      · intro state outcomes state' _ kept next
        cases next
        exact kept_of_run kept
    constructor
    · intro replaced
      rcases @kept_of_run _ curve _ _ visit.2 kept with backedUp | ⟨still, -⟩
      · exact backedUp
      · exact absurd still replaced
    · exact backedUp_of_run
  · intro careful visit member completes
    have sound : SoundPair index visit.1 := by
      apply visits_invariant_of_condition _ careful _ visit member
      · intro state same
        cases same
        intro marked
        rcases unrotated.pair with ⟨missing, -⟩ | ⟨certificate, serving⟩
        · rw [World.isCaFalse, missing] at marked
          cases marked
        · rw [World.isCaFalse, serving.1] at marked
          exact ⟨certificate, marked, serving⟩
      · intro state outcomes state' careful sound next
        cases next
        exact (soundPair_of_run sound).1 careful
    exact (soundPair_of_run sound).2 completes

/-! ## A good pair that could not be read -/

def goodCertificate : Certificate where
  key := 1
  caFalse := true
  serial := 1

/-- A volume with the pair of a certificate. -/
def volumeOf (certificate : Certificate) : World := fun file =>
  if file = serverCrt 0 then some (.certificate certificate)
  else if file = serverKey 0 then some (.rsaKey certificate.key)
  else none

theorem unrotated_volumeOf (certificate : Certificate) : Unrotated 0 (volumeOf certificate) where
  pair := Or.inr ⟨certificate, rfl, rfl⟩
  crtLegacyCa := rfl
  keyLegacyCa := rfl

def succeeds : Outcome := { ok := true }

/-- The test of the certificate fails, and the run is killed behind the first of
the two moves. -/
def unpairedRun : List Outcome :=
  [succeeds, succeeds, { ok := false }] ++ List.replicate 6 succeeds ++
    [{ ok := true, rsaKey := 2 }, { ok := true, serial := 2 }, succeeds]

/-- The next run keeps the certificate and publishes it, beside the key of
another one. -/
theorem unpaired_kept :
    Unrotated 0 (volumeOf goodCertificate) ∧
      Exists fun visit =>
        visit ∈ visits (nextCertRun curveAtOne 0) (some (volumeOf goodCertificate))
          [unpairedRun, List.replicate 5 succeeds] ∧
        Completes curveAtOne 0 visit.1 visit.2 ∧
        ¬ Rotated 0 (leftByCert curveAtOne 0 visit.1 visit.2) := by
  refine ⟨unrotated_volumeOf _, _, List.mem_cons_of_mem _ List.mem_cons_self, rfl, ?_⟩
  rintro ⟨certificate, -, ⟨crt, key⟩, -⟩
  have kept : some (Content.certificate goodCertificate) = some (.certificate certificate) := crt
  have replaced : some (Content.rsaKey 2) = some (.rsaKey certificate.key) := key
  cases kept
  cases replaced

/-- A legacy pair. -/
def legacyCertificate : Certificate where
  key := 1
  caFalse := false
  serial := 1

instance (index : Index) (event : Event Command World Outcome) : Decidable (Unpairs index event) :=
  inferInstanceAs (Decidable (_ ∧ _ ∧ _))

/-- What a run leaves that finds the legacy pair. -/
def rotatedVolume : World :=
  leftByCert curveAtOne 0 (volumeOf legacyCertificate) (List.replicate 15 succeeds)

/-- A legacy pair is rotated and backed up, and the next run keeps both. -/
theorem rotation_safe_sample :
    (Rotated 0 rotatedVolume ∧ BackedUp 0 legacyCertificate rotatedVolume) ∧
      Rotated 0 (leftByCert curveAtOne 0 rotatedVolume (List.replicate 5 succeeds)) ∧
      BackedUp 0 legacyCertificate
        (leftByCert curveAtOne 0 rotatedVolume (List.replicate 5 succeeds)) := by
  have careful : forall world outcomes,
      (((machine curveAtOne).events (ensureTlsCert 0) world outcomes).all fun event =>
        decide (¬ Unpairs 0 event)) = true -> CarefulCert curveAtOne 0 world outcomes := by
    rintro world outcomes paired ⟨event, member, unpairs⟩
    exact absurd unpairs (of_decide_eq_true (List.all_eq_true.mp paired event member))
  have all : forall visit, visit ∈ visits (nextCertRun curveAtOne 0)
      (some (volumeOf legacyCertificate)) [List.replicate 15 succeeds, List.replicate 5 succeeds] ->
        CarefulCert curveAtOne 0 visit.1 visit.2 := by
    intro visit member
    rcases List.mem_cons.mp member with first | later
    · rw [first]
      exact careful _ _ rfl
    · rw [List.mem_singleton.mp later]
      exact careful _ _ rfl
  have safe := @rotation_safe curveAtOne 0 _
    [List.replicate 15 succeeds, List.replicate 5 succeeds] (unrotated_volumeOf legacyCertificate)
  have backed := safe.1 legacyCertificate ⟨rfl, rfl⟩
  have rotated := safe.2 all
  have replaced : ¬ Serving 0 legacyCertificate rotatedVolume := by
    rintro ⟨crt, -⟩
    cases crt
  have copied : BackedUp 0 legacyCertificate rotatedVolume :=
    (backed (volumeOf legacyCertificate, List.replicate 15 succeeds)
      List.mem_cons_self).1 replaced
  refine ⟨⟨?_, copied⟩, ?_, ?_⟩
  · exact rotated (volumeOf legacyCertificate, List.replicate 15 succeeds) List.mem_cons_self rfl
  · exact rotated (rotatedVolume, List.replicate 5 succeeds)
      (List.mem_cons_of_mem _ List.mem_cons_self) rfl
  · exact (backed (rotatedVolume, List.replicate 5 succeeds)
      (List.mem_cons_of_mem _ List.mem_cons_self)).2 copied

end Spark
end MutinyNet
