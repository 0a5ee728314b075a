import MutinyNet.Files.Tree
import MutinyNet.Shell.Script

namespace MutinyNet
namespace Spark
namespace Reset

open Shell Files

/-!
# Resetting the operators

`reset-spark.sh` drops the databases of the operators and empties a few
directories below the volume root.  It refuses to work on a root that is not
safe before it touches anything, and on a directory that is not where it should
be when that directory's turn comes: the databases are gone then, and so is what
the directories in front of it held.
-/

/-- The files of the host and the databases of the operators. -/
structure World where
  tree : FileTree String
  databases : List String

/-- The arguments of the script, and what it takes from its environment: the
volume root and the home directory. -/
structure Options where
  full : Bool
  assumeYes : Bool
  volumeRoot : Path
  home : String
  deriving DecidableEq, Repr

inductive Command where
  | realpath (path : Path)
  | confirm
  | composeStop
  | dropDatabase (db : String)
  | mkdir (path : Path)
  | deleteEntries (path : Path)
  | composeUp
  deriving DecidableEq, Repr

/-- What becomes of a command: its status, whether it took effect although it
failed, what it deleted before it failed, and what was typed. -/
structure Outcome where
  ok : Bool
  effect : Bool := false
  gone : Path -> Bool := fun _ => false
  output : List String := []

namespace World

/-- `mkdir -p`, below directories that are not links. -/
def mkdir (links : Nat) (world : World) (path : Path) (outcome : Outcome) : World × Reply :=
  if (world.tree.stat links path).isDirectory then (world, { ok := outcome.ok })
  else if path.inits.all fun front =>
      front.isEmpty || (world.tree front).isMissing || (world.tree front).isDirectory then
    (if outcome.ok || outcome.effect then
      { world with tree := world.tree.makeDirectories path } else world, { ok := outcome.ok })
  else (world, { ok := false })

/-- `realpath -m`, which replies with the names on the path. -/
def realpath (links : Nat) (world : World) (path : Path) (outcome : Outcome) : Reply :=
  match world.tree.realpath links path with
  | some resolved => { ok := outcome.ok, output := resolved }
  | none => { ok := false }

/-- `find path -mindepth 1 -maxdepth 1 -exec rm -rf -- {} +`. -/
def deleteEntries (world : World) (path : Path) (outcome : Outcome) : World :=
  { world with
    tree := world.tree.clear path (if outcome.ok then fun _ => true else outcome.gone) }

end World

def perform (links : Nat) (command : Command) (world : World) (outcome : Outcome) :
    World × Reply :=
  match command with
  | .realpath path => (world, world.realpath links path outcome)
  | .confirm => (world, { ok := outcome.ok, output := outcome.output })
  | .composeStop | .composeUp => (world, { ok := outcome.ok })
  | .dropDatabase db =>
      (if outcome.ok || outcome.effect then
        { world with databases := world.databases.filter (· ≠ db) } else world,
        { ok := outcome.ok })
  | .mkdir path => world.mkdir links path outcome
  | .deleteEntries path => (world.deleteEntries path outcome, { ok := outcome.ok })

def machine (links : Nat) : Machine Command World Outcome where
  perform := perform links

/-- How the script ends. -/
inductive Ended where
  | finished
  | cancelled
  | refused (message : String)
  | failed
  deriving DecidableEq, Repr

/-! ## The script -/

/-- A path as it is written. -/
def written (path : Path) : String :=
  "/" ++ "/".intercalate path

/-- `targets`. -/
def targets (options : Options) : List String :=
  ["spark", "spark2", "spark-shared", "ssp-data"] ++
    if options.full then ["ldk-server"] else []

/-- `$volume_root/$name`. -/
def target (root : Path) (name : String) : Path :=
  root ++ [name]

def databases : List String :=
  ["sparkoperator_0", "spark_ephemeral_0", "sparkoperator_1", "spark_ephemeral_1"]

/-- The deleting loop.  `${resolved#"$volume_root"/}` is another text than
`$resolved` if there is something of the path behind the root. -/
def deleteAll (root : Path) : List String -> Script Command Ended -> Script Command Ended
  | [], next => next
  | name :: names, next =>
      .must .failed (.mkdir (target root name)) <|
      .call (.realpath (target root name)) fun reply =>
        if reply.ok then
          if reply.output ≠ target root name ∨ Not (Below root reply.output) then
            .done (.refused ("Refusing unexpected reset target: " ++ written reply.output))
          else .must .failed (.deleteEntries reply.output) (deleteAll root names next)
        else .done .failed

/-- Behind the confirmation. -/
def destroy (options : Options) (root : Path) : Script Command Ended :=
  .attempt .composeStop <|
  .mustAll .failed (databases.map .dropDatabase) <|
  deleteAll root (targets options) <|
  .must .failed .composeUp (.done .finished)

/-- `reset-spark.sh`. -/
def resetSpark (options : Options) : Script Command Ended :=
  .call (.realpath options.volumeRoot) fun reply =>
    if reply.ok then
      if written reply.output = "/" ∨ written reply.output = options.home then
        .done (.refused ("Refusing unsafe volume root: " ++ written reply.output))
      else if options.assumeYes then destroy options reply.output
      else .call .confirm fun answer =>
        if answer.ok then
          if answer.output = ["RESET"] then destroy options reply.output else .done .cancelled
        else .done .failed
    else .done .failed

/-! ## The directories in front -/

/-- A directory that was the loop's turn: created if it was missing, and emptied. -/
def emptied (root : Path) (tree : FileTree String) (name : String) : FileTree String :=
  (tree.makeDirectories (target root name)).clear (target root name) fun _ => true

/-- The tree behind the directories in front. -/
def cleared (root : Path) (tree : FileTree String) (front : List String) : FileTree String :=
  front.foldl (emptied root) tree

theorem text_emptied {root path : Path} {tree : FileTree String} {name : String}
    (plain : (tree path).text = none) : (emptied root tree name path).text = none :=
  FileTree.text_clear (FileTree.text_makeDirectories plain)

theorem plain_emptied {root path : Path} {tree : FileTree String} {name : String}
    (plain : tree.Plain path) : (emptied root tree name).Plain path :=
  fun front other inside => text_emptied (plain front other inside)

/-- The other directories are left alone. -/
theorem emptied_target {root : Path} {tree : FileTree String} {name other : String}
    (different : other ≠ name) :
    emptied root tree name (target root other) = tree (target root other) := by
  have apart : target root other ≠ target root name := by
    intro same
    exact different (List.singleton_inj.mp (List.append_cancel_left same))
  have lengths : (target root other).length = (target root name).length := by
    rw [target, target, List.length_append, List.length_append]
    rfl
  rw [emptied, FileTree.clear_of_not_below, FileTree.makeDirectories_of_not_prefix]
  · exact fun inside => apart (inside.eq_of_length lengths)
  · exact fun inside => inside.2 (inside.1.eq_of_length lengths.symm).symm

/-- The loop is refused at a target: those in front of it are real or missing, and
it is a link to a directory that is there when they have been emptied. -/
structure Misdirected (links : Nat) (root : Path) (tree : FileTree String)
    (names front : List String) (name : String) : Prop where
  listed : front ++ [name] <+: names
  real : forall other, other ∈ front ->
    tree (target root other) = .missing ∨ tree (target root other) = .directory
  link : (tree (target root name)).text ≠ none
  directory : ((cleared root tree front).stat links (target root name)).isDirectory = true

/-- None of the operators' databases is there, and nothing is in the directories
in front of the one that is refused. -/
structure NothingToLose (root : Path) (world : World) (front : List String) : Prop where
  databases : forall db, db ∈ databases -> db ∉ world.databases
  files : forall path, world.tree path ≠ .missing ->
    cleared root world.tree front path = world.tree path

/-- If a target is a link to a directory then there is nothing to lose in front of
it, or the root is refused anyway. -/
def Harmless (links : Nat) (options : Options) (world : World) : Prop :=
  forall root, world.tree.realpath links options.volumeRoot = some root ->
    written root ≠ "/" -> written root ≠ options.home ->
    forall front name, Misdirected links root world.tree (targets options) front name ->
      NothingToLose root world front

/-! ## One turn of the loop -/

section Turn

variable {links : Nat} {root : Path} {world : World} {name : String} {outcome : Outcome}

/-- A target that is not a link: `mkdir -p` makes it a directory, or fails. -/
theorem mkdir_of_real (plain : world.tree.Plain (target root name))
    (ok : (world.mkdir links (target root name) outcome).2.ok = true) :
    (world.mkdir links (target root name) outcome).1 =
        { world with tree := world.tree.makeDirectories (target root name) } ∧
      outcome.ok = true ∧
      (world.tree (target root name) = .missing ∨ world.tree (target root name) = .directory) := by
  rw [World.mkdir] at ok ⊢
  split
  · next there =>
      rw [if_pos there] at ok
      rw [FileTree.stat] at there
      split at there
      · next resolved found =>
          have itself := FileTree.resolve_eq_of_plain plain found
          subst itself
          refine ⟨?_, ok, Or.inr (Node.eq_directory_of_isDirectory there)⟩
          rw [FileTree.makeDirectories_eq_self]
          intro other inside nonempty missing
          by_cases same : other = target root name
          · rw [← same, missing] at there
            cases there
          · rw [← List.append_nil (target root name)] at found
            have passed := FileTree.passable_of_resolve plain found other inside
              (fun equal => absurd equal same) nonempty
            rw [missing] at passed
            exact absurd passed Bool.false_ne_true
      · cases there
  · next absent =>
      rw [if_neg absent] at ok
      split at ok
      · next possible =>
          rw [if_pos possible]
          dsimp only at ok ⊢
          rw [ok, Bool.true_or, if_pos rfl]
          refine ⟨rfl, rfl, ?_⟩
          have here := List.all_eq_true.mp possible (target root name)
            (List.mem_inits _ _ |>.mpr (List.prefix_refl _))
          rw [Bool.or_eq_true, Bool.or_eq_true] at here
          rcases here with (empty | missing) | directory
          · rw [List.isEmpty_iff, target] at empty
            exact absurd empty (List.append_ne_nil_of_right_ne_nil _ (List.cons_ne_nil _ _))
          · exact Or.inl (Node.eq_missing_of_isMissing missing)
          · exact Or.inr (Node.eq_directory_of_isDirectory directory)
      · cases ok

/-- A target that is a link: `mkdir -p` leaves it alone, and goes on only if it
leads to a directory. -/
theorem mkdir_of_link (link : (world.tree (target root name)).text ≠ none)
    (ok : (world.mkdir links (target root name) outcome).2.ok = true) :
    (world.mkdir links (target root name) outcome).1 = world ∧
      (world.tree.stat links (target root name)).isDirectory = true := by
  rw [World.mkdir] at ok ⊢
  split
  · next there => exact ⟨rfl, there⟩
  · next absent =>
      rw [if_neg absent] at ok
      split at ok
      · next possible =>
          have here := List.all_eq_true.mp possible (target root name)
            (List.mem_inits _ _ |>.mpr (List.prefix_refl _))
          rw [Bool.or_eq_true, Bool.or_eq_true] at here
          rcases here with (empty | missing) | directory
          · rw [List.isEmpty_iff, target] at empty
            exact absurd empty (List.append_ne_nil_of_right_ne_nil _ (List.cons_ne_nil _ _))
          · rw [Node.eq_missing_of_isMissing missing] at link
            exact absurd rfl link
          · rw [Node.eq_directory_of_isDirectory directory] at link
            exact absurd rfl link
      · cases ok

theorem below_target : Below root (target root name) := by
  constructor
  · exact List.prefix_append root [name]
  · intro same
    have lengths := congrArg List.length same
    rw [target, List.length_append, List.length_singleton] at lengths
    omega

theorem text_of_real {node : Node String} (real : node = .missing ∨ node = .directory) :
    node.text = none := by
  rcases real with missing | directory
  · rw [missing]
    rfl
  · rw [directory]
    rfl

/-- What is in front of a refusal, by the first target. -/
theorem misdirected_cons_iff {tree : FileTree String} {names front : List String} {other : String}
    (distinct : (name :: names).Nodup) :
    Misdirected links root tree (name :: names) (name :: front) other <->
      (tree (target root name) = .missing ∨ tree (target root name) = .directory) ∧
        Misdirected links root (emptied root tree name) names front other := by
  have elsewhere : forall {front}, front ++ [other] <+: names ->
      forall next, next ∈ front ++ [other] -> next ≠ name := by
    intro front listed next member same
    subst same
    exact (List.nodup_cons.mp distinct).1 (listed.subset member)
  constructor
  · intro misdirected
    have listed : front ++ [other] <+: names :=
      (List.cons_prefix_cons.mp misdirected.listed).2
    refine ⟨misdirected.real name List.mem_cons_self, listed, ?_, ?_, misdirected.directory⟩
    · intro next member
      rw [emptied_target (elsewhere listed next (List.mem_append_left _ member))]
      exact misdirected.real next (List.mem_cons_of_mem name member)
    · rw [emptied_target (elsewhere listed other (List.mem_append_right _ List.mem_cons_self))]
      exact misdirected.link
  · rintro ⟨real, misdirected⟩
    refine ⟨List.cons_prefix_cons.mpr ⟨rfl, misdirected.listed⟩, ?_, ?_, misdirected.directory⟩
    · intro next member
      rcases List.mem_cons.mp member with here | later
      · rw [here]
        exact real
      · have kept := misdirected.real next later
        rwa [emptied_target (elsewhere misdirected.listed next (List.mem_append_left _ later))]
          at kept
    · have kept := misdirected.link
      rwa [emptied_target (elsewhere misdirected.listed other
        (List.mem_append_right _ List.mem_cons_self))] at kept

end Turn

/-! ## What a run leaves -/

section Runs

variable {links : Nat} {options : Options} {root : Path} {world : World} {names : List String}
  {next : Script Command Ended} {allowed : Event Command World Outcome -> Prop}
  {post : Ended -> World -> Prop}

theorem perform_realpath {path resolved : Path} {outcome : Outcome}
    (same : world.tree.realpath links path = some resolved) :
    (machine links).perform (.realpath path) world outcome =
      (world, { ok := outcome.ok, output := resolved }) := by
  simp only [machine, perform, World.realpath, same]

theorem perform_realpath_none {path : Path} {outcome : Outcome}
    (lost : world.tree.realpath links path = none) :
    (machine links).perform (.realpath path) world outcome = (world, { ok := false }) := by
  simp only [machine, perform, World.realpath, lost]

/-- The drops, of which none may fail. -/
theorem guarantees_drop {dbs : List String}
    (rest : (machine links).Guarantees allowed (fun _ => True) post next
      { world with databases := world.databases.filter (· ∉ dbs) })
    (failed : forall event after, allowed event -> event.input.ok = false ->
      post .failed after) :
    (machine links).Guarantees allowed (fun _ => True) post
      (.mustAll .failed (dbs.map .dropDatabase) next) world := by
  induction dbs generalizing world with
  | nil =>
      have same : world.databases.filter (· ∉ ([] : List String)) = world.databases :=
        List.filter_eq_self.mpr fun db _ => decide_eq_true List.not_mem_nil
      rw [same] at rest
      exact rest
  | cons db dbs inductionHypothesis =>
      apply Machine.guarantees_must trivial
      · intro outcome _ ok
        have working : outcome.ok = true := ok
        have performed : ((machine links).perform (.dropDatabase db) world outcome).1 =
            { world with databases := world.databases.filter (· ≠ db) } := by
          simp only [machine, perform, working, Bool.true_or, if_true]
        rw [performed]
        apply inductionHypothesis
        have same : (world.databases.filter (· ≠ db)).filter (· ∉ dbs) =
            world.databases.filter (· ∉ db :: dbs) := by
          rw [List.filter_filter]
          apply List.filter_congr
          intro other _
          simp only [List.mem_cons, not_or, Bool.decide_and, Bool.and_comm]
        dsimp only
        rw [same]
        exact rest
      · intro outcome permitted notOk
        exact failed _ _ permitted notOk

/-- What the world is when the loop refuses. -/
def RefusedAt (links : Nat) (root : Path) (world : World) (names : List String) (after : World) :
    Prop :=
  Exists fun front => Exists fun name => Misdirected links root world.tree names front name ∧
    after = { world with tree := cleared root world.tree front }

/-- The loop: whatever becomes of its commands, it refuses only at a misdirected
target. -/
theorem guarantees_deleteAll (plain : world.tree.Plain root) (distinct : names.Nodup)
    (rest : forall after, (machine links).Guarantees allowed (fun _ => True) post next after)
    (failed : forall after, post .failed after)
    (refused : forall message after, RefusedAt links root world names after ->
      post (.refused message) after) :
    (machine links).Guarantees allowed (fun _ => True) post (deleteAll root names next) world := by
  induction names generalizing world with
  | nil => exact rest world
  | cons name names inductionHypothesis =>
      refine Machine.guarantees_must trivial ?_ fun _ _ _ => failed _
      intro outcome _ ok
      cases link : (world.tree (target root name)).text with
      | none =>
          have plainTarget : world.tree.Plain (target root name) := FileTree.plain_snoc plain link
          rcases mkdir_of_real plainTarget ok with ⟨made, -, real⟩
          have performed : ((machine links).perform (.mkdir (target root name)) world outcome).1 =
              { world with tree := world.tree.makeDirectories (target root name) } := made
          rw [performed]
          refine ⟨trivial, ?_⟩
          intro outcome _
          have resolved : (world.tree.makeDirectories (target root name)).realpath links
              (target root name) = some (target root name) := by
            apply FileTree.realpath_of_plain
            intro front last inside
            exact FileTree.text_makeDirectories (plainTarget front last inside)
          rw [@perform_realpath links
            { world with tree := world.tree.makeDirectories (target root name) } _ _ outcome resolved]
          dsimp only
          split
          · have accepted : Not (target root name ≠ target root name ∨
                Not (Below root (target root name))) := by
              rintro (different | outside)
              · exact different rfl
              · exact outside below_target
            rw [if_neg accepted]
            refine Machine.guarantees_must trivial ?_ fun _ _ _ => failed _
            intro outcome _ deleted
            have working : outcome.ok = true := deleted
            have performed : ((machine links).perform (.deleteEntries (target root name))
                { world with tree := world.tree.makeDirectories (target root name) } outcome).1 =
                { world with tree := emptied root world.tree name } := by
              simp only [machine, perform, World.deleteEntries, working, if_true, emptied]
            rw [performed]
            apply inductionHypothesis (plain_emptied plain) (List.nodup_cons.mp distinct).2
            rintro message after ⟨front, other, misdirected, same⟩
            refine refused message after ⟨name :: front, other, ?_, same⟩
            exact (misdirected_cons_iff distinct).mpr ⟨real, misdirected⟩
          · exact failed _
      | some text =>
          have isLink : (world.tree (target root name)).text ≠ none := by
            rw [link]
            exact Option.some_ne_none text
          rcases mkdir_of_link isLink ok with ⟨unchanged, directory⟩
          have performed : ((machine links).perform (.mkdir (target root name)) world outcome).1 =
              world := unchanged
          rw [performed]
          refine ⟨trivial, ?_⟩
          intro outcome _
          cases same : world.tree.realpath links (target root name) with
          | none =>
              rw [perform_realpath_none same]
              exact failed _
          | some resolved =>
              rw [perform_realpath same]
              dsimp only
              have elsewhere : resolved ≠ target root name :=
                FileTree.realpath_ne_of_link isLink same
              split
              · rw [if_pos (Or.inl elsewhere)]
                refine refused _ _ ⟨[], name, ⟨?_, ?_, isLink, directory⟩, rfl⟩
                · exact List.cons_prefix_cons.mpr ⟨rfl, List.nil_prefix⟩
                · intro other impossible
                  cases impossible
              · exact failed _

/-- A command that works; what is typed confirms the reset. -/
def working : Outcome where
  ok := true
  output := ["RESET"]

theorem mkdir_working {name : String}
    (creatable : forall path, path <+: target root name -> path ≠ [] ->
      world.tree path = .missing ∨ world.tree path = .directory) :
    (world.mkdir links (target root name) working).2.ok = true := by
  rw [World.mkdir]
  split
  · rfl
  · rw [if_pos]
    · rfl
    · rw [List.all_eq_true]
      intro path member
      have inside := List.mem_inits _ _ |>.mp member
      cases path with
      | nil => rfl
      | cons first rest =>
          rcases creatable _ inside (List.cons_ne_nil first rest) with missing | directory
          · rw [missing]
            rfl
          · rw [directory]
            rfl

theorem real_of_emptied {tree : FileTree String} {name : String} {path : Path}
    (outside : Not (Below (target root name) path))
    (real : emptied root tree name path = .missing ∨ emptied root tree name path = .directory) :
    tree path = .missing ∨ tree path = .directory := by
  rw [emptied, FileTree.clear_of_not_below outside, FileTree.makeDirectories] at real
  split at real
  · next created => exact Or.inl (Node.eq_missing_of_isMissing (Bool.and_eq_true _ _ |>.mp created).1)
  · exact real

theorem real_of_cleared {tree : FileTree String} {front : List String} {path : Path}
    (inside : path <+: root)
    (real : cleared root tree front path = .missing ∨ cleared root tree front path = .directory) :
    tree path = .missing ∨ tree path = .directory := by
  induction front generalizing tree with
  | nil => exact real
  | cons name front inductionHypothesis =>
      refine @real_of_emptied root tree name path ?_ (inductionHypothesis real)
      · intro below
        have longer := below.1.length_le
        have shorter := inside.length_le
        rw [target, List.length_append, List.length_singleton] at longer
        omega

theorem plain_cleared {tree : FileTree String} {front : List String} {path : Path}
    (plain : tree.Plain path) : (cleared root tree front).Plain path := by
  induction front generalizing tree with
  | nil => exact plain
  | cons name front inductionHypothesis => exact inductionHypothesis (plain_emptied plain)

/-- If the loop is refused anywhere then the root is a directory, or can be made. -/
theorem Misdirected.root_real {tree : FileTree String} {front : List String} {name : String}
    (misdirected : Misdirected links root tree names front name) (plain : tree.Plain root) :
    forall path, path <+: root -> path ≠ [] ->
      tree path = .missing ∨ tree path = .directory := by
  intro path inside nonempty
  have found := misdirected.directory
  rw [FileTree.stat] at found
  split at found
  · next resolved same =>
      apply real_of_cleared inside
      apply Or.inr
      apply Node.eq_directory_of_isDirectory
      exact FileTree.passable_of_resolve (plain_cleared plain) same path inside
        (fun _ => List.cons_ne_nil name []) nonempty
  · cases found

/-- Where a target is misdirected the loop does refuse, if its commands work. -/
theorem guarantees_refused {front : List String} {name : String}
    (plain : world.tree.Plain root) (distinct : names.Nodup)
    (misdirected : Misdirected links root world.tree names front name) :
    (machine links).Guarantees (fun event => event.input = working) (fun _ => True)
      (fun ended after => (Exists fun message => ended = .refused message) ∧
        after = { world with tree := cleared root world.tree front })
      (deleteAll root names next) world := by
  induction front generalizing names world with
  | nil =>
      rcases List.cons_prefix_iff.mp misdirected.listed with ⟨rest, listed, -⟩
      subst listed
      have found := misdirected.directory
      change (world.tree.stat links (target root name)).isDirectory = true at found
      refine Machine.guarantees_must_of_ok trivial ?_
      intro outcome works
      obtain rfl : outcome = working := works
      have performed : (machine links).perform (.mkdir (target root name)) world working =
          (world, { ok := true }) := by
        simp only [machine, perform, World.mkdir, found, if_true, working]
      rw [performed]
      refine ⟨rfl, trivial, ?_⟩
      intro outcome works
      obtain rfl : outcome = working := works
      have present : world.tree.stat links (target root name) ≠ .missing := by
        intro missing
        rw [missing] at found
        cases found
      rcases FileTree.realpath_of_stat present with ⟨resolved, same⟩
      have elsewhere : resolved ≠ target root name :=
        FileTree.realpath_ne_of_link misdirected.link same
      rw [perform_realpath same]
      dsimp only
      rw [if_pos (show working.ok = true from rfl), if_pos (Or.inl elsewhere)]
      exact ⟨⟨_, rfl⟩, rfl⟩
  | cons first front inductionHypothesis =>
      have creatable := misdirected.root_real plain
      rcases List.cons_prefix_iff.mp misdirected.listed with ⟨rest, listed, -⟩
      subst listed
      rcases (misdirected_cons_iff distinct).mp misdirected with ⟨real, later⟩
      have plainTarget : world.tree.Plain (target root first) :=
        FileTree.plain_snoc plain (text_of_real real)
      have made := @mkdir_working links root world first fun path inside nonempty => by
        rcases List.prefix_concat_iff.mp inside with whole | shorter
        · rw [whole]
          exact real
        · exact creatable path shorter nonempty
      refine Machine.guarantees_must_of_ok trivial ?_
      intro outcome works
      obtain rfl : outcome = working := works
      have performed : ((machine links).perform (.mkdir (target root first)) world working).1 =
          { world with tree := world.tree.makeDirectories (target root first) } :=
        (mkdir_of_real plainTarget made).1
      rw [performed]
      refine ⟨made, trivial, ?_⟩
      intro outcome works
      obtain rfl : outcome = working := works
      have resolved : (world.tree.makeDirectories (target root first)).realpath links
          (target root first) = some (target root first) := by
        apply FileTree.realpath_of_plain
        intro front last inside
        exact FileTree.text_makeDirectories (plainTarget front last inside)
      rw [@perform_realpath links
        { world with tree := world.tree.makeDirectories (target root first) } _ _ working
        resolved]
      dsimp only
      have accepted : Not (target root first ≠ target root first ∨
          Not (Below root (target root first))) := by
        rintro (different | outside)
        · exact different rfl
        · exact outside below_target
      rw [if_pos (show working.ok = true from rfl), if_neg accepted]
      refine Machine.guarantees_must_of_ok trivial ?_
      intro outcome works
      obtain rfl : outcome = working := works
      have performed : (machine links).perform (.deleteEntries (target root first))
          { world with tree := world.tree.makeDirectories (target root first) } working =
          ({ world with tree := emptied root world.tree first }, { ok := true }) := rfl
      rw [performed]
      exact ⟨rfl, @inductionHypothesis { world with tree := emptied root world.tree first } rest
        (plain_emptied plain) (List.nodup_cons.mp distinct).2 later⟩

theorem targets_nodup (options : Options) : (targets options).Nodup := by
  cases full : options.full with
  | true =>
      rw [targets, full]
      decide
  | false =>
      rw [targets, full]
      decide

/-- The world behind the drops. -/
def dropped (world : World) : World :=
  { world with databases := world.databases.filter (· ∉ databases) }

theorem guarantees_destroy (plain : world.tree.Plain root) :
    (machine links).Guarantees (fun _ => True) (fun _ => True)
      (fun ended after => forall message, ended = .refused message ->
        RefusedAt links root (dropped world) (targets options) after)
      (destroy options root) world := by
  refine Machine.guarantees_attempt trivial ?_
  intro outcome _
  apply guarantees_drop
  · apply @guarantees_deleteAll links root (dropped world)
    · exact plain
    · exact targets_nodup options
    · intro after
      apply Machine.guarantees_must trivial
      · intro outcome _ _ message impossible
        cases impossible
      · intro outcome _ _ message impossible
        cases impossible
    · intro after message impossible
      cases impossible
    · intro message after refusedAt other _
      exact refusedAt
  · intro event after _ _ message impossible
    cases impossible

theorem guarantees_destroy_refused {front : List String} {name : String}
    (plain : world.tree.Plain root)
    (misdirected : Misdirected links root world.tree (targets options) front name) :
    (machine links).Guarantees (fun event => event.input = working) (fun _ => True)
      (fun ended after => (Exists fun message => ended = .refused message) ∧
        after = { dropped world with tree := cleared root world.tree front })
      (destroy options root) world := by
  refine Machine.guarantees_attempt trivial ?_
  intro outcome _
  apply guarantees_drop
  · exact @guarantees_refused links root (dropped world) _ _ front name plain
      (targets_nodup options) misdirected
  · intro event after works notOk
    rw [works] at notOk
    cases notOk

/-! ## The whole script -/

/-- No database is dropped, and what was in the tree is as it was. -/
structure Untouched (world after : World) : Prop where
  databases : after.databases = world.databases
  files : forall path, world.tree path ≠ .missing -> after.tree path = world.tree path

/-- What is gone was strictly inside one of the directories. -/
def InsideTargets (links : Nat) (options : Options) (world after : World) : Prop :=
  forall path, world.tree path ≠ .missing -> after.tree path ≠ world.tree path ->
    Exists fun root => Exists fun name =>
      world.tree.realpath links options.volumeRoot = some root ∧ name ∈ targets options ∧
        Below (target root name) path

theorem Untouched.refl : Untouched world world :=
  ⟨rfl, fun _ _ => rfl⟩

/-- The root check and the confirmation change nothing. -/
theorem guarantees_resetSpark {crash : World -> Prop} (cut : crash world)
    (ended : forall ended, post ended world)
    (destroys : forall root, world.tree.realpath links options.volumeRoot = some root ->
      written root ≠ "/" -> written root ≠ options.home ->
      (machine links).Guarantees allowed crash post (destroy options root) world) :
    (machine links).Guarantees allowed crash post (resetSpark options) world := by
  refine ⟨cut, ?_⟩
  intro outcome _
  cases same : world.tree.realpath links options.volumeRoot with
  | none =>
      rw [perform_realpath_none same]
      exact ended _
  | some root =>
      rw [perform_realpath same]
      dsimp only
      split
      · split
        · exact ended _
        · next safe =>
            rw [not_or] at safe
            have rest := destroys root same safe.1 safe.2
            split
            · exact rest
            · refine ⟨cut, ?_⟩
              intro answer _
              dsimp only [machine, perform]
              split
              · split
                · exact rest
                · exact ended _
              · exact ended _
      · exact ended _

/-- On a safe root a script whose commands work is behind the confirmation. -/
theorem guarantees_resetSpark_working {post : Ended -> World -> Prop}
    (same : world.tree.realpath links options.volumeRoot = some root)
    (notSlash : written root ≠ "/") (notHome : written root ≠ options.home)
    (destroys : (machine links).Guarantees (fun event => event.input = working) (fun _ => True)
      post (destroy options root) world) :
    (machine links).Guarantees (fun event => event.input = working) (fun _ => True) post
      (resetSpark options) world := by
  refine ⟨trivial, ?_⟩
  intro outcome works
  obtain rfl : outcome = working := works
  rw [perform_realpath same]
  dsimp only
  rw [if_pos (show working.ok = true from rfl), if_neg (not_or.mpr ⟨notSlash, notHome⟩)]
  split
  · exact destroys
  · refine ⟨trivial, ?_⟩
    intro outcome works
    obtain rfl : outcome = working := works
    exact destroys

/-- If the command deletes entries then they are in a target. -/
def DeletesInTarget (options : Options) (root : Path) (command : Command) : Prop :=
  forall path, command = .deleteEntries path ->
    Exists fun name => name ∈ targets options ∧ path = target root name

theorem calls_deleteAll (listed : names ⊆ targets options)
    (rest : next.Calls (DeletesInTarget options root)) :
    (deleteAll root names next).Calls (DeletesInTarget options root) := by
  induction names with
  | nil => exact rest
  | cons name names inductionHypothesis =>
      apply Script.calls_must
      · intro path impossible
        cases impossible
      · constructor
        · intro path impossible
          cases impossible
        · intro reply
          dsimp only
          split
          · split
            · trivial
            · next accepted =>
                rw [not_or, not_not] at accepted
                apply Script.calls_must
                · intro path same
                  cases same
                  exact ⟨name, listed List.mem_cons_self, accepted.1⟩
                · exact inductionHypothesis (List.subset_of_cons_subset listed)
          · trivial

theorem calls_destroy : (destroy options root).Calls (DeletesInTarget options root) := by
  constructor
  · intro path impossible
    cases impossible
  · intro reply
    apply Script.calls_mustAll
    · intro command member path same
      rcases List.mem_map.mp member with ⟨db, -, drops⟩
      rw [same] at drops
      cases drops
    · apply calls_deleteAll (List.Subset.refl _)
      apply Script.calls_must
      · intro path impossible
        cases impossible
      · trivial

/-- A command that deletes only in a target. -/
theorem insideTargets_perform {after : World} {command : Command} {outcome : Outcome}
    (same : world.tree.realpath links options.volumeRoot = some root)
    (deletes : DeletesInTarget options root command)
    (inside : InsideTargets links options world after) :
    InsideTargets links options world ((machine links).perform command after outcome).1 := by
  intro path present changed
  by_cases before : after.tree path = world.tree path
  · have kept : after.tree path ≠ .missing := by
      rw [before]
      exact present
    cases command with
    | realpath other => exact absurd before changed
    | confirm => exact absurd before changed
    | composeStop => exact absurd before changed
    | composeUp => exact absurd before changed
    | dropDatabase db =>
        refine absurd ?_ changed
        dsimp only [machine, perform]
        split
        · exact before
        · exact before
    | mkdir other =>
        refine absurd ?_ changed
        dsimp only [machine, perform, World.mkdir]
        split
        · exact before
        · split
          · split
            · exact (FileTree.makeDirectories_of_present kept).trans before
            · exact before
          · exact before
    | deleteEntries other =>
        rcases deletes other rfl with ⟨name, listed, where_⟩
        subst where_
        by_cases below : Below (target root name) path
        · exact ⟨root, name, same, listed, below⟩
        · exact absurd ((FileTree.clear_of_not_below below).trans before) changed
  · exact inside path present before

theorem guarantees_inside :
    (machine links).Guarantees (fun _ => True) (InsideTargets links options world)
      (fun _ => InsideTargets links options world) (resetSpark options) world := by
  have initially : InsideTargets links options world world :=
    fun path _ changed => absurd rfl changed
  apply guarantees_resetSpark initially fun _ => initially
  intro root same _ _
  apply Machine.guarantees_of_invariant (InsideTargets links options world) calls_destroy
  · intro event deletes _ inside
    exact insideTargets_perform same deletes inside
  · exact fun _ inside => inside
  · exact fun _ _ inside => inside
  · exact initially

/-- Nothing is lost at a refusal if and only if there was nothing to lose. -/
theorem untouched_iff {front : List String} :
    Untouched world { dropped world with tree := cleared root world.tree front } <->
      NothingToLose root world front := by
  constructor
  · intro untouched
    refine ⟨?_, untouched.files⟩
    intro db listed present
    have kept := List.filter_eq_self.mp untouched.databases db present
    exact of_decide_eq_true kept listed
  · intro nothing
    refine ⟨?_, nothing.files⟩
    apply List.filter_eq_self.mpr
    intro db present
    exact decide_eq_true fun listed => nothing.databases db listed present

/-- A reset that is refused has destroyed nothing, and no reset destroys anything
outside the targets, in the runs from a host that is harmless, and only there. -/
theorem refusal_destroys_nothing_iff (links : Nat) (options : Options) (world : World) :
    (forall outcomes,
      (forall message,
        ((machine links).exec (resetSpark options) world outcomes).2 = some (.refused message) ->
          Untouched world ((machine links).exec (resetSpark options) world outcomes).1) ∧
      InsideTargets links options world
        ((machine links).exec (resetSpark options) world outcomes).1) <->
    Harmless links options world := by
  constructor
  · intro every root same notSlash notHome front name misdirected
    have guaranteed := guarantees_resetSpark_working same notSlash notHome
      (guarantees_destroy_refused (FileTree.plain_of_resolve same) misdirected)
    have ends := guaranteed.complete (fun _ => working) fun _ _ _ => rfl
    rcases Machine.exists_exec_eq_complete (resetSpark options) world (fun _ => working) with
      ⟨count, run⟩
    rcases ends with ⟨⟨message, refused⟩, left⟩
    have untouched := (every _).1 message (by rw [run, refused])
    rw [run, left] at untouched
    exact untouched_iff.mp untouched
  · intro harmless outcomes
    have inside := (@guarantees_inside links options world).sound outcomes fun _ _ => trivial
    have refuses : (machine links).Guarantees (fun _ => True) (fun _ => True)
        (fun ended after => forall message, ended = .refused message -> Untouched world after)
        (resetSpark options) world := by
      apply guarantees_resetSpark trivial fun _ _ _ => Untouched.refl
      intro root same notSlash notHome
      refine (guarantees_destroy (FileTree.plain_of_resolve same)).mono (fun _ _ => trivial) ?_
      intro ended after refusedAt message same_
      rcases refusedAt message same_ with ⟨front, name, misdirected, left⟩
      rw [left]
      exact untouched_iff.mpr (harmless root same notSlash notHome front name misdirected)
    constructor
    · intro message refused
      exact (refuses.sound outcomes fun _ _ => trivial).2 _ refused message rfl
    · cases ended : ((machine links).exec (resetSpark options) world outcomes).2 with
      | none => exact inside.1 ended
      | some result => exact inside.2 result ended

end Runs

/-- A host on which the first of the directories was moved to another disk. -/
def movedHost : World where
  tree := fun path =>
    if path = ["volumes", "spark"] then .link ["disk", "spark"]
    else if path = ["volumes"] ∨ path = ["disk"] ∨ path = ["disk", "spark"] then .directory
    else .missing
  databases := ["sparkoperator_0", "spark_ephemeral_0"]

def movedOptions : Options where
  full := false
  assumeYes := true
  volumeRoot := ["volumes"]
  home := "/root"

/-- The databases are gone when the reset is refused. -/
theorem refused_behind_the_drops :
    Not (forall links options world outcomes message,
      ((machine links).exec (resetSpark options) world outcomes).2 = some (.refused message) ->
        Untouched world ((machine links).exec (resetSpark options) world outcomes).1) := by
  intro claimed
  have untouched := claimed 40 movedOptions movedHost (List.replicate 8 working)
    "Refusing unexpected reset target: /disk/spark" (by decide)
  exact absurd untouched.databases (by decide)

end Reset
end Spark
end MutinyNet
