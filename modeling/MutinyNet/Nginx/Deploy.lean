import MutinyNet.Files.Walk

namespace MutinyNet
namespace Nginx

open Files

/-!
# Deploying the nginx configuration

`deploy.sh` links the files of the repository into `/etc/nginx`: `nginx.conf`, and
each vhost into `sites-available` and from there into `sites-enabled`.  A path is
left alone if it is a link that resolves to where its source resolves to, through
whatever other links.  Otherwise a link takes its place, and a file that differs
is copied beside itself before.
-/

variable {B : Type}

/-- `readlink -f`, which follows as many links as there are. -/
structure Readlink (B : Type) where
  run : FileTree B -> Path -> Option Path
  spec : forall tree path resolved, run tree path = some resolved <->
    Exists fun links => tree.resolve Node.isDirectory links path = some resolved

theorem Readlink.eq_some_iff (readlink : Readlink B) {tree : FileTree B} {path resolved : Path} :
    readlink.run tree path = some resolved <->
      Exists fun seen => Walk tree [] path seen resolved :=
  (readlink.spec tree path resolved).trans exists_resolve_iff

open Classical in
/-- There is such a program. -/
noncomputable def Readlink.unbounded : Readlink B where
  run := fun tree path =>
    if found : Exists fun resolved => Exists fun links =>
      tree.resolve Node.isDirectory links path = some resolved then some found.choose else none
  spec := by
    intro tree path resolved
    constructor
    · intro same
      split at same
      · next found =>
          have chosen := found.choose_spec
          rw [Option.some.inj same] at chosen
          exact chosen
      · cases same
    · intro here
      have found : Exists fun resolved => Exists fun links =>
          tree.resolve Node.isDirectory links path = some resolved := ⟨resolved, here⟩
      rw [dif_pos found]
      rcases exists_resolve_iff.mp here with ⟨seen, walk⟩
      rcases exists_resolve_iff.mp found.choose_spec with ⟨seen', walk'⟩
      rw [(walk.deterministic walk').2]

/-- What `*mutinynet.com` matches. -/
def Matched (name : String) : Prop :=
  "mutinynet.com".toList <:+ name.toList ∧ name.toList.head? ≠ some '.'

instance (name : String) : Decidable (Matched name) :=
  inferInstanceAs (Decidable (_ ∧ _))

/-- `$REPO_DIR`, and what the pattern matches in it. -/
structure Repository where
  dir : Path
  sites : List String
  nodup : sites.Nodup
  matched : forall name, name ∈ sites -> Matched name

/-- The vhosts the script goes through. -/
def Repository.vhosts (repo : Repository) : List String :=
  repo.sites ++ ["default"]

/-- The paths the script looks after. -/
inductive Tracked where
  | conf
  | available (name : String)
  | enabled (name : String)
  deriving DecidableEq, Repr

namespace Tracked

def place : Tracked -> Path
  | .conf => ["etc", "nginx"]
  | .available _ => ["etc", "nginx", "sites-available"]
  | .enabled _ => ["etc", "nginx", "sites-enabled"]

def name : Tracked -> String
  | .conf => "nginx.conf"
  | .available name => name
  | .enabled name => name

def dst (tracked : Tracked) : Path :=
  tracked.place ++ [tracked.name]

/-- The file of the repository it stands for. -/
def file (repo : Repository) (tracked : Tracked) : Path :=
  repo.dir ++ [tracked.name]

/-- What it is a link to when the script has made it. -/
def src (repo : Repository) : Tracked -> Path
  | .conf => file repo .conf
  | .available name => file repo (.available name)
  | .enabled name => dst (.available name)

end Tracked

/-- The two links of each vhost. -/
def vhostLinks (names : List String) : List Tracked :=
  names.flatMap fun name => [.available name, .enabled name]

/-- The calls of `link`, in their order. -/
def tracked (repo : Repository) : List Tracked :=
  .conf :: vhostLinks repo.vhosts

/-- `$(date -u +%Y%m%dT%H%M%S)` whenever a path is copied. -/
structure Stamps where
  text : Path -> String
  size : forall dst, (text dst).toList.length = 15

/-- `$dst.pre-link-$(date -u +%Y%m%dT%H%M%SZ)`. -/
def backup (stamps : Stamps) (dst : Path) : Path :=
  dst.dropLast ++ [dst.getLastD "" ++ ".pre-link-" ++ stamps.text dst ++ "Z"]

/-! ## Where things are -/

/-- A host with the repository and with the directories of nginx. -/
structure Layout (repo : Repository) (tree : FileTree B) : Prop where
  repository : Standing tree repo.dir
  files : forall path, path ∈ tracked repo -> Exists fun bytes =>
    tree (path.file repo) = .file bytes
  places : forall path : Tracked, Standing tree path.place
  apart : Not (["etc", "nginx"] <+: repo.dir)

/-- The paths that are still to come are no directories, and their copies will be
new files. -/
structure Ahead (stamps : Stamps) (tree : FileTree B) (paths : List Tracked) : Prop where
  notDirectory : forall path, path ∈ paths -> tree path.dst ≠ .directory
  fresh : forall path, path ∈ paths -> tree (backup stamps path.dst) = .missing

theorem dst_injective {first second : Tracked} (same : first.dst = second.dst) :
    first = second := by
  cases first <;> cases second <;> simp_all [Tracked.dst, Tracked.place, Tracked.name]

theorem place_prefix (path : Tracked) : ["etc", "nginx"] <+: path.place := by
  cases path with
  | conf => exact List.prefix_refl _
  | available name => exact ⟨["sites-available"], rfl⟩
  | enabled name => exact ⟨["sites-enabled"], rfl⟩

theorem backup_dst (stamps : Stamps) (path : Tracked) :
    backup stamps path.dst =
      path.place ++ [path.name ++ ".pre-link-" ++ stamps.text path.dst ++ "Z"] := by
  rw [backup, Tracked.dst, List.dropLast_concat, List.getLastD_concat]

/-- The name of a copy ends like no name of a path that is looked after. -/
theorem name_ne_copy {repo : Repository} {path : Tracked} (listed : path ∈ tracked repo)
    (text : String) : path.name ≠ text ++ "Z" := by
  have ends : forall word : List Char, word.getLast? ≠ some 'Z' -> word ≠ [] ->
      word <:+ path.name.toList -> path.name ≠ text ++ "Z" := by
    rintro word notZ nonempty ⟨front, same⟩ equal
    rw [equal, String.toList_append] at same
    have lasts := congrArg List.getLast? same
    rw [List.getLast?_append_of_ne_nil _ nonempty] at lasts
    apply notZ
    rw [lasts, List.getLast?_append_of_ne_nil _ (by decide)]
    rfl
  rcases List.mem_cons.mp listed with here | vhost
  · rw [here] at ends ⊢
    exact ends "conf".toList (by decide) (by decide) ⟨"nginx.".toList, by decide⟩
  · rcases List.mem_flatMap.mp vhost with ⟨site, member, inside⟩
    have isSite : path.name = site := by
      rcases List.mem_cons.mp inside with first | second
      · rw [first]
        rfl
      · rw [List.mem_singleton.mp second]
        rfl
    rcases List.mem_append.mp member with globbed | single
    · apply ends "mutinynet.com".toList (by decide) (by decide)
      rw [isSite]
      exact (repo.matched site globbed).1
    · apply ends "default".toList (by decide) (by decide)
      rw [isSite, List.mem_singleton.mp single]

theorem dst_ne_backup {repo : Repository} {path other : Tracked} (listed : path ∈ tracked repo)
    (stamps : Stamps) : path.dst ≠ backup stamps other.dst := by
  intro same
  rw [backup_dst, Tracked.dst] at same
  have names := List.singleton_inj.mp (List.append_inj_right' same rfl)
  exact name_ne_copy listed _ names

theorem backup_injective {stamps : Stamps} {first second : Tracked}
    (same : backup stamps first.dst = backup stamps second.dst) : first.dst = second.dst := by
  rw [backup_dst, backup_dst] at same
  have places := List.append_inj_left' same rfl
  have names := congrArg String.toList (List.singleton_inj.mp (List.append_inj_right' same rfl))
  simp only [String.toList_append] at names
  have stamped := List.append_inj_left' names rfl
  have marked := List.append_inj_left' stamped (by rw [stamps.size, stamps.size])
  have named := List.append_inj_left' marked rfl
  rw [Tracked.dst, Tracked.dst, places, String.toList_inj.mp named]

section Places

variable {repo : Repository} {tree : FileTree B}

/-- Nothing of the repository is among the paths the script changes. -/
theorem Layout.not_file {path other : Tracked} {name : String} (layout : Layout repo tree) :
    path.place ++ [name] ≠ other.file repo := by
  intro same
  apply layout.apart
  rw [← List.append_inj_left' same rfl]
  exact place_prefix path

theorem Layout.dst_ne_file {path other : Tracked} (layout : Layout repo tree) :
    path.dst ≠ other.file repo :=
  layout.not_file

theorem Layout.backup_ne_file {stamps : Stamps} {path other : Tracked}
    (layout : Layout repo tree) : backup stamps path.dst ≠ other.file repo := by
  rw [backup_dst]
  exact layout.not_file

end Places

/-! ## The script -/

variable [DecidableEq B]

structure State (B : Type) where
  tree : FileTree B
  drift : Bool := false

/-- The bytes a program reads at a path. -/
def contents (readlink : Readlink B) (tree : FileTree B) (path : Path) : Option B :=
  match readlink.run tree path with
  | some resolved =>
      match tree resolved with
      | .file bytes => some bytes
      | _ => none
  | none => none

/-- `cmp -s`, which fails if one of the files cannot be read. -/
def cmp (readlink : Readlink B) (tree : FileTree B) (src dst : Path) : Bool :=
  match contents readlink tree src, contents readlink tree dst with
  | some first, some second => decide (first = second)
  | _, _ => false

/-- `[ -L "$dst" ] && [ "$(readlink -f "$dst")" = "$(readlink -f "$src")" ]`. -/
def linked (readlink : Readlink B) (tree : FileTree B) (src dst : Path) : Bool :=
  (tree dst).text.isSome && decide (readlink.run tree dst = readlink.run tree src)

/-- `cp -a` of what is there, not a link, and differs. -/
def backedUp (readlink : Readlink B) (stamps : Stamps) (tree : FileTree B) (src dst : Path) :
    FileTree B :=
  if !(tree dst).isMissing && (tree dst).text.isNone && !cmp readlink tree src dst then
    Function.update tree (backup stamps dst) (tree dst)
  else tree

/-- `link`. -/
def link (readlink : Readlink B) (check : Bool) (stamps : Stamps) (state : State B)
    (src dst : Path) : State B :=
  if linked readlink state.tree src dst then state
  else if check then { state with drift := true }
  else
    { tree := Function.update (backedUp readlink stamps state.tree src dst) dst (.link src)
      drift := true }

/-- The calls of `link` for some of the paths. -/
def links (readlink : Readlink B) (check : Bool) (repo : Repository) (stamps : Stamps)
    (paths : List Tracked) (state : State B) : State B :=
  paths.foldl (fun state path => link readlink check stamps state (path.src repo) path.dst) state

/-- `deploy.sh`, to where it tests the configuration or exits with the drift. -/
def deploy (readlink : Readlink B) (check : Bool) (repo : Repository) (stamps : Stamps)
    (tree : FileTree B) : State B :=
  links readlink check repo stamps (tracked repo) { tree }

/-- `exit "$drift"` of a run with `--check`. -/
def exitStatus (state : State B) : Nat :=
  if state.drift then 1 else 0

/-! ## One link -/

/-- The tree behind one link of a deploying run. -/
def relink (readlink : Readlink B) (repo : Repository) (stamps : Stamps) (tree : FileTree B)
    (path : Tracked) : FileTree B :=
  if linked readlink tree (path.src repo) path.dst then tree
  else Function.update (backedUp readlink stamps tree (path.src repo) path.dst) path.dst
    (.link (path.src repo))

/-- The tree behind some of them. -/
def relinked (readlink : Readlink B) (repo : Repository) (stamps : Stamps)
    (paths : List Tracked) (tree : FileTree B) : FileTree B :=
  paths.foldl (relink readlink repo stamps) tree

section Steps

variable {readlink : Readlink B} {repo : Repository} {stamps : Stamps} {tree : FileTree B}
  {path : Tracked} {paths : List Tracked}

theorem tree_links {state : State B} :
    (links readlink false repo stamps paths state).tree =
      relinked readlink repo stamps paths state.tree := by
  induction paths generalizing state with
  | nil => rfl
  | cons path paths inductionHypothesis =>
      have here : (link readlink false stamps state (path.src repo) path.dst).tree =
          relink readlink repo stamps state.tree path := by
        rw [link, relink]
        split
        · rfl
        · rfl
      have step : links readlink false repo stamps (path :: paths) state =
        links readlink false repo stamps paths
          (link readlink false stamps state (path.src repo) path.dst) := rfl
      rw [step, inductionHypothesis, here]
      rfl

theorem tree_deploy : (deploy readlink false repo stamps tree).tree =
    relinked readlink repo stamps (tracked repo) tree :=
  tree_links

/-- A run with `--check` changes nothing, and reports whether a path is not linked. -/
theorem links_check {state : State B} :
    links readlink true repo stamps paths state =
      { state with
        drift := state.drift ||
          paths.any fun path => !linked readlink state.tree (path.src repo) path.dst } := by
  induction paths generalizing state with
  | nil =>
      rw [List.any_nil, Bool.or_false]
      rfl
  | cons path paths inductionHypothesis =>
      have step : links readlink true repo stamps (path :: paths) state =
        links readlink true repo stamps paths
          (link readlink true stamps state (path.src repo) path.dst) := rfl
      rw [step, inductionHypothesis, List.any_cons, link]
      split
      · next isLinked =>
          rw [isLinked, Bool.not_true, Bool.false_or]
      · next notLinked =>
          rw [Bool.eq_false_of_not_eq_true notLinked, Bool.not_false]
          simp only [if_true, Bool.true_or, Bool.or_true]

theorem relink_of_linked (isLinked : linked readlink tree (path.src repo) path.dst = true) :
    relink readlink repo stamps tree path = tree := by
  rw [relink, if_pos isLinked]

theorem relink_dst (notLinked : linked readlink tree (path.src repo) path.dst = false) :
    relink readlink repo stamps tree path path.dst = .link (path.src repo) := by
  rw [relink, notLinked, if_neg Bool.false_ne_true, Function.update_self]

theorem relink_backup (different : path.dst ≠ backup stamps path.dst) :
    relink readlink repo stamps tree path (backup stamps path.dst) =
        tree (backup stamps path.dst) ∨
      relink readlink repo stamps tree path (backup stamps path.dst) = tree path.dst ∧
        (tree path.dst).isMissing = false ∧ (tree path.dst).text = none ∧
        cmp readlink tree (path.src repo) path.dst = false := by
  rw [relink]
  split
  · exact Or.inl rfl
  · rw [Function.update_of_ne different.symm, backedUp]
    split
    · next copied =>
        rw [Bool.and_eq_true, Bool.and_eq_true, Bool.not_eq_true', Bool.not_eq_true',
          Option.isNone_iff_eq_none] at copied
        rw [Function.update_self]
        exact Or.inr ⟨rfl, copied.1.1, copied.1.2, copied.2⟩
    · exact Or.inl rfl

theorem relink_of_ne {other : Path} (notDst : other ≠ path.dst)
    (notBackup : other ≠ backup stamps path.dst) :
    relink readlink repo stamps tree path other = tree other := by
  rw [relink]
  split
  · rfl
  · rw [Function.update_of_ne notDst, backedUp]
    split
    · rw [Function.update_of_ne notBackup]
    · rfl

/-- No link changes what stands where a directory is. -/
theorem relink_directory {other : Path} (ahead : Ahead stamps tree (path :: paths)) :
    relink readlink repo stamps tree path other = .directory <-> tree other = .directory := by
  have notDirectory := ahead.notDirectory path List.mem_cons_self
  have fresh := ahead.fresh path List.mem_cons_self
  by_cases isDst : other = path.dst
  · subst isDst
    cases isLinked : linked readlink tree (path.src repo) path.dst with
    | true => rw [relink_of_linked isLinked]
    | false =>
        rw [relink_dst isLinked]
        constructor
        · intro impossible
          cases impossible
        · intro impossible
          exact absurd impossible notDirectory
  · by_cases isBackup : other = backup stamps path.dst
    · subst isBackup
      rcases @relink_backup _ _ readlink repo _ tree _ (Ne.symm isDst) with same | ⟨copied, -, -, -⟩
      · rw [same]
      · rw [copied, fresh]
        constructor
        · intro impossible
          exact absurd impossible notDirectory
        · intro impossible
          cases impossible
    · rw [relink_of_ne isDst isBackup]

variable (readlink) in
theorem relink_layout (layout : Layout repo tree) (ahead : Ahead stamps tree (path :: paths)) :
    Layout repo (relink readlink repo stamps tree path) := by
  constructor
  · intro front inside nonempty
    exact (relink_directory ahead).mpr (layout.repository front inside nonempty)
  · intro other listed
    rcases layout.files other listed with ⟨bytes, file⟩
    refine ⟨bytes, ?_⟩
    rw [relink_of_ne layout.dst_ne_file.symm layout.backup_ne_file.symm]
    exact file
  · intro other front inside nonempty
    exact (relink_directory ahead).mpr (layout.places other front inside nonempty)
  · exact layout.apart

variable (readlink) in
theorem relink_ahead (ahead : Ahead stamps tree (path :: paths)) (distinct : path ∉ paths)
    (listed : path ∈ tracked repo) :
    Ahead stamps (relink readlink repo stamps tree path) paths := by
  constructor
  · intro other member directory
    exact ahead.notDirectory other (List.mem_cons_of_mem path member)
      ((relink_directory ahead).mp directory)
  · intro other member
    rw [relink_of_ne]
    · exact ahead.fresh other (List.mem_cons_of_mem path member)
    · exact (dst_ne_backup listed stamps).symm
    · intro same
      have equal := dst_injective (backup_injective same)
      subst equal
      exact distinct member

end Steps

end Nginx
end MutinyNet
