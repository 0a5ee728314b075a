import MutinyNet.Nginx.Convergence

namespace MutinyNet
namespace Nginx

open Files

/-!
# What a deploying run leaves

The checking run judges by the same test as the deploying one, so it is silent
behind a deploying run if and only if every path is right then.  Nothing is lost
in any case.  But a copy is made beside the file it is a copy of, and nginx reads
everything in `sites-enabled`.
-/

variable {B : Type} [DecidableEq B] {readlink : Readlink B} {repo : Repository}
  {stamps : Stamps} {tree : FileTree B} {path : Tracked} {paths : List Tracked}

/-! ## The check -/

theorem available_tracked {name : String} (listed : .enabled name ∈ tracked repo) :
    .available name ∈ tracked repo := by
  rcases List.mem_cons.mp listed with impossible | later
  · cases impossible
  · rcases mem_vhostLinks.mp later with ⟨site, member, impossible | same⟩
    · cases impossible
    · cases same
      exact List.mem_cons_of_mem _ (mem_vhostLinks.mpr ⟨_, member, Or.inl rfl⟩)

omit [DecidableEq B] in
/-- Every path passes the test if and only if every path is right. -/
theorem all_linked_iff (layout : Layout repo tree) :
    (forall path, path ∈ tracked repo ->
        linked readlink tree (path.src repo) path.dst = true) <->
      forall path, path ∈ tracked repo -> Correct readlink repo tree path := by
  constructor
  · intro all
    have first : forall name, .available name ∈ tracked repo ->
        Correct readlink repo tree (.available name) := by
      intro name listed
      refine (@linked_iff B readlink repo tree _ [] layout ?_ listed).mp (all _ listed)
      intro site rest impossible
      cases impossible
    intro path listed
    refine (@linked_iff B readlink repo tree _ [] layout ?_ listed).mp (all path listed)
    intro name rest same
    cases same
    exact first name (available_tracked listed)
  · intro all path listed
    refine (@linked_iff B readlink repo tree _ [] layout ?_ listed).mpr (all path listed)
    intro name rest same
    cases same
    exact all _ (available_tracked listed)

/-- A run with `--check` leaves the tree as it is, and fails exactly if a path is
not right. -/
theorem check_spec (layout : Layout repo tree) :
    (deploy readlink true repo stamps tree).tree = tree ∧
      (exitStatus (deploy readlink true repo stamps tree) = 1 <->
        Exists fun path => path ∈ tracked repo ∧ Not (Correct readlink repo tree path)) := by
  rw [deploy, links_check, exitStatus]
  refine ⟨rfl, ?_⟩
  dsimp only
  rw [Bool.false_or]
  have judged : ((tracked repo).any fun path => !linked readlink tree (path.src repo) path.dst) =
      false <-> forall path, path ∈ tracked repo -> Correct readlink repo tree path := by
    rw [← all_linked_iff layout, List.any_eq_false]
    simp only [Bool.not_eq_true', Bool.not_eq_false]
  split
  · next drift =>
      refine ⟨fun _ => ?_, fun _ => rfl⟩
      by_contra nowhere
      push Not at nowhere
      rw [judged.mpr nowhere] at drift
      cases drift
  · next silent =>
      constructor
      · intro impossible
        cases impossible
      · rintro ⟨path, listed, wrong⟩
        exact absurd (judged.mp (Bool.eq_false_of_not_eq_true silent) path listed) wrong

/-- A deploying run leaves a tree alone in which every path is right. -/
theorem relinked_of_all_correct (layout : Layout repo tree)
    (all : forall path, path ∈ tracked repo -> Correct readlink repo tree path) :
    relinked readlink repo stamps (tracked repo) tree = tree := by
  have linkedAll := (all_linked_iff layout).mpr all
  have fixed : forall paths, paths ⊆ tracked repo ->
      relinked readlink repo stamps paths tree = tree := by
    intro paths
    induction paths with
    | nil => exact fun _ => rfl
    | cons path paths inductionHypothesis =>
        intro inside
        have step : relinked readlink repo stamps (path :: paths) tree =
          relinked readlink repo stamps paths (relink readlink repo stamps tree path) := rfl
        rw [step, relink_of_linked (linkedAll path (inside List.mem_cons_self))]
        exact inductionHypothesis (List.subset_of_cons_subset inside)
  exact fixed _ (List.Subset.refl _)

/-- On a host where every path is right every way is stable. -/
theorem untangled_of_all_correct {watched : Tracked -> Prop} (layout : Layout repo tree)
    (all : forall path, path ∈ tracked repo -> Correct readlink repo tree path)
    (inside : paths ⊆ tracked repo) : Untangled readlink repo stamps watched paths tree := by
  have linkedAll := (all_linked_iff layout).mpr all
  induction paths with
  | nil => trivial
  | cons path paths inductionHypothesis =>
      constructor
      · intro _ seen resolved _ other member _
        exact all other (inside member)
      · rw [relink_of_linked (linkedAll path (inside List.mem_cons_self))]
        exact inductionHypothesis (List.subset_of_cons_subset inside)

/-! ## The copies -/

omit [DecidableEq B] in
theorem contents_file {bytes : B} {directory : Path} {name : String}
    (standing : Standing tree directory) (file : tree (directory ++ [name]) = .file bytes) :
    contents readlink tree (directory ++ [name]) = some bytes := by
  rcases walk_file standing file with ⟨seen, walk, -⟩
  rw [contents, readlink.eq_some_iff.mpr ⟨seen, walk⟩]
  dsimp only
  rw [file]

omit [DecidableEq B] in
theorem contents_src {original : B} (layout : Layout repo tree)
    (sourced : Sourced readlink repo tree (path :: paths)) (listed : path ∈ tracked repo)
    (file : tree (path.file repo) = .file original) :
    contents readlink tree (path.src repo) = some original := by
  rw [contents, readlink.eq_some_iff.mpr (src_leads layout sourced listed)]
  dsimp only
  rw [file]

/-- A file that differs is copied at its turn. -/
theorem relink_copies {bytes original : B} (layout : Layout repo tree)
    (sourced : Sourced readlink repo tree (path :: paths)) (listed : path ∈ tracked repo)
    (there : tree path.dst = .file bytes) (file : tree (path.file repo) = .file original)
    (differs : bytes ≠ original) :
    relink readlink repo stamps tree path (backup stamps path.dst) = .file bytes := by
  have notLinked : linked readlink tree (path.src repo) path.dst = false := by
    rw [linked, there]
    rfl
  have compared : cmp readlink tree (path.src repo) path.dst = false := by
    rw [cmp, contents_src layout sourced listed file, Tracked.dst,
      contents_file (layout.places path) there]
    exact decide_eq_false differs.symm
  rw [relink, notLinked, if_neg Bool.false_ne_true,
    Function.update_of_ne (dst_ne_backup listed stamps).symm, backedUp, compared, there,
    if_pos (by rfl), Function.update_self]

/-- And the copy is there at the end. -/
theorem backup_kept {bytes original : B} (layout : Layout repo tree)
    (ahead : Ahead stamps tree paths) (sourced : Sourced readlink repo tree paths)
    (suffix : paths <:+ tracked repo) (member : path ∈ paths)
    (there : tree path.dst = .file bytes) (file : tree (path.file repo) = .file original)
    (differs : bytes ≠ original) :
    relinked readlink repo stamps paths tree (backup stamps path.dst) = .file bytes := by
  induction paths generalizing tree with
  | nil => cases member
  | cons first paths inductionHypothesis =>
      have step : relinked readlink repo stamps (first :: paths) tree =
        relinked readlink repo stamps paths (relink readlink repo stamps tree first) := rfl
      have ahead' := relink_ahead readlink ahead (not_mem_of_suffix suffix) (mem_of_suffix suffix)
      rw [step]
      rcases List.mem_cons.mp member with here | later
      · subst here
        have copied := @relink_copies B _ readlink repo stamps _ _ _ _ _ layout sourced
          (mem_of_suffix suffix) there file differs
        rw [relinked_stays (rest_of_suffix suffix) ahead', copied]
        · intro other behind
          exact (dst_ne_backup ((rest_of_suffix suffix).subset behind) stamps).symm
        · rw [copied]
          intro impossible
          cases impossible
      · apply inductionHypothesis (relink_layout readlink layout ahead) ahead'
          (sourced_relink layout ahead sourced suffix) (rest_of_suffix suffix) later
        · rw [relink_of_ne]
          · exact there
          · intro same
            rw [dst_injective same] at later
            exact not_mem_of_suffix suffix later
          · exact dst_ne_backup (suffix.subset member) stamps
        · rw [relink_of_ne layout.dst_ne_file.symm layout.backup_ne_file.symm]
          exact file

/-- Where there was nothing a run leaves only links and copies of files that
differed. -/
theorem relinked_created {place : Path} (layout : Layout repo tree)
    (ahead : Ahead stamps tree paths) (sourced : Sourced readlink repo tree paths)
    (suffix : paths <:+ tracked repo) (missing : tree place = .missing) :
    relinked readlink repo stamps paths tree place = .missing ∨
      (Exists fun path => path ∈ paths ∧ place = path.dst) ∨
      Exists fun path => path ∈ paths ∧ place = backup stamps path.dst ∧
        Exists fun bytes => tree path.dst = .file bytes ∧ tree (path.file repo) ≠ .file bytes := by
  induction paths generalizing tree with
  | nil => exact Or.inl missing
  | cons first paths inductionHypothesis =>
      have listed := mem_of_suffix suffix
      have continues : relink readlink repo stamps tree first place = .missing ->
          relinked readlink repo stamps (first :: paths) tree place = .missing ∨
            (Exists fun path => path ∈ first :: paths ∧ place = path.dst) ∨
            Exists fun path => path ∈ first :: paths ∧ place = backup stamps path.dst ∧
              Exists fun bytes =>
                tree path.dst = .file bytes ∧ tree (path.file repo) ≠ .file bytes := by
        intro still
        rcases inductionHypothesis (relink_layout readlink layout ahead)
          (relink_ahead readlink ahead (not_mem_of_suffix suffix) listed)
          (sourced_relink layout ahead sourced suffix) (rest_of_suffix suffix) still with
          nothing | ⟨path, later, isDst⟩ | ⟨path, later, isBackup, bytes, there, differs⟩
        · exact Or.inl nothing
        · exact Or.inr (Or.inl ⟨path, List.mem_cons_of_mem first later, isDst⟩)
        · refine Or.inr (Or.inr ⟨path, List.mem_cons_of_mem first later, isBackup, bytes, ?_, ?_⟩)
          · rw [relink_of_ne] at there
            · exact there
            · intro same
              rw [dst_injective same] at later
              exact not_mem_of_suffix suffix later
            · exact dst_ne_backup ((rest_of_suffix suffix).subset later) stamps
          · rwa [relink_of_ne layout.dst_ne_file.symm layout.backup_ne_file.symm] at differs
      by_cases isDst : place = first.dst
      · exact Or.inr (Or.inl ⟨first, List.mem_cons_self, isDst⟩)
      · by_cases isBackup : place = backup stamps first.dst
        · subst isBackup
          rcases @relink_backup B _ readlink repo stamps tree first
            (dst_ne_backup listed stamps) with same | ⟨copied, present, plain, compared⟩
          · exact continues (same.trans missing)
          · cases node : tree first.dst with
            | missing =>
                rw [node] at present
                cases present
            | directory => exact absurd node (ahead.notDirectory first List.mem_cons_self)
            | link text =>
                rw [node] at plain
                cases plain
            | file bytes =>
                refine Or.inr (Or.inr ⟨first, List.mem_cons_self, rfl, bytes, node, ?_⟩)
                intro file
                rw [cmp, contents_src layout sourced listed file, Tracked.dst,
                  contents_file (layout.places first) node] at compared
                exact absurd rfl (of_decide_eq_false compared)
        · exact continues ((relink_of_ne isDst isBackup).trans missing)

/-! ## Whole runs -/

omit [DecidableEq B] in
theorem sourced_tracked : Sourced readlink repo tree (tracked repo) := by
  intro name rest impossible
  cases impossible

/-- One deploying run is enough, checks are honest and nothing is lost, if and only
if the way of every path is stable at its turn. -/
theorem deploy_settles_iff (readlink : Readlink B) (repo : Repository) (stamps : Stamps)
    {tree : FileTree B} (layout : Layout repo tree) (ahead : Ahead stamps tree (tracked repo)) :
    ((forall later,
        exitStatus (deploy readlink true repo later (deploy readlink false repo stamps tree).tree)
          = 0) ∧
      (forall later,
        (deploy readlink false repo later (deploy readlink false repo stamps tree).tree).tree =
          (deploy readlink false repo stamps tree).tree) ∧
      (forall other later, Layout repo other ->
        (deploy readlink true repo later other).tree = other ∧
          (exitStatus (deploy readlink true repo later other) = 1 <->
            Exists fun path => path ∈ tracked repo ∧ Not (Correct readlink repo other path))) ∧
      (forall path, path ∈ tracked repo -> forall bytes original,
        tree path.dst = .file bytes -> tree (path.file repo) = .file original ->
          bytes ≠ original ->
            (deploy readlink false repo stamps tree).tree (backup stamps path.dst) =
              .file bytes) ∧
      forall place, (deploy readlink false repo stamps tree).tree place ≠ tree place ->
        (Exists fun path => path ∈ tracked repo ∧ place = path.dst) ∨ tree place = .missing) <->
    Untangled readlink repo stamps (fun _ => True) (tracked repo) tree := by
  have suffix := List.suffix_refl (tracked repo)
  rw [tree_deploy]
  have final := @relinked_layout B _ readlink repo stamps tree _ suffix layout ahead
  constructor
  · rintro ⟨silent, -⟩
    refine untangled_of_correct (fun _ => trivial) layout ahead sourced_tracked suffix ?_
    intro path listed _
    by_contra wrong
    have drift := ((@check_spec B _ readlink repo stamps _ final).2).mpr ⟨path, listed, wrong⟩
    rw [silent stamps] at drift
    cases drift
  · intro untangled
    have right : forall path, path ∈ tracked repo ->
        Correct readlink repo (relinked readlink repo stamps (tracked repo) tree) path :=
      fun path listed => correct_of_untangled layout ahead sourced_tracked suffix untangled path
        listed trivial
    refine ⟨?_, ?_, ?_, ?_, ?_⟩
    · intro later
      have judged := (@check_spec B _ readlink repo later _ final).2
      rw [exitStatus] at judged ⊢
      split at judged
      · rcases judged.mp rfl with ⟨path, listed, wrong⟩
        exact absurd (right path listed) wrong
      · next silent => rw [if_neg silent]
    · intro later
      rw [tree_deploy]
      exact relinked_of_all_correct final right
    · exact fun other later layout => check_spec layout
    · intro path listed bytes original there file differs
      exact backup_kept layout ahead sourced_tracked suffix listed there file differs
    · intro place changed
      rcases relinked_changed layout ahead sourced_tracked suffix place with
        same | ⟨path, listed, isDst, -⟩ | missing
      · exact absurd same changed
      · exact Or.inl ⟨path, listed, isDst⟩
      · exact Or.inr missing

/-- What `sites-enabled/*` matches. -/
def Included (name : String) : Prop :=
  name.toList.head? ≠ some '.'

instance (name : String) : Decidable (Included name) :=
  inferInstanceAs (Decidable (_ ≠ _))

/-- The names of the copies of a vhost's file, whenever they were made. -/
def CopyName (name other : String) : Prop :=
  Exists fun text => other = name ++ ".pre-link-" ++ text

/-- nginx reads the vhosts of the repository, and of other entries what it read
before.  Of a vhost it reads no earlier file under another name: neither a copy
that a run has left nor, wherever it stands, the file that was replaced. -/
structure LoadsExactly (readlink : Readlink B) (repo : Repository) (before after : FileTree B) :
    Prop where
  vhosts : forall name, name ∈ repo.vhosts -> Correct readlink repo after (.enabled name)
  others : forall name, Included name -> name ∉ repo.vhosts ->
    after (Tracked.dst (.enabled name)) ≠ .missing ->
      after (Tracked.dst (.enabled name)) = before (Tracked.dst (.enabled name))
  noCopy : forall name, name ∈ repo.vhosts -> forall other, Included other -> forall bytes,
    after (Tracked.dst (.enabled other)) = .file bytes ->
      before (Tracked.file repo (.enabled name)) ≠ .file bytes ->
        Not (CopyName name other) ∧ before (Tracked.dst (.enabled name)) ≠ .file bytes

/-- No vhost has a file in `sites-enabled` that differs from the repository's. -/
def NoDifferingFile (repo : Repository) (tree : FileTree B) : Prop :=
  forall name, name ∈ repo.vhosts -> forall bytes,
    tree (Tracked.dst (.enabled name)) = .file bytes ->
      tree (Tracked.file repo (.enabled name)) = .file bytes

/-- No run before has left a copy that differs from the repository's file. -/
def NoDifferingCopy (repo : Repository) (tree : FileTree B) : Prop :=
  forall name, name ∈ repo.vhosts -> forall other, CopyName name other -> other ∉ repo.vhosts ->
    forall bytes, tree (Tracked.dst (.enabled other)) = .file bytes ->
      tree (Tracked.file repo (.enabled name)) = .file bytes

theorem enabled_tracked {name : String} (listed : name ∈ repo.vhosts) :
    .enabled name ∈ tracked repo :=
  List.mem_cons_of_mem _ (mem_vhostLinks.mpr ⟨name, listed, Or.inr rfl⟩)

theorem vhost_of_enabled {name : String} (listed : .enabled name ∈ tracked repo) :
    name ∈ repo.vhosts := by
  rcases List.mem_cons.mp listed with impossible | later
  · cases impossible
  · rcases mem_vhostLinks.mp later with ⟨site, member, impossible | same⟩
    · cases impossible
    · cases same
      exact member

theorem included_copy {name : String} (listed : name ∈ repo.vhosts) (text : String) :
    Included (name ++ text) := by
  have start : name.toList ≠ [] ∧ name.toList.head? ≠ some '.' := by
    rcases List.mem_append.mp listed with globbed | single
    · rcases repo.matched name globbed with ⟨ends, shown⟩
      refine ⟨?_, shown⟩
      intro empty
      rw [empty] at ends
      exact absurd (List.suffix_nil.mp ends) (by decide)
    · rw [List.mem_singleton.mp single]
      decide
  rw [Included, String.toList_append, List.head?_append_of_ne_nil _ start.1]
  exact start.2

theorem included_of_copyName {name other : String} (listed : name ∈ repo.vhosts)
    (copy : CopyName name other) : Included other := by
  rcases copy with ⟨text, rfl⟩
  rw [String.append_assoc]
  exact included_copy listed _

omit [DecidableEq B] in
theorem dst_enabled_ne {name : String} (notVhost : name ∉ repo.vhosts) :
    forall path, path ∈ tracked repo -> Tracked.dst (.enabled name) ≠ path.dst := by
  intro path listed same
  rw [← dst_injective same] at listed
  exact notVhost (vhost_of_enabled listed)

def sampleRepo : Repository where
  dir := ["root", "mutiny-net", "nginx"]
  sites := ["faucet.mutinynet.com"]
  nodup := List.nodup_singleton _
  matched := by decide

def sampleStamps : Stamps where
  text := fun _ => "20250601T120000"
  size := fun _ => by decide

/-- The repository and the directories of nginx. -/
def sampleEntries : List (Path × Node String) :=
  [(["root"], .directory), (["root", "mutiny-net"], .directory),
    (["root", "mutiny-net", "nginx"], .directory),
    (["root", "mutiny-net", "nginx", "nginx.conf"], .file "http"),
    (["root", "mutiny-net", "nginx", "faucet.mutinynet.com"], .file "faucet"),
    (["root", "mutiny-net", "nginx", "default"], .file "catch-all"),
    (["etc"], .directory), (["etc", "nginx"], .directory),
    (["etc", "nginx", "sites-available"], .directory),
    (["etc", "nginx", "sites-enabled"], .directory)]

/-- A host with these and other entries. -/
def sampleHost (entries : List (Path × Node String)) : FileTree String := fun path =>
  ((entries ++ sampleEntries).lookup path).getD .missing

theorem standing_of_inits {tree : FileTree String} {directory : Path}
    (all : forall front, front ∈ directory.inits -> front ≠ [] -> tree front = .directory) :
    Standing tree directory :=
  fun front inside => all front (List.mem_inits _ _ |>.mpr inside)

theorem layout_of_sample {tree : FileTree String}
    (directories : forall directory, directory ∈
      [["root", "mutiny-net", "nginx"], ["etc", "nginx", "sites-available"],
        ["etc", "nginx", "sites-enabled"]] -> forall front, front ∈ directory.inits ->
          front ≠ [] -> tree front = .directory)
    (conf : tree ["root", "mutiny-net", "nginx", "nginx.conf"] = .file "http")
    (faucet : tree ["root", "mutiny-net", "nginx", "faucet.mutinynet.com"] = .file "faucet")
    (catchAll : tree ["root", "mutiny-net", "nginx", "default"] = .file "catch-all") :
    Layout sampleRepo tree := by
  constructor
  · exact standing_of_inits (directories _ (by decide))
  · intro path listed
    have five : tracked sampleRepo = [.conf, .available "faucet.mutinynet.com",
      .enabled "faucet.mutinynet.com", .available "default", .enabled "default"] := rfl
    rw [five] at listed
    simp only [List.mem_cons, List.not_mem_nil, or_false] at listed
    rcases listed with same | same | same | same | same
    · exact ⟨"http", by rw [same]; exact conf⟩
    · exact ⟨"faucet", by rw [same]; exact faucet⟩
    · exact ⟨"faucet", by rw [same]; exact faucet⟩
    · exact ⟨"catch-all", by rw [same]; exact catchAll⟩
    · exact ⟨"catch-all", by rw [same]; exact catchAll⟩
  · intro path
    cases path with
    | conf =>
        intro front inside
        exact standing_of_inits (directories ["etc", "nginx", "sites-available"] (by decide)) front
          (inside.trans ⟨["sites-available"], rfl⟩)
    | available name =>
        exact standing_of_inits (directories ["etc", "nginx", "sites-available"] (by decide))
    | enabled name =>
        exact standing_of_inits (directories ["etc", "nginx", "sites-enabled"] (by decide))
  · decide

/-- A host on which everything is in place. -/
def deployedHost : FileTree String :=
  sampleHost ((tracked sampleRepo).map fun path => (path.dst, .link (path.src sampleRepo)))

theorem deployedHost_layout : Layout sampleRepo deployedHost := by
  apply layout_of_sample
  · decide
  · decide
  · decide
  · decide

theorem deployedHost_ahead : Ahead sampleStamps deployedHost (tracked sampleRepo) := by
  constructor
  · decide
  · decide

theorem deployedHost_correct (path : Tracked) (listed : path ∈ tracked sampleRepo) :
    Correct Readlink.unbounded sampleRepo deployedHost path := by
  have resolves : forall path, path ∈ tracked sampleRepo ->
      (deployedHost path.dst).text ≠ none ∧
        deployedHost.resolve Node.isDirectory 2 path.dst = some (path.file sampleRepo) := by
    decide
  rcases resolves path listed with ⟨link, same⟩
  exact ⟨link, (Readlink.unbounded.spec _ _ _).mpr ⟨2, same⟩⟩

theorem mem_of_sampleHost {entries : List (Path × Node String)} {path : Path} {bytes : String}
    (there : sampleHost entries path = .file bytes) :
    (path, .file bytes) ∈ entries ++ sampleEntries := by
  unfold sampleHost at there
  cases found : (entries ++ sampleEntries).lookup path with
  | none =>
      rw [found] at there
      cases there
  | some node =>
      rw [found] at there
      rcases List.lookup_eq_some_iff.mp found with ⟨front, back, shape, -⟩
      rw [shape, ← show node = .file bytes from there]
      exact List.mem_append_right front List.mem_cons_self

/-- All files are in the repository. -/
theorem deployedHost_no_file (name bytes : String) :
    deployedHost (Tracked.dst (.enabled name)) ≠ .file bytes := by
  intro there
  have rooted : forall entry, entry ∈ ((tracked sampleRepo).map fun path =>
      (path.dst, Node.link (path.src sampleRepo))) ++ sampleEntries ->
        entry.1.head? = some "etc" ->
          entry.2.text.isSome = true ∨ entry.2.isDirectory = true := by
    decide
  rcases rooted _ (mem_of_sampleHost there) rfl with link | directory
  · cases link
  · cases directory

theorem deploy_settles_sample :
    exitStatus (deploy Readlink.unbounded true sampleRepo sampleStamps
      (deploy Readlink.unbounded false sampleRepo sampleStamps deployedHost).tree) = 0 :=
  ((deploy_settles_iff Readlink.unbounded sampleRepo sampleStamps deployedHost_layout
    deployedHost_ahead).mpr (untangled_of_all_correct deployedHost_layout deployedHost_correct
      (List.Subset.refl _))).1 sampleStamps

/-- A host on which a vhost was put into `sites-enabled` by hand. -/
def handmadeHost : FileTree String :=
  sampleHost [(["etc", "nginx", "sites-enabled", "faucet.mutinynet.com"], .file "old faucet")]

theorem handmadeHost_layout : Layout sampleRepo handmadeHost := by
  apply layout_of_sample
  · decide
  · decide
  · decide
  · decide

theorem handmadeHost_ahead : Ahead sampleStamps handmadeHost (tracked sampleRepo) := by
  constructor
  · decide
  · decide

/-- A host on which the link of one vhost leads through that of another one. -/
def tangledHost : FileTree String :=
  sampleHost
    [(["etc", "nginx", "nginx.conf"], .link ["root", "mutiny-net", "nginx", "nginx.conf"]),
      (["etc", "nginx", "sites-available", "faucet.mutinynet.com"],
        .link ["root", "mutiny-net", "nginx", "faucet.mutinynet.com"]),
      (["etc", "nginx", "sites-enabled", "faucet.mutinynet.com"],
        .link ["etc", "nginx", "sites-available", "default"]),
      (["etc", "nginx", "sites-available", "default"],
        .link ["root", "mutiny-net", "nginx", "faucet.mutinynet.com"])]

theorem tangledHost_layout : Layout sampleRepo tangledHost := by
  apply layout_of_sample
  · decide
  · decide
  · decide
  · decide

theorem tangledHost_ahead : Ahead sampleStamps tangledHost (tracked sampleRepo) := by
  constructor
  · decide
  · decide

/-- The link that was left alone leads to the other vhost behind the run. -/
theorem tangled_drift :
    Not (forall (readlink : Readlink String) repo stamps tree, Layout repo tree ->
      Ahead stamps tree (tracked repo) ->
        exitStatus (deploy readlink true repo stamps (deploy readlink false repo stamps tree).tree)
          = 0) := by
  intro claimed
  have silent := claimed Readlink.unbounded sampleRepo sampleStamps tangledHost
    tangledHost_layout tangledHost_ahead
  rw [tree_deploy] at silent
  have final := @relinked_layout String _ Readlink.unbounded sampleRepo sampleStamps tangledHost
    (tracked sampleRepo) (List.suffix_refl _) tangledHost_layout tangledHost_ahead
  have untangled : Untangled Readlink.unbounded sampleRepo sampleStamps (fun _ => True)
      (tracked sampleRepo) tangledHost := by
    apply untangled_of_correct (fun _ => trivial) tangledHost_layout tangledHost_ahead
      sourced_tracked (List.suffix_refl _)
    intro path listed _
    by_contra wrong
    have drift := (@check_spec String _ Readlink.unbounded sampleRepo sampleStamps _ final).2.mpr
      ⟨path, listed, wrong⟩
    rw [silent] at drift
    cases drift
  have leads : forall path resolved,
      tangledHost.resolve Node.isDirectory 2 path = some resolved ->
        Readlink.unbounded.run tangledHost path = some resolved :=
    fun path resolved same => (Readlink.unbounded.spec _ _ _).mpr ⟨2, same⟩
  have passes : forall path : Tracked, (tangledHost path.dst).text.isSome = true ->
      (tangledHost.resolve Node.isDirectory 2 path.dst).isSome = true ->
      tangledHost.resolve Node.isDirectory 2 path.dst =
        tangledHost.resolve Node.isDirectory 2 (path.src sampleRepo) ->
      linked Readlink.unbounded tangledHost (path.src sampleRepo) path.dst = true := by
    intro path link found same
    rcases Option.isSome_iff_exists.mp found with ⟨resolved, here⟩
    rw [linked, link, leads _ _ here, leads _ _ (same.symm.trans here)]
    exact decide_eq_true rfl
  have stable := untangled.2.2.1 trivial
  rw [relink_of_linked (passes .conf (by decide) (by decide) (by decide)),
    relink_of_linked (passes (.available "faucet.mutinynet.com") (by decide) (by decide) (by decide)),
    via, if_pos (passes (.enabled "faucet.mutinynet.com") (by decide) (by decide) (by decide))]
    at stable
  have walk : Walk tangledHost [] (Tracked.dst (.enabled "faucet.mutinynet.com")) _
      (Tracked.file sampleRepo (.enabled "faucet.mutinynet.com")) :=
    .step (by decide) (by decide) <| .step (by decide) (by decide) <|
    .step (by decide) (by decide) <|
    @Walk.follow _ _ _ _ _ _ _ (Tracked.dst (.available "default")) (by decide) <|
    .step (by decide) (by decide) <| .step (by decide) (by decide) <|
    .step (by decide) (by decide) <|
    @Walk.follow _ _ _ _ _ _ _ (Tracked.file sampleRepo (.enabled "faucet.mutinynet.com"))
      (by decide) <|
    .step (by decide) (by decide) <| .step (by decide) (by decide) <|
    .step (by decide) (by decide) <| .step (by decide) (by decide) .stop
  have right := stable _ _ walk (.available "default") (by decide) (by decide)
  have elsewhere := leads (Tracked.dst (.available "default"))
    (Tracked.file sampleRepo (.enabled "faucet.mutinynet.com")) (by decide)
  exact absurd (Option.some.inj (elsewhere.symm.trans right.leads)) (by decide)

end Nginx
end MutinyNet
