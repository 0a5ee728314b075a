import MutinyNet.Nginx.Deploy

namespace MutinyNet
namespace Nginx

open Files

/-!
# When one run is enough

Each link is judged by where it leads at the moment, and the links that are made
later may be on its way.  So a path that was left alone may lead elsewhere at the
end of the run.  It does not if everything on the way that is still to come is
right already, and in a run after which everything is right this was so at every
turn.
-/

variable {B : Type}

/-! ## The order of the paths -/

section Order

variable {repo : Repository} {names : List String} {name : String} {path : Tracked}
  {later paths : List Tracked}

theorem vhostLinks_cons :
    vhostLinks (name :: names) = .available name :: .enabled name :: vhostLinks names :=
  rfl

/-- The paths still to come are those of some vhosts, perhaps behind the second one
of a vhost. -/
theorem vhostLinks_suffix (suffix : later <:+ vhostLinks names) :
    (Exists fun rest => later = vhostLinks rest ∧ rest <:+ names) ∨
      Exists fun name => Exists fun rest =>
        later = .enabled name :: vhostLinks rest ∧ name :: rest <:+ names := by
  induction names with
  | nil =>
      rw [List.suffix_nil.mp suffix]
      exact Or.inl ⟨[], rfl, List.suffix_refl _⟩
  | cons name names inductionHypothesis =>
      rw [vhostLinks_cons] at suffix
      rcases List.suffix_cons_iff.mp suffix with whole | suffix
      · exact Or.inl ⟨name :: names, whole, List.suffix_refl _⟩
      · rcases List.suffix_cons_iff.mp suffix with second | suffix
        · exact Or.inr ⟨name, names, second, List.suffix_refl _⟩
        · rcases inductionHypothesis suffix with ⟨rest, same, inside⟩ | ⟨other, rest, same, inside⟩
          · exact Or.inl ⟨rest, same, inside.trans (List.suffix_cons _ _)⟩
          · exact Or.inr ⟨other, rest, same, inside.trans (List.suffix_cons _ _)⟩

theorem head_vhostLinks (same : path :: paths = vhostLinks names) :
    Exists fun name => Exists fun rest => path = .available name ∧
      paths = .enabled name :: vhostLinks rest := by
  cases names with
  | nil => cases same
  | cons name names =>
      cases same
      exact ⟨name, names, rfl, rfl⟩

/-- Behind the first link of a vhost comes its second one. -/
theorem next_of_available (suffix : .available name :: paths <:+ tracked repo) :
    Exists fun rest => paths = .enabled name :: rest := by
  rcases List.suffix_cons_iff.mp suffix with whole | suffix
  · cases whole
  · rcases vhostLinks_suffix suffix with ⟨rest, same, -⟩ | ⟨other, rest, same, -⟩
    · rcases head_vhostLinks same with ⟨other, rest, first, second⟩
      cases first
      exact ⟨_, second⟩
    · cases same

/-- In front of the second link of a vhost comes its first one. -/
theorem eq_available_of_next (suffix : path :: .enabled name :: paths <:+ tracked repo) :
    path = .available name := by
  rcases List.suffix_cons_iff.mp suffix with whole | suffix
  · have rest := (List.cons.inj whole).2
    rcases head_vhostLinks rest with ⟨other, rest, impossible, -⟩
    cases impossible
  · rcases vhostLinks_suffix suffix with ⟨rest, same, -⟩ | ⟨other, rest, same, -⟩
    · rcases head_vhostLinks same with ⟨other, rest, first, second⟩
      cases second
      exact first
    · have rest := (List.cons.inj same).2
      rcases head_vhostLinks rest with ⟨other, rest, impossible, -⟩
      cases impossible

theorem default_not_matched : Not (Matched "default") := by
  decide

theorem vhosts_nodup (repo : Repository) : repo.vhosts.Nodup := by
  rw [Repository.vhosts, List.nodup_append]
  refine ⟨repo.nodup, List.nodup_singleton _, ?_⟩
  intro site globbed other single same
  rw [List.mem_singleton.mp single] at same
  rw [same] at globbed
  exact default_not_matched (repo.matched _ globbed)

theorem conf_not_vhost (repo : Repository) : "nginx.conf" ∉ repo.vhosts := by
  intro listed
  rcases List.mem_append.mp listed with globbed | single
  · exact absurd (repo.matched _ globbed) (by decide)
  · exact absurd (List.mem_singleton.mp single) (by decide)

theorem mem_vhostLinks : path ∈ vhostLinks names <->
    Exists fun name => name ∈ names ∧ (path = .available name ∨ path = .enabled name) := by
  simp only [vhostLinks, List.mem_flatMap, List.mem_cons, List.not_mem_nil, or_false]

theorem vhostLinks_nodup (distinct : names.Nodup) : (vhostLinks names).Nodup := by
  induction names with
  | nil => exact List.nodup_nil
  | cons name names inductionHypothesis =>
      have fresh := (List.nodup_cons.mp distinct).1
      rw [vhostLinks_cons, List.nodup_cons, List.nodup_cons, List.mem_cons]
      refine ⟨?_, ?_, inductionHypothesis (List.nodup_cons.mp distinct).2⟩
      · rintro (impossible | later)
        · cases impossible
        · rcases mem_vhostLinks.mp later with ⟨other, member, same | impossible⟩
          · cases same
            exact fresh member
          · cases impossible
      · intro later
        rcases mem_vhostLinks.mp later with ⟨other, member, impossible | same⟩
        · cases impossible
        · cases same
          exact fresh member

theorem tracked_nodup (repo : Repository) : (tracked repo).Nodup := by
  rw [tracked, List.nodup_cons]
  refine ⟨?_, vhostLinks_nodup (vhosts_nodup repo)⟩
  intro later
  rcases mem_vhostLinks.mp later with ⟨name, -, impossible | impossible⟩
  · cases impossible
  · cases impossible

theorem not_mem_of_suffix (suffix : path :: paths <:+ tracked repo) : path ∉ paths :=
  (List.nodup_cons.mp (suffix.sublist.nodup (tracked_nodup repo))).1

theorem mem_of_suffix (suffix : path :: paths <:+ tracked repo) : path ∈ tracked repo :=
  suffix.subset List.mem_cons_self

theorem rest_of_suffix (suffix : path :: paths <:+ tracked repo) : paths <:+ tracked repo :=
  (List.suffix_cons path paths).trans suffix

/-- The first link of a vhost does not come behind its second one. -/
theorem available_not_behind (suffix : .enabled name :: paths <:+ tracked repo) :
    .available name ∉ paths := by
  intro member
  rcases List.suffix_cons_iff.mp suffix with impossible | suffix
  · cases impossible
  · rcases vhostLinks_suffix suffix with ⟨rest, same, -⟩ | ⟨other, rest, same, inside⟩
    · rcases head_vhostLinks same with ⟨other, rest, impossible, -⟩
      cases impossible
    · cases same
      rcases mem_vhostLinks.mp member with ⟨other, listed, same | impossible⟩
      · cases same
        exact (List.nodup_cons.mp (inside.sublist.nodup (vhosts_nodup repo))).1 listed
      · cases impossible

/-- One file of the repository stands behind the two links of a vhost only. -/
theorem eq_of_name {other : Tracked} (listed : path ∈ tracked repo) (also : other ∈ tracked repo)
    (same : path.name = other.name) :
    path = other ∨ (Exists fun name => path = .available name ∧ other = .enabled name) ∨
      Exists fun name => path = .enabled name ∧ other = .available name := by
  have notConf : forall {vhost : Tracked}, vhost ∈ tracked repo -> vhost ≠ .conf ->
      vhost.name ≠ "nginx.conf" := by
    intro vhost listed different equal
    rcases List.mem_cons.mp listed with here | later
    · exact different here
    · rcases mem_vhostLinks.mp later with ⟨site, member, first | second⟩
      · rw [first] at equal
        cases equal
        exact conf_not_vhost repo member
      · rw [second] at equal
        cases equal
        exact conf_not_vhost repo member
  cases path with
  | conf =>
      cases other with
      | conf => exact Or.inl rfl
      | available name => exact absurd same.symm (notConf also (by intro impossible; cases impossible))
      | enabled name => exact absurd same.symm (notConf also (by intro impossible; cases impossible))
  | available name =>
      cases other with
      | conf => exact absurd same (notConf listed (by intro impossible; cases impossible))
      | available site =>
          cases same
          exact Or.inl rfl
      | enabled site =>
          cases same
          exact Or.inr (Or.inl ⟨_, rfl, rfl⟩)
  | enabled name =>
      cases other with
      | conf => exact absurd same (notConf listed (by intro impossible; cases impossible))
      | available site =>
          cases same
          exact Or.inr (Or.inr ⟨_, rfl, rfl⟩)
      | enabled site =>
          cases same
          exact Or.inl rfl

end Order

/-! ## Turns -/

section Turns

variable {readlink : Readlink B} {repo : Repository} {stamps : Stamps} {tree : FileTree B}
  {path other : Tracked} {paths : List Tracked} {seen : List Path} {start target : Path}

/-- A link that resolves to its file in the repository. -/
structure Correct (readlink : Readlink B) (repo : Repository) (tree : FileTree B)
    (path : Tracked) : Prop where
  link : (tree path.dst).text ≠ none
  leads : readlink.run tree path.dst = some (path.file repo)

/-- In front of the second link of a vhost the first one is right. -/
def Sourced (readlink : Readlink B) (repo : Repository) (tree : FileTree B)
    (paths : List Tracked) : Prop :=
  forall name rest, paths = .enabled name :: rest -> Correct readlink repo tree (.available name)

theorem Correct.node (correct : Correct readlink repo tree path) :
    Exists fun text => tree path.dst = .link text := by
  have isLink := correct.link
  cases node : tree path.dst with
  | link text => exact ⟨text, rfl⟩
  | missing =>
      rw [node] at isLink
      exact absurd rfl isLink
  | directory =>
      rw [node] at isLink
      exact absurd rfl isLink
  | file bytes =>
      rw [node] at isLink
      exact absurd rfl isLink

theorem Correct.walk (correct : Correct readlink repo tree path) :
    Exists fun seen => Walk tree [] path.dst seen (path.file repo) :=
  readlink.eq_some_iff.mp correct.leads

theorem Correct.of_walk (link : (tree path.dst).text ≠ none)
    (walk : Walk tree [] path.dst seen (path.file repo)) : Correct readlink repo tree path :=
  ⟨link, readlink.eq_some_iff.mpr ⟨seen, walk⟩⟩

theorem file_ne_nil : path.file repo ≠ [] :=
  List.append_ne_nil_of_right_ne_nil _ (List.cons_ne_nil _ [])

theorem Layout.file_walk (layout : Layout repo tree) (listed : path ∈ tracked repo) :
    Exists fun seen => Walk tree [] (path.file repo) seen (path.file repo) ∧
      forall place, place ∈ seen -> tree place = .directory ∨ place = path.file repo := by
  rcases layout.files path listed with ⟨bytes, file⟩
  exact walk_file layout.repository file

theorem Layout.file_not_directory (layout : Layout repo tree) (listed : path ∈ tracked repo) :
    (tree (path.file repo)).isDirectory = false := by
  rcases layout.files path listed with ⟨bytes, file⟩
  rw [file]
  rfl

theorem Layout.file_not_missing (layout : Layout repo tree) (listed : path ∈ tracked repo) :
    tree (path.file repo) ≠ .missing := by
  rcases layout.files path listed with ⟨bytes, file⟩
  rw [file]
  intro impossible
  cases impossible

/-- When it is a path's turn its source leads to its file. -/
theorem src_leads (layout : Layout repo tree) (sourced : Sourced readlink repo tree (path :: paths))
    (listed : path ∈ tracked repo) :
    Exists fun seen => Walk tree [] (path.src repo) seen (path.file repo) := by
  cases path with
  | conf =>
      rcases layout.file_walk listed with ⟨seen, walk, -⟩
      exact ⟨seen, walk⟩
  | available name =>
      rcases layout.file_walk listed with ⟨seen, walk, -⟩
      exact ⟨seen, walk⟩
  | enabled name => exact (sourced name paths rfl).walk

/-- So it is left alone if and only if it is right. -/
theorem linked_iff (layout : Layout repo tree)
    (sourced : Sourced readlink repo tree (path :: paths)) (listed : path ∈ tracked repo) :
    linked readlink tree (path.src repo) path.dst = true <-> Correct readlink repo tree path := by
  have source := readlink.eq_some_iff.mpr (src_leads layout sourced listed)
  rw [linked, source, Bool.and_eq_true, decide_eq_true_iff, Option.isSome_iff_ne_none]
  constructor
  · rintro ⟨isLink, leads⟩
    exact ⟨isLink, leads⟩
  · intro correct
    exact ⟨correct.link, correct.leads⟩

theorem linked_false_iff (layout : Layout repo tree)
    (sourced : Sourced readlink repo tree (path :: paths)) (listed : path ∈ tracked repo) :
    linked readlink tree (path.src repo) path.dst = false <->
      Not (Correct readlink repo tree path) := by
  rw [← linked_iff layout sourced listed, Bool.not_eq_true]

/-- A link to a file of the repository is right. -/
theorem correct_of_link (layout : Layout repo tree) (listed : path ∈ tracked repo)
    (link : tree path.dst = .link (path.file repo)) : Correct readlink repo tree path := by
  rcases layout.file_walk listed with ⟨seen, walk, -⟩
  rcases walk_link (layout.places path) link walk with ⟨seen', further, -⟩
  refine Correct.of_walk ?_ further
  rw [link]
  exact Option.some_ne_none _

/-- On the way of a path to a file there are only links that are right, and they
lead on along this way. -/
theorem correct_inside (layout : Layout repo tree) (also : other ∈ tracked repo)
    (walk : Walk tree [] start seen (path.file repo))
    (member : other.dst ∈ seen) (correct : Correct readlink repo tree other) :
    Exists fun seen' => Walk tree [] other.dst seen' (other.file repo) ∧
      forall place, place ∈ seen' -> tree place = .directory ∨ place ∈ seen := by
  rcases correct.node with ⟨text, node⟩
  rcases walk.tail other.dst member with ⟨front, name, rest, later, same, further, inside⟩
  rcases correct.walk with ⟨own, ownWalk⟩
  rcases walk_text (layout.places other) node ownWalk with ⟨behind, textWalk, -⟩
  have nonempty : text ≠ [] := by
    intro empty
    rw [empty] at textWalk
    exact file_ne_nil textWalk.eq_of_nil
  rw [same] at further
  cases further with
  | step plain goes further =>
      rw [← same, node] at plain
      cases plain
  | follow link further =>
      rw [← same, node] at link
      cases link
      have last := textWalk.rest_eq_nil nonempty file_ne_nil (layout.file_not_directory also) further
      rw [last, List.append_nil] at further
      rcases textWalk.deterministic further with ⟨sameSeen, -⟩
      subst sameSeen
      rcases walk_link (layout.places other) node textWalk with ⟨seen', whole, looked⟩
      refine ⟨seen', whole, ?_⟩
      intro place inSeen
      rcases looked place inSeen with directory | itself | later
      · exact Or.inl directory
      · rw [itself]
        exact Or.inr member
      · exact Or.inr (inside later)

/-- A way to the file of a path that ends behind the path itself, or behind the
other link of its vhost, makes it right. -/
theorem correct_of_last {front : Path} {name : String} {later : List Path} (layout : Layout repo tree)
    (sameFile : other.file repo = path.file repo) (isDst : front ++ [name] = path.dst)
    (walk : Walk tree front [name] later (other.file repo)) :
    Correct readlink repo tree path := by
  have ends : front = path.place ∧ name = path.name := by
    rw [Tracked.dst] at isDst
    exact ⟨List.append_inj_left' isDst rfl, List.singleton_inj.mp (List.append_inj_right' isDst rfl)⟩
  have standing : Standing tree ([] ++ path.place) := layout.places path
  rw [sameFile] at walk
  have link : (tree path.dst).text ≠ none := by
    intro plain
    cases walk with
    | step plain' goes further =>
        have itself := further.eq_of_nil
        rw [isDst] at itself
        exact layout.dst_ne_file itself.symm
    | follow link further =>
        rw [isDst, plain] at link
        cases link
  rw [ends.1, ends.2] at walk
  rcases Walk.through standing walk with ⟨seen, whole, -⟩
  exact Correct.of_walk link whole

variable [DecidableEq B]

/-- The first link of a vhost is right behind its turn. -/
theorem correct_relink_available {name : String} (layout : Layout repo tree)
    (ahead : Ahead stamps tree (.available name :: paths))
    (sourced : Sourced readlink repo tree (.available name :: paths))
    (listed : .available name ∈ tracked repo) :
    Correct readlink repo (relink readlink repo stamps tree (.available name))
      (.available name) := by
  cases isLinked : linked readlink tree (Tracked.src repo (.available name))
    (Tracked.dst (.available name)) with
  | true =>
      rw [relink_of_linked isLinked]
      exact (linked_iff layout sourced listed).mp isLinked
  | false =>
      apply correct_of_link (relink_layout readlink layout ahead) listed
      exact relink_dst isLinked

theorem sourced_relink (layout : Layout repo tree) (ahead : Ahead stamps tree (path :: paths))
    (sourced : Sourced readlink repo tree (path :: paths))
    (suffix : path :: paths <:+ tracked repo) :
    Sourced readlink repo (relink readlink repo stamps tree path) paths := by
  intro name rest same
  subst same
  have isAvailable := eq_available_of_next suffix
  subst isAvailable
  exact correct_relink_available layout ahead sourced (mem_of_suffix suffix)

/-- What a turn leaves alone on the way to a file: everything but its path. -/
theorem relink_on_way (layout : Layout repo tree) (ahead : Ahead stamps tree (path :: paths))
    (walk : Walk tree [] start seen (other.file repo)) :
    forall place, place ∈ seen -> place ≠ path.dst ->
      relink readlink repo stamps tree path place = tree place := by
  intro place member notDst
  apply relink_of_ne notDst
  intro isBackup
  rcases walk.present place member with isFile | present
  · rw [isFile] at isBackup
    exact layout.backup_ne_file isBackup.symm
  · rw [isBackup] at present
    exact present (ahead.fresh path List.mem_cons_self)

end Turns

/-! ## What is settled stays -/

section Runs

variable [DecidableEq B] {readlink : Readlink B} {repo : Repository} {stamps : Stamps}
  {tree : FileTree B} {path target : Tracked} {paths : List Tracked} {start : Path}

/-- A path leads to a file, and what is to come on the way is right. -/
def Settled (readlink : Readlink B) (repo : Repository) (tree : FileTree B)
    (paths : List Tracked) (start : Path) (target : Tracked) : Prop :=
  Exists fun seen => Walk tree [] start seen (target.file repo) ∧
    forall other, other ∈ paths -> other.dst ∈ seen -> Correct readlink repo tree other

/-- One turn leaves a settled path where it leads. -/
theorem settled_relink (layout : Layout repo tree) (ahead : Ahead stamps tree (path :: paths))
    (sourced : Sourced readlink repo tree (path :: paths))
    (suffix : path :: paths <:+ tracked repo)
    (settled : Settled readlink repo tree (path :: paths) start target) :
    Settled readlink repo (relink readlink repo stamps tree path) paths start target := by
  rcases settled with ⟨seen, walk, right⟩
  cases isLinked : linked readlink tree (path.src repo) path.dst with
  | true =>
      rw [relink_of_linked isLinked]
      exact ⟨seen, walk, fun other member => right other (List.mem_cons_of_mem path member)⟩
  | false =>
      have wrong := (linked_false_iff layout sourced (mem_of_suffix suffix)).mp isLinked
      have agree : forall place, place ∈ seen ->
          relink readlink repo stamps tree path place = tree place := by
        intro place member
        apply relink_on_way layout ahead walk place member
        intro isDst
        rw [isDst] at member
        exact wrong (right path List.mem_cons_self member)
      refine ⟨seen, walk.congr agree, ?_⟩
      intro other member inSeen
      have correct := right other (List.mem_cons_of_mem path member) inSeen
      have also := (rest_of_suffix suffix).subset member
      rcases correct_inside layout also walk inSeen correct with ⟨seen', own, looked⟩
      apply Correct.of_walk
      · rw [agree _ inSeen]
        exact correct.link
      · apply own.congr
        intro place inOwn
        rcases looked place inOwn with directory | earlier
        · rw [directory]
          exact (relink_directory ahead).mpr directory
        · exact agree place earlier

/-- What is there and is no path to come stays as it is. -/
theorem relinked_stays {place : Path} (suffix : paths <:+ tracked repo)
    (ahead : Ahead stamps tree paths) (notDst : forall other, other ∈ paths -> place ≠ other.dst)
    (present : tree place ≠ .missing) :
    relinked readlink repo stamps paths tree place = tree place := by
  induction paths generalizing tree with
  | nil => rfl
  | cons path paths inductionHypothesis =>
      have here : relink readlink repo stamps tree path place = tree place := by
        apply relink_of_ne (notDst path List.mem_cons_self)
        intro isBackup
        rw [isBackup] at present
        exact present (ahead.fresh path List.mem_cons_self)
      have step : relinked readlink repo stamps (path :: paths) tree =
        relinked readlink repo stamps paths (relink readlink repo stamps tree path) := rfl
      rw [step, inductionHypothesis (rest_of_suffix suffix), here]
      · exact relink_ahead readlink ahead (not_mem_of_suffix suffix) (mem_of_suffix suffix)
      · exact fun other member => notDst other (List.mem_cons_of_mem path member)
      · rwa [here]

theorem relinked_layout (suffix : paths <:+ tracked repo) (layout : Layout repo tree)
    (ahead : Ahead stamps tree paths) :
    Layout repo (relinked readlink repo stamps paths tree) := by
  induction paths generalizing tree with
  | nil => exact layout
  | cons path paths inductionHypothesis =>
      exact inductionHypothesis (rest_of_suffix suffix) (relink_layout readlink layout ahead)
        (relink_ahead readlink ahead (not_mem_of_suffix suffix) (mem_of_suffix suffix))

/-- Behind its turn a path is a link, and the rest of the run leaves it alone. -/
theorem relinked_dst (layout : Layout repo tree) (ahead : Ahead stamps tree (path :: paths))
    (sourced : Sourced readlink repo tree (path :: paths))
    (suffix : path :: paths <:+ tracked repo) :
    relinked readlink repo stamps (path :: paths) tree path.dst =
        relink readlink repo stamps tree path path.dst ∧
      (relink readlink repo stamps tree path path.dst).text ≠ none := by
  have isLink : (relink readlink repo stamps tree path path.dst).text ≠ none := by
    cases isLinked : linked readlink tree (path.src repo) path.dst with
    | true =>
        rw [relink_of_linked isLinked]
        exact ((linked_iff layout sourced (mem_of_suffix suffix)).mp isLinked).link
    | false =>
        rw [relink_dst isLinked]
        exact Option.some_ne_none _
  refine ⟨?_, isLink⟩
  have ahead' := relink_ahead readlink ahead (not_mem_of_suffix suffix)
    (mem_of_suffix suffix)
  apply relinked_stays (rest_of_suffix suffix) ahead'
  · intro other member same
    rw [dst_injective same] at suffix
    exact not_mem_of_suffix suffix member
  · intro missing
    rw [missing] at isLink
    exact isLink rfl

theorem walk_of_settled (layout : Layout repo tree) (ahead : Ahead stamps tree paths)
    (sourced : Sourced readlink repo tree paths) (suffix : paths <:+ tracked repo)
    (settled : Settled readlink repo tree paths start target) :
    Exists fun seen =>
      Walk (relinked readlink repo stamps paths tree) [] start seen (target.file repo) := by
  induction paths generalizing tree with
  | nil =>
      rcases settled with ⟨seen, walk, -⟩
      exact ⟨seen, walk⟩
  | cons path paths inductionHypothesis =>
      exact inductionHypothesis (relink_layout readlink layout ahead)
        (relink_ahead readlink ahead (not_mem_of_suffix suffix) (mem_of_suffix suffix))
        (sourced_relink layout ahead sourced suffix) (rest_of_suffix suffix)
        (settled_relink layout ahead sourced suffix settled)

/-! ## The condition -/

/-- Wherever a path leads, what is to come on the way is right already. -/
def Stable (readlink : Readlink B) (repo : Repository) (tree : FileTree B)
    (paths : List Tracked) (start : Path) : Prop :=
  forall seen resolved, Walk tree [] start seen resolved ->
    forall other, other ∈ paths -> other.dst ∈ seen -> Correct readlink repo tree other

/-- From where a path's way goes on behind its turn: the path itself if it is left
alone, else its source. -/
def via (readlink : Readlink B) (repo : Repository) (tree : FileTree B) (path : Tracked) : Path :=
  if linked readlink tree (path.src repo) path.dst then path.dst else path.src repo

/-- At every turn of a watched path its way is stable. -/
def Untangled (readlink : Readlink B) (repo : Repository) (stamps : Stamps)
    (watched : Tracked -> Prop) : List Tracked -> FileTree B -> Prop
  | [], _ => True
  | path :: paths, tree =>
      (watched path -> Stable readlink repo tree (path :: paths) (via readlink repo tree path)) ∧
        Untangled readlink repo stamps watched paths (relink readlink repo stamps tree path)

theorem settled_of_stable (layout : Layout repo tree) (ahead : Ahead stamps tree (path :: paths))
    (sourced : Sourced readlink repo tree (path :: paths))
    (suffix : path :: paths <:+ tracked repo)
    (stable : Stable readlink repo tree (path :: paths) (via readlink repo tree path)) :
    Settled readlink repo (relink readlink repo stamps tree path) paths path.dst path := by
  rw [via] at stable
  cases isLinked : linked readlink tree (path.src repo) path.dst with
  | true =>
      rw [if_pos isLinked] at stable
      rcases ((linked_iff layout sourced (mem_of_suffix suffix)).mp isLinked).walk with ⟨seen, walk⟩
      exact settled_relink layout ahead sourced suffix ⟨seen, walk, stable seen _ walk⟩
  | false =>
      rw [isLinked, if_neg Bool.false_ne_true] at stable
      rcases src_leads layout sourced (mem_of_suffix suffix) with ⟨seen, walk⟩
      rcases settled_relink layout ahead sourced suffix ⟨seen, walk, stable seen _ walk⟩ with
        ⟨seen', walk', right⟩
      have layout' := relink_layout readlink layout ahead
      have ahead' := relink_ahead readlink ahead (not_mem_of_suffix suffix)
        (mem_of_suffix suffix)
      rcases walk_link (layout'.places path) (relink_dst isLinked) walk' with ⟨own, whole, looked⟩
      refine ⟨own, whole, ?_⟩
      intro other member inOwn
      rcases looked other.dst inOwn with directory | itself | later
      · exact absurd directory (ahead'.notDirectory other member)
      · rw [dst_injective itself] at member
        exact absurd member (not_mem_of_suffix suffix)
      · exact right other member later

/-- If the ways are stable then every watched path is right at the end. -/
theorem correct_of_untangled {watched : Tracked -> Prop} (layout : Layout repo tree)
    (ahead : Ahead stamps tree paths) (sourced : Sourced readlink repo tree paths)
    (suffix : paths <:+ tracked repo)
    (untangled : Untangled readlink repo stamps watched paths tree) :
    forall path, path ∈ paths -> watched path ->
      Correct readlink repo (relinked readlink repo stamps paths tree) path := by
  induction paths generalizing tree with
  | nil =>
      intro path impossible
      cases impossible
  | cons path paths inductionHypothesis =>
      have layout' := relink_layout readlink layout ahead
      have ahead' := relink_ahead readlink ahead (not_mem_of_suffix suffix)
        (mem_of_suffix suffix)
      have sourced' := sourced_relink layout ahead sourced suffix
      intro other member watching
      rcases List.mem_cons.mp member with here | later
      · subst here
        have settled := settled_of_stable layout ahead sourced suffix (untangled.1 watching)
        rcases walk_of_settled layout' ahead' sourced' (rest_of_suffix suffix) settled with
          ⟨seen, walk⟩
        rcases relinked_dst layout ahead sourced suffix with ⟨same, isLink⟩
        refine Correct.of_walk ?_ walk
        rw [same]
        exact isLink
      · exact inductionHypothesis layout' ahead' sourced' (rest_of_suffix suffix) untangled.2 other
          later watching

/-- What a run changes: paths that are to come, and paths at which nothing was. -/
theorem relinked_changed (layout : Layout repo tree) (ahead : Ahead stamps tree paths)
    (sourced : Sourced readlink repo tree paths) (suffix : paths <:+ tracked repo) (place : Path) :
    relinked readlink repo stamps paths tree place = tree place ∨
      (Exists fun path => path ∈ paths ∧ place = path.dst ∧
        relinked readlink repo stamps paths tree place = .link (path.src repo)) ∨
      tree place = .missing := by
  induction paths generalizing tree with
  | nil => exact Or.inl rfl
  | cons path paths inductionHypothesis =>
      by_cases missing : tree place = .missing
      · exact Or.inr (Or.inr missing)
      · by_cases isDst : place = path.dst
        · subst isDst
          rw [(relinked_dst layout ahead sourced suffix).1]
          cases isLinked : linked readlink tree (path.src repo) path.dst with
          | true =>
              rw [relink_of_linked isLinked]
              exact Or.inl rfl
          | false => exact Or.inr (Or.inl ⟨path, List.mem_cons_self, rfl, relink_dst isLinked⟩)
        · have here : relink readlink repo stamps tree path place = tree place := by
            apply relink_of_ne isDst
            intro isBackup
            rw [isBackup] at missing
            exact missing (ahead.fresh path List.mem_cons_self)
          rcases inductionHypothesis (relink_layout readlink layout ahead)
            (relink_ahead readlink ahead (not_mem_of_suffix suffix) (mem_of_suffix suffix))
            (sourced_relink layout ahead sourced suffix) (rest_of_suffix suffix) with
            same | ⟨other, member, isOther, link⟩ | gone
          · exact Or.inl (same.trans here)
          · exact Or.inr (Or.inl ⟨other, List.mem_cons_of_mem path member, isOther, link⟩)
          · rw [here] at gone
            exact absurd gone missing

/-- A way that the rest of the run leaves as it is meets only what is right. -/
theorem correct_of_undisturbed {seen : List Path} (layout : Layout repo tree)
    (ahead : Ahead stamps tree paths) (sourced : Sourced readlink repo tree paths)
    (suffix : paths <:+ tracked repo) (walk : Walk tree [] start seen (target.file repo))
    (undisturbed : forall place, place ∈ seen ->
      relinked readlink repo stamps paths tree place = tree place) :
    forall path, path ∈ paths -> path.dst ∈ seen -> Correct readlink repo tree path := by
  induction paths generalizing tree with
  | nil =>
      intro path impossible
      cases impossible
  | cons path paths inductionHypothesis =>
      have listed := mem_of_suffix suffix
      have layout' := relink_layout readlink layout ahead
      have dst := relinked_dst layout ahead sourced suffix
      have agree : forall place, place ∈ seen ->
          relink readlink repo stamps tree path place = tree place := by
        intro place member
        by_cases isDst : place = path.dst
        · subst isDst
          exact dst.1.symm.trans (undisturbed _ member)
        · exact relink_on_way layout ahead walk place member isDst
      intro other member inSeen
      rcases List.mem_cons.mp member with here | later
      · subst here
        cases isLinked : linked readlink tree (other.src repo) other.dst with
        | true => exact (linked_iff layout sourced listed).mp isLinked
        | false =>
            -- the link that is made is the one that was there
            have link := (agree _ inSeen).symm.trans (relink_dst isLinked)
            rcases src_leads layout sourced listed with ⟨seen', source⟩
            rcases walk_link (layout.places other) link source with ⟨own, whole, -⟩
            refine Correct.of_walk ?_ whole
            rw [link]
            exact Option.some_ne_none _
      · have walk' := walk.congr agree
        have correct := inductionHypothesis layout'
          (relink_ahead readlink ahead (not_mem_of_suffix suffix) listed)
          (sourced_relink layout ahead sourced suffix) (rest_of_suffix suffix) walk'
          (fun place inside => (undisturbed place inside).trans (agree place inside).symm) other
          later inSeen
        have also := (rest_of_suffix suffix).subset later
        rcases correct_inside layout' also walk' inSeen correct with ⟨seen', own, looked⟩
        apply Correct.of_walk
        · rw [← agree _ inSeen]
          exact correct.link
        · apply own.congr
          intro place inOwn
          rcases looked place inOwn with directory | earlier
          · rw [directory]
            exact (relink_directory ahead).mp directory
          · exact (agree place earlier).symm

/-- If a path is right at its turn the run leaves it alone; and so it does if the
path is right one turn earlier and that turn changes nothing. -/
theorem relinked_of_correct {culprit : Tracked} (layout : Layout repo tree)
    (ahead : Ahead stamps tree (path :: paths))
    (sourced : Sourced readlink repo tree (path :: paths))
    (suffix : path :: paths <:+ tracked repo) (correct : Correct readlink repo tree culprit)
    (turn : culprit = path ∨ linked readlink tree (path.src repo) path.dst = true ∧
      Exists fun rest => paths = culprit :: rest) :
    relinked readlink repo stamps (path :: paths) tree culprit.dst = tree culprit.dst := by
  rcases turn with here | ⟨isLinked, rest, next⟩
  · subst here
    have isLinked := (linked_iff layout sourced (mem_of_suffix suffix)).mpr correct
    rw [(relinked_dst layout ahead sourced suffix).1, relink_of_linked isLinked]
  · subst next
    have ahead' := relink_ahead readlink ahead (not_mem_of_suffix suffix) (mem_of_suffix suffix)
    have sourced' := sourced_relink layout ahead sourced suffix
    have step : relinked readlink repo stamps (path :: culprit :: rest) tree =
      relinked readlink repo stamps (culprit :: rest) (relink readlink repo stamps tree path) := rfl
    have suffix' := rest_of_suffix suffix
    rw [relink_of_linked isLinked] at step ahead' sourced'
    have again := (linked_iff layout sourced' (mem_of_suffix suffix')).mpr correct
    rw [step, (relinked_dst layout ahead' sourced' suffix').1, relink_of_linked again]

/-- If every watched path is right at the end, the second links of the vhosts among
them, then the ways were stable. -/
theorem untangled_of_correct {watched : Tracked -> Prop}
    (second : forall name, watched (.enabled name)) (layout : Layout repo tree)
    (ahead : Ahead stamps tree paths) (sourced : Sourced readlink repo tree paths)
    (suffix : paths <:+ tracked repo)
    (correct : forall path, path ∈ paths -> watched path ->
      Correct readlink repo (relinked readlink repo stamps paths tree) path) :
    Untangled readlink repo stamps watched paths tree := by
  induction paths generalizing tree with
  | nil => trivial
  | cons path paths inductionHypothesis =>
      have listed := mem_of_suffix suffix
      refine ⟨?_, inductionHypothesis (relink_layout readlink layout ahead)
        (relink_ahead readlink ahead (not_mem_of_suffix suffix) listed)
        (sourced_relink layout ahead sourced suffix) (rest_of_suffix suffix)
        fun other member => correct other (List.mem_cons_of_mem path member)⟩
      intro watching seen resolved walk
      have final := @relinked_layout _ _ readlink _ _ _ _ suffix layout ahead
      have atEnd := correct path List.mem_cons_self watching
      have leads : (Exists fun seen =>
            Walk tree [] (via readlink repo tree path) seen (path.file repo)) ∧
          Exists fun seen => Walk (relinked readlink repo stamps (path :: paths) tree) []
            (via readlink repo tree path) seen (path.file repo) := by
        rw [via]
        cases isLinked : linked readlink tree (path.src repo) path.dst with
        | true =>
            rw [if_pos rfl]
            exact ⟨((linked_iff layout sourced listed).mp isLinked).walk, atEnd.walk⟩
        | false =>
            rw [if_neg Bool.false_ne_true]
            refine ⟨src_leads layout sourced listed, ?_⟩
            rcases atEnd.walk with ⟨own, ownWalk⟩
            have link := (relinked_dst layout ahead sourced suffix).1.trans (relink_dst isLinked)
            rcases walk_text (final.places path) link ownWalk with ⟨behind, textWalk, -⟩
            exact ⟨behind, textWalk⟩
      rcases leads with ⟨⟨seen', walk'⟩, seenFinal, walkFinal⟩
      have equal := (walk.deterministic walk').2
      subst equal
      rcases walk.first_difference (relinked readlink repo stamps (path :: paths) tree) with
        agree | ⟨front, name, rest, later, inside, differs, fromHere, all⟩
      · exact correct_of_undisturbed layout ahead sourced suffix walk agree
      · exfalso
        rcases all _ _ walkFinal with ⟨later', there⟩
        rcases relinked_changed layout ahead sourced suffix (front ++ [name]) with
          same | ⟨culprit, member, isDst, link⟩ | missing
        · exact differs same
        · have also := suffix.subset member
          cases there with
          | step plain goes further =>
              rw [link] at plain
              cases plain
          | follow link' further =>
              rw [link] at link'
              cases link'
              have source : Exists fun seen => Walk
                  (relinked readlink repo stamps (path :: paths) tree) [] (culprit.src repo) seen
                  (culprit.file repo) := by
                cases culprit with
                | conf =>
                    rcases final.file_walk also with ⟨seen, walk, -⟩
                    exact ⟨seen, walk⟩
                | available site =>
                    rcases final.file_walk also with ⟨seen, walk, -⟩
                    exact ⟨seen, walk⟩
                | enabled site =>
                    rw [isDst] at link
                    rcases (correct _ member (second site)).walk with ⟨own, ownWalk⟩
                    rcases walk_text (final.places _) link ownWalk with ⟨behind, textWalk, -⟩
                    exact ⟨behind, textWalk⟩
              rcases source with ⟨sourceSeen, sourceWalk⟩
              have nonempty : culprit.src repo ≠ [] := by
                cases culprit with
                | conf => exact file_ne_nil
                | available site => exact file_ne_nil
                | enabled site => exact List.append_ne_nil_of_right_ne_nil _ (List.cons_ne_nil _ [])
              have last := sourceWalk.rest_eq_nil nonempty file_ne_nil
                (final.file_not_directory also) further
              subst last
              rw [List.append_nil] at further
              have sameFile := (sourceWalk.deterministic further).2
              have right : Correct readlink repo tree culprit :=
                correct_of_last layout sameFile.symm isDst fromHere
              have names : path.name = culprit.name :=
                (List.singleton_inj.mp (List.append_inj_right' sameFile rfl)).symm
              rw [isDst] at differs
              apply differs
              apply relinked_of_correct layout ahead sourced suffix right
              rcases eq_of_name listed also names with
                same | ⟨site, first, isSecond⟩ | ⟨site, isSecond, first⟩
              · exact Or.inl same.symm
              · subst first
                subst isSecond
                refine Or.inr ⟨?_, next_of_available suffix⟩
                -- a source in the repository is not reached through a tracked path
                cases isLinked : linked readlink tree (Tracked.src repo (.available site))
                  (Tracked.dst (.available site)) with
                | true => rfl
                | false =>
                    rw [via, isLinked, if_neg Bool.false_ne_true] at walk
                    rcases layout.file_walk listed with ⟨fileSeen, fileWalk, looked⟩
                    rw [(walk.deterministic fileWalk).1] at inside
                    rw [isDst] at inside
                    rcases looked _ inside with directory | isFile
                    · exact absurd directory (ahead.notDirectory _ member)
                    · exact absurd isFile layout.dst_ne_file
              · subst first
                subst isSecond
                rcases List.mem_cons.mp member with impossible | behind
                · cases impossible
                · exact absurd behind (available_not_behind suffix)
        · rcases walk.present _ inside with isFile | present
          · rw [isFile] at missing
            exact layout.file_not_missing listed missing
          · exact present missing

end Runs

end Nginx
end MutinyNet
