import MutinyNet.Files.Tree

namespace MutinyNet
namespace Files

/-!
# The way of a resolution

A resolution as a relation, with every path it looked at.  It follows any number
of links, and there is none for a path that leads in a circle.  A change of the
tree elsewhere leaves a walk as it is; and where two trees lead a path to
different ends there is a first path on the way at which they differ.
-/

variable {B : Type}

/-- From a path that is resolved, along further names, looking at some paths, to
what it resolves to.  All but the last name have to be directories. -/
inductive Walk (tree : FileTree B) : Path -> List String -> List Path -> Path -> Prop
  | stop {done} : Walk tree done [] [] done
  | step {done name rest seen resolved} :
      (tree (done ++ [name])).text = none ->
      (rest = [] ∨ (tree (done ++ [name])).isDirectory = true) ->
      Walk tree (done ++ [name]) rest seen resolved ->
      Walk tree done (name :: rest) ((done ++ [name]) :: seen) resolved
  | follow {done name rest seen resolved text} :
      (tree (done ++ [name])).text = some text ->
      Walk tree [] (text ++ rest) seen resolved ->
      Walk tree done (name :: rest) ((done ++ [name]) :: seen) resolved

namespace Walk

variable {tree other : FileTree B} {done : Path} {rest : List String} {seen : List Path}
  {resolved : Path}

theorem eq_of_nil (walk : Walk tree done [] seen resolved) : resolved = done := by
  cases walk
  rfl

theorem deterministic {seen' : List Path} {resolved' : Path}
    (walk : Walk tree done rest seen resolved) (again : Walk tree done rest seen' resolved') :
    seen = seen' ∧ resolved = resolved' := by
  induction walk generalizing seen' with
  | stop =>
      cases again
      exact ⟨rfl, rfl⟩
  | step plain goes further inductionHypothesis =>
      cases again with
      | step plain' goes' further' =>
          rcases inductionHypothesis further' with ⟨same, equal⟩
          exact ⟨by rw [same], equal⟩
      | follow link further' =>
          rw [plain] at link
          cases link
  | follow link further inductionHypothesis =>
      cases again with
      | step plain' goes' further' =>
          rw [link] at plain'
          cases plain'
      | follow link' further' =>
          rw [link] at link'
          cases link'
          rcases inductionHypothesis further' with ⟨same, equal⟩
          exact ⟨by rw [same], equal⟩

/-- A walk is the same in a tree that agrees on what it looks at. -/
theorem congr (walk : Walk tree done rest seen resolved)
    (agree : forall path, path ∈ seen -> other path = tree path) :
    Walk other done rest seen resolved := by
  induction walk with
  | stop => exact .stop
  | step plain goes further inductionHypothesis =>
      have here := agree _ List.mem_cons_self
      apply Walk.step
      · rw [here]
        exact plain
      · rw [here]
        exact goes
      · exact inductionHypothesis fun path member => agree path (List.mem_cons_of_mem _ member)
  | follow link further inductionHypothesis =>
      have here := agree _ List.mem_cons_self
      apply Walk.follow
      · rw [here]
        exact link
      · exact inductionHypothesis fun path member => agree path (List.mem_cons_of_mem _ member)

/-- What a walk looks at exists, but for its end. -/
theorem present (walk : Walk tree done rest seen resolved) :
    forall path, path ∈ seen -> path = resolved ∨ tree path ≠ .missing := by
  induction walk with
  | stop =>
      intro path impossible
      cases impossible
  | step plain goes further inductionHypothesis =>
      intro path member
      rcases List.mem_cons.mp member with here | later
      · subst here
        rcases goes with last | directory
        · subst last
          cases further
          exact Or.inl rfl
        · apply Or.inr
          intro missing
          rw [missing] at directory
          cases directory
      · exact inductionHypothesis path later
  | follow link further inductionHypothesis =>
      intro path member
      rcases List.mem_cons.mp member with here | later
      · subst here
        apply Or.inr
        intro missing
        rw [missing] at link
        cases link
      · exact inductionHypothesis path later

/-- From any path that a walk looks at its rest is a walk. -/
theorem tail (walk : Walk tree done rest seen resolved) :
    forall path, path ∈ seen -> Exists fun front => Exists fun name => Exists fun further =>
      Exists fun later => path = front ++ [name] ∧
        Walk tree front (name :: further) (path :: later) resolved ∧ later ⊆ seen := by
  induction walk with
  | stop =>
      intro path impossible
      cases impossible
  | step plain goes further inductionHypothesis =>
      intro path member
      rcases List.mem_cons.mp member with here | later
      · subst here
        exact ⟨_, _, _, _, rfl, .step plain goes further, List.subset_cons_self _ _⟩
      · rcases inductionHypothesis path later with ⟨front, name, rest, seen, same, walk, inside⟩
        exact ⟨front, name, rest, seen, same, walk, List.subset_cons_of_subset _ inside⟩
  | follow link further inductionHypothesis =>
      intro path member
      rcases List.mem_cons.mp member with here | later
      · subst here
        exact ⟨_, _, _, _, rfl, .follow link further, List.subset_cons_self _ _⟩
      · rcases inductionHypothesis path later with ⟨front, name, rest, seen, same, walk, inside⟩
        exact ⟨front, name, rest, seen, same, walk, List.subset_cons_of_subset _ inside⟩

/-- Two trees agree on what a walk looks at, or there is a first path at which they
differ: the walk of the one has a rest from there, and so has every walk of the
other. -/
theorem first_difference (other : FileTree B) (walk : Walk tree done rest seen resolved) :
    (forall path, path ∈ seen -> other path = tree path) ∨
      Exists fun front => Exists fun name => Exists fun further => Exists fun later =>
        front ++ [name] ∈ seen ∧ other (front ++ [name]) ≠ tree (front ++ [name]) ∧
          Walk tree front (name :: further) later resolved ∧
          forall seen' resolved', Walk other done rest seen' resolved' ->
            Exists fun later' => Walk other front (name :: further) later' resolved' := by
  induction walk with
  | stop =>
      apply Or.inl
      intro path impossible
      cases impossible
  | @step done name rest seen resolved plain goes further inductionHypothesis =>
      by_cases same : other (done ++ [name]) = tree (done ++ [name])
      · rcases inductionHypothesis with agree | ⟨front, name', rest', later, inside, differs, walk, all⟩
        · apply Or.inl
          intro path member
          rcases List.mem_cons.mp member with here | later
          · rw [here]
            exact same
          · exact agree path later
        · refine Or.inr ⟨front, name', rest', later, List.mem_cons_of_mem _ inside, differs, walk, ?_⟩
          intro seen' resolved' again
          cases again with
          | step plain' goes' further' => exact all _ _ further'
          | follow link further' =>
              rw [same, plain] at link
              cases link
      · exact Or.inr ⟨done, name, rest, _, List.mem_cons_self, same, .step plain goes further,
          fun seen' resolved' again => ⟨seen', again⟩⟩
  | @follow done name rest seen resolved text link further inductionHypothesis =>
      by_cases same : other (done ++ [name]) = tree (done ++ [name])
      · rcases inductionHypothesis with agree | ⟨front, name', rest', later, inside, differs, walk, all⟩
        · apply Or.inl
          intro path member
          rcases List.mem_cons.mp member with here | later
          · rw [here]
            exact same
          · exact agree path later
        · refine Or.inr ⟨front, name', rest', later, List.mem_cons_of_mem _ inside, differs, walk, ?_⟩
          intro seen' resolved' again
          cases again with
          | step plain goes' further' =>
              rw [same, link] at plain
              cases plain
          | follow link' further' =>
              rw [same, link] at link'
              cases link'
              exact all _ _ further'
      · exact Or.inr ⟨done, name, rest, _, List.mem_cons_self, same, .follow link further,
          fun seen' resolved' again => ⟨seen', again⟩⟩

/-- Behind what is not a directory there is nothing. -/
theorem rest_eq_nil {further : List String} {seen' : List Path} {resolved' : Path}
    (walk : Walk tree done rest seen resolved) (some_name : rest ≠ []) (below : resolved ≠ [])
    (notDirectory : (tree resolved).isDirectory = false)
    (longer : Walk tree done (rest ++ further) seen' resolved') : further = [] := by
  induction walk generalizing seen' with
  | stop => exact absurd rfl some_name
  | @step done name rest seen resolved plain goes walk inductionHypothesis =>
      rw [List.cons_append] at longer
      cases longer with
      | step plain' goes' longer =>
          cases rest with
          | nil =>
              cases walk
              rcases goes' with nothing | directory
              · exact nothing
              · rw [notDirectory] at directory
                cases directory
          | cons next rest =>
              exact inductionHypothesis (List.cons_ne_nil next rest) below notDirectory longer
      | follow link' longer =>
          rw [plain] at link'
          cases link'
  | @follow done name rest seen resolved text link walk inductionHypothesis =>
      rw [List.cons_append] at longer
      cases longer with
      | step plain' goes' longer =>
          rw [link] at plain'
          cases plain'
      | follow link' longer =>
          rw [link] at link'
          cases link'
          rw [← List.append_assoc] at longer
          apply inductionHypothesis _ below notDirectory longer
          intro empty
          rw [empty] at walk
          cases walk
          exact below rfl

end Walk

/-! ## Walks and resolutions -/

section Resolution

variable {tree : FileTree B}

theorem walk_of_descend {again : Path -> Option Path} {done : Path} {rest : List String}
    {resolved : Path}
    (round : forall path resolved, again path = some resolved ->
      Exists fun seen => Walk tree [] path seen resolved)
    (same : tree.descend Node.isDirectory again done rest = some resolved) :
    Exists fun seen => Walk tree done rest seen resolved := by
  induction rest generalizing done with
  | nil =>
      cases same
      exact ⟨[], .stop⟩
  | cons name rest inductionHypothesis =>
      rw [FileTree.descend] at same
      split at same
      · next text link =>
          rcases round _ _ same with ⟨seen, walk⟩
          exact ⟨_, .follow link walk⟩
      · next plain =>
          split at same
          · next goes =>
              rw [Bool.or_eq_true, List.isEmpty_iff] at goes
              rcases inductionHypothesis same with ⟨seen, walk⟩
              exact ⟨_, .step plain goes walk⟩
          · cases same

theorem walk_of_resolve {links : Nat} {path resolved : Path}
    (same : tree.resolve Node.isDirectory links path = some resolved) :
    Exists fun seen => Walk tree [] path seen resolved := by
  induction links generalizing path resolved with
  | zero =>
      refine walk_of_descend ?_ same
      intro path resolved impossible
      cases impossible
  | succ links inductionHypothesis =>
      exact walk_of_descend (fun _ _ => inductionHypothesis) same

/-- A walk is a resolution that may follow as many links as it needs. -/
theorem Walk.descend {done : Path} {rest : List String} {seen : List Path} {resolved : Path}
    (walk : Walk tree done rest seen resolved) :
    Exists fun links => forall more, links ≤ more ->
      tree.descend Node.isDirectory (tree.resolve Node.isDirectory more) done rest =
        some resolved := by
  induction walk with
  | stop => exact ⟨0, fun _ _ => rfl⟩
  | step plain goes walk inductionHypothesis =>
      rcases inductionHypothesis with ⟨links, enough⟩
      refine ⟨links, ?_⟩
      intro more atLeast
      rw [FileTree.descend, plain]
      dsimp only
      rw [if_pos, enough more atLeast]
      rwa [Bool.or_eq_true, List.isEmpty_iff]
  | follow link walk inductionHypothesis =>
      rcases inductionHypothesis with ⟨links, enough⟩
      refine ⟨links + 1, ?_⟩
      intro more atLeast
      cases more with
      | zero => cases atLeast
      | succ more =>
          rw [FileTree.descend, link]
          exact enough more (Nat.le_of_succ_le_succ atLeast)

theorem exists_resolve_iff {path resolved : Path} :
    (Exists fun links => tree.resolve Node.isDirectory links path = some resolved) <->
      Exists fun seen => Walk tree [] path seen resolved := by
  constructor
  · rintro ⟨links, same⟩
    exact walk_of_resolve same
  · rintro ⟨seen, walk⟩
    rcases walk.descend with ⟨links, enough⟩
    exact ⟨links + 1, enough links le_rfl⟩

end Resolution

/-! ## Directories -/

section Directories

variable {tree : FileTree B}

/-- A path that is a directory, as is all in front of it. -/
def Standing (tree : FileTree B) (path : Path) : Prop :=
  forall front, front <+: path -> front ≠ [] -> tree front = .directory

theorem Walk.through {done front rest : List String} {seen : List Path} {resolved : Path}
    (standing : Standing tree (done ++ front))
    (walk : Walk tree (done ++ front) rest seen resolved) :
    Exists fun seen' => Walk tree done (front ++ rest) seen' resolved ∧
      forall path, path ∈ seen' -> tree path = .directory ∨ path ∈ seen := by
  induction front generalizing done with
  | nil =>
      rw [List.append_nil] at walk
      exact ⟨seen, walk, fun _ => Or.inr⟩
  | cons name front inductionHypothesis =>
      have split_here : done ++ name :: front = done ++ [name] ++ front := by
        rw [List.append_assoc, List.singleton_append]
      have here : tree (done ++ [name]) = .directory := by
        apply standing
        · rw [split_here]
          exact List.prefix_append _ _
        · exact List.append_ne_nil_of_right_ne_nil _ (List.cons_ne_nil name [])
      rw [split_here] at standing walk
      rcases inductionHypothesis standing walk with ⟨seen', further, looked⟩
      refine ⟨_, .step ?_ ?_ further, ?_⟩
      · rw [here]
        rfl
      · rw [here]
        exact Or.inr rfl
      · intro path member
        rcases List.mem_cons.mp member with first | later
        · rw [first]
          exact Or.inl here
        · exact looked path later

theorem Walk.behind {done front rest : List String} {seen : List Path} {resolved : Path}
    (standing : Standing tree (done ++ front))
    (walk : Walk tree done (front ++ rest) seen resolved) :
    Exists fun seen' => Walk tree (done ++ front) rest seen' resolved ∧ seen' ⊆ seen := by
  induction front generalizing done seen with
  | nil =>
      rw [List.append_nil]
      exact ⟨seen, walk, List.Subset.refl _⟩
  | cons name front inductionHypothesis =>
      have split_here : done ++ name :: front = done ++ [name] ++ front := by
        rw [List.append_assoc, List.singleton_append]
      have here : tree (done ++ [name]) = .directory := by
        apply standing
        · rw [split_here]
          exact List.prefix_append _ _
        · exact List.append_ne_nil_of_right_ne_nil _ (List.cons_ne_nil name [])
      rw [split_here] at standing ⊢
      rw [List.cons_append] at walk
      cases walk with
      | step plain goes walk =>
          rcases inductionHypothesis standing walk with ⟨seen', further, inside⟩
          exact ⟨seen', further, List.subset_cons_of_subset _ inside⟩
      | follow link walk =>
          rw [here] at link
          cases link

/-- The way to a file that no link leads to. -/
theorem walk_file {directory : Path} {name : String} {bytes : B}
    (standing : Standing tree directory) (file : tree (directory ++ [name]) = .file bytes) :
    Exists fun seen => Walk tree [] (directory ++ [name]) seen (directory ++ [name]) ∧
      forall path, path ∈ seen -> tree path = .directory ∨ path = directory ++ [name] := by
  have last : Walk tree ([] ++ directory) [name] [directory ++ [name]] (directory ++ [name]) := by
    refine .step ?_ (Or.inl rfl) .stop
    rw [List.nil_append, file]
    rfl
  rcases last.through standing with ⟨seen, walk, looked⟩
  refine ⟨seen, walk, ?_⟩
  intro path member
  rcases looked path member with isDirectory | itself
  · exact Or.inl isDirectory
  · exact Or.inr (List.mem_singleton.mp itself)

/-- The way of a link is the way of its text. -/
theorem walk_link {directory : Path} {name : String} {text : Path} {seen : List Path}
    {resolved : Path} (standing : Standing tree directory)
    (link : tree (directory ++ [name]) = .link text) (walk : Walk tree [] text seen resolved) :
    Exists fun seen' => Walk tree [] (directory ++ [name]) seen' resolved ∧
      forall path, path ∈ seen' -> tree path = .directory ∨ path = directory ++ [name] ∨
        path ∈ seen := by
  have last : Walk tree ([] ++ directory) [name] ((directory ++ [name]) :: seen) resolved := by
    refine @Walk.follow _ _ _ _ _ _ _ text ?_ ?_
    · rw [List.nil_append, link]
      rfl
    · rwa [List.append_nil]
  rcases last.through standing with ⟨seen', further, looked⟩
  refine ⟨seen', further, ?_⟩
  intro path member
  rcases looked path member with isDirectory | itself
  · exact Or.inl isDirectory
  · exact Or.inr (List.mem_cons.mp itself)

/-- And the way of its text is its way. -/
theorem walk_text {directory : Path} {name : String} {text : Path} {seen : List Path}
    {resolved : Path} (standing : Standing tree directory)
    (link : tree (directory ++ [name]) = .link text)
    (walk : Walk tree [] (directory ++ [name]) seen resolved) :
    Exists fun seen' => Walk tree [] text seen' resolved ∧ seen' ⊆ seen := by
  rcases @Walk.behind _ _ [] _ _ _ _ standing walk with ⟨seen', further, inside⟩
  cases further with
  | step plain goes further =>
      rw [List.nil_append, link] at plain
      cases plain
  | follow link' further =>
      rw [List.nil_append, link] at link'
      cases link'
      rw [List.append_nil] at further
      exact ⟨_, further, List.Subset.trans (List.subset_cons_self _ _) inside⟩

end Directories

end Files
end MutinyNet
