import Mathlib

namespace MutinyNet
namespace Files

/-!
# File trees with symbolic links

A path is the list of its names from the root.  A tree says what is at each
path.  A path is resolved name by name: a link on the way is replaced by its
text, and after too many links the resolution is given up, as the system does
it.  What a link's text names is absolute here.

The resolutions of `realpath -m` and of the system differ in what they go
through on the way to the last name, which is a parameter.
-/

abbrev Path := List String

/-- What is at a path. -/
inductive Node (B : Type) where
  | missing
  | directory
  | file (bytes : B)
  | link (text : Path)
  deriving DecidableEq, Repr

abbrev FileTree (B : Type) := Path -> Node B

variable {B : Type}

namespace Node

/-- The text of a link. -/
def text : Node B -> Option Path
  | .link text => some text
  | _ => none

def isDirectory : Node B -> Bool
  | .directory => true
  | _ => false

def isMissing : Node B -> Bool
  | .missing => true
  | _ => false

theorem eq_directory_of_isDirectory {node : Node B} (directory : node.isDirectory = true) :
    node = .directory := by
  cases node with
  | directory => rfl
  | missing => cases directory
  | file bytes => cases directory
  | link text => cases directory

theorem eq_missing_of_isMissing {node : Node B} (missing : node.isMissing = true) :
    node = .missing := by
  cases node with
  | missing => rfl
  | directory => cases missing
  | file bytes => cases missing
  | link text => cases missing

end Node

/-- Strictly inside a directory. -/
def Below (directory path : Path) : Prop :=
  directory <+: path ∧ path ≠ directory

instance (directory path : Path) : Decidable (Below directory path) :=
  inferInstanceAs (Decidable (directory <+: path ∧ path ≠ directory))

namespace FileTree

variable (tree : FileTree B)

/-- From a path that is resolved down to the first link, which is resolved again. -/
def descend (through : Node B -> Bool) (again : Path -> Option Path) :
    Path -> List String -> Option Path
  | done, [] => some done
  | done, name :: rest =>
      match (tree (done ++ [name])).text with
      | some text => again (text ++ rest)
      | none =>
          if rest.isEmpty || through (tree (done ++ [name])) then
            descend through again (done ++ [name]) rest
          else none

/-- The path a path resolves to, unless there are too many links on the way. -/
def resolve (through : Node B -> Bool) : Nat -> Path -> Option Path
  | 0 => tree.descend through (fun _ => none) []
  | links + 1 => tree.descend through (resolve through links) []

/-- `realpath -m`, which does not care what exists. -/
def realpath (links : Nat) (path : Path) : Option Path :=
  tree.resolve (fun _ => true) links path

/-- What the system finds at a path. -/
def stat (links : Nat) (path : Path) : Node B :=
  match tree.resolve Node.isDirectory links path with
  | some resolved => tree resolved
  | none => .missing

/-- No link is on a path, and none at its end. -/
def Plain (path : Path) : Prop :=
  forall front name, front ++ [name] <+: path -> (tree (front ++ [name])).text = none

theorem plain_nil : tree.Plain [] := by
  intro front name inside
  have short := inside.length_le
  rw [List.length_append] at short
  cases short

variable {tree}

theorem plain_snoc {path : Path} {name : String} (plain : tree.Plain path)
    (last : (tree (path ++ [name])).text = none) : tree.Plain (path ++ [name]) := by
  intro front other inside
  rcases List.prefix_concat_iff.mp inside with same | earlier
  · rw [same]
    exact last
  · exact plain front other earlier

theorem Plain.last {path : Path} {name : String} (plain : tree.Plain (path ++ [name])) :
    (tree (path ++ [name])).text = none :=
  plain path name (List.prefix_refl _)

theorem Plain.front {path front : Path} (plain : tree.Plain path) (inside : front <+: path) :
    tree.Plain front :=
  fun other name further => plain other name (further.trans inside)

section Resolution

variable {through : Node B -> Bool} {again : Path -> Option Path}

theorem plain_of_descend {done : Path} {rest : List String} {resolved : Path}
    (round : forall path resolved, again path = some resolved -> tree.Plain resolved)
    (plain : tree.Plain done) (same : tree.descend through again done rest = some resolved) :
    tree.Plain resolved := by
  induction rest generalizing done with
  | nil =>
      cases same
      exact plain
  | cons name rest inductionHypothesis =>
      rw [descend] at same
      split at same
      · exact round _ _ same
      · next last =>
          split at same
          · exact inductionHypothesis (plain_snoc plain last) same
          · cases same

/-- What a path resolves to has no link on it. -/
theorem plain_of_resolve {links : Nat} {path resolved : Path}
    (same : tree.resolve through links path = some resolved) : tree.Plain resolved := by
  induction links generalizing path resolved with
  | zero =>
      refine plain_of_descend ?_ tree.plain_nil same
      intro path resolved impossible
      cases impossible
  | succ links inductionHypothesis =>
      exact plain_of_descend (fun _ _ => inductionHypothesis) tree.plain_nil same

theorem descend_eq_of_plain {done : Path} {rest : List String} {resolved : Path}
    (plain : tree.Plain (done ++ rest))
    (same : tree.descend through again done rest = some resolved) : resolved = done ++ rest := by
  induction rest generalizing done with
  | nil =>
      cases same
      rw [List.append_nil]
  | cons name rest inductionHypothesis =>
      have split_here : done ++ name :: rest = done ++ [name] ++ rest := by
        rw [List.append_assoc, List.singleton_append]
      have last := plain done name (by rw [split_here]; exact List.prefix_append _ _)
      rw [descend, last] at same
      dsimp only at same
      split at same
      · rw [split_here] at plain ⊢
        exact inductionHypothesis plain same
      · cases same

/-- A path without links resolves to itself, if it resolves. -/
theorem resolve_eq_of_plain {links : Nat} {path resolved : Path} (plain : tree.Plain path)
    (same : tree.resolve through links path = some resolved) : resolved = path := by
  cases links with
  | zero => exact descend_eq_of_plain plain same
  | succ links => exact descend_eq_of_plain plain same

theorem descend_of_plain {done : Path} {rest : List String} (plain : tree.Plain (done ++ rest))
    (passable : forall path, path <+: done ++ rest -> path ≠ done ++ rest ->
      through (tree path) = true) :
    tree.descend through again done rest = some (done ++ rest) := by
  induction rest generalizing done with
  | nil => rw [descend, List.append_nil]
  | cons name rest inductionHypothesis =>
      have split_here : done ++ name :: rest = done ++ [name] ++ rest := by
        rw [List.append_assoc, List.singleton_append]
      have inside : done ++ [name] <+: done ++ name :: rest := by
        rw [split_here]
        exact List.prefix_append _ _
      have goes : (rest.isEmpty || through (tree (done ++ [name]))) = true := by
        cases rest with
        | nil => rfl
        | cons other rest =>
            refine passable _ inside ?_
            intro equal
            have lengths := congrArg List.length equal
            simp only [List.length_append, List.length_cons, List.length_nil] at lengths
            omega
      rw [descend, plain done name inside]
      dsimp only
      rw [if_pos goes, split_here]
      rw [split_here] at plain passable
      exact inductionHypothesis plain passable

theorem passable_of_descend {done : Path} {front rest : List String} {resolved : Path}
    (plain : tree.Plain (done ++ front))
    (same : tree.descend through again done (front ++ rest) = some resolved) :
    forall path, path <+: done ++ front -> (path = done ++ front -> rest ≠ []) ->
      done <+: path -> path ≠ done -> through (tree path) = true := by
  induction front generalizing done with
  | nil =>
      intro path inside proper outside different
      rw [List.append_nil] at inside
      exact absurd (inside.eq_of_length_le outside.length_le) different
  | cons name front inductionHypothesis =>
      have split_here : done ++ name :: front = done ++ [name] ++ front := by
        rw [List.append_assoc, List.singleton_append]
      intro path inside proper outside different
      have last := plain done name (by rw [split_here]; exact List.prefix_append _ _)
      rw [List.cons_append, descend, last] at same
      dsimp only at same
      rw [split_here] at plain inside proper
      split at same
      · next goes =>
          by_cases here : path = done ++ [name]
          · subst here
            rcases Bool.or_eq_true _ _ |>.mp goes with none | passed
            · rw [List.isEmpty_iff, List.append_eq_nil_iff] at none
              rw [none.1, List.append_nil] at proper
              exact absurd none.2 (proper rfl)
            · exact passed
          · refine inductionHypothesis plain same path inside proper ?_ here
            rcases List.prefix_or_prefix_of_prefix inside (List.prefix_append (done ++ [name]) front)
              with shorter | longer
            · rcases List.prefix_concat_iff.mp shorter with equal | earlier
              · exact absurd equal here
              · exact absurd (earlier.eq_of_length_le outside.length_le) different
            · exact longer
      · cases same

/-- If a path resolves then everything in front of its first link could be gone
through. -/
theorem passable_of_resolve {links : Nat} {front rest : List String} {resolved : Path}
    (plain : tree.Plain front)
    (same : tree.resolve through links (front ++ rest) = some resolved) :
    forall path, path <+: front -> (path = front -> rest ≠ []) -> path ≠ [] ->
      through (tree path) = true := by
  intro path inside proper nonempty
  have start : tree.Plain ([] ++ front) := plain
  cases links with
  | zero => exact passable_of_descend start same path inside proper List.nil_prefix nonempty
  | succ links => exact passable_of_descend start same path inside proper List.nil_prefix nonempty

theorem resolve_of_plain {links : Nat} {path : Path} (plain : tree.Plain path)
    (passable : forall front, front <+: path -> front ≠ path -> through (tree front) = true) :
    tree.resolve through links path = some path := by
  cases links with
  | zero => exact descend_of_plain plain passable
  | succ links => exact descend_of_plain plain passable

theorem descend_mono {weaker : Node B -> Bool} {again' : Path -> Option Path}
    (implies : forall node, through node = true -> weaker node = true)
    (round : forall path resolved, again path = some resolved -> again' path = some resolved)
    {done : Path} {rest : List String} {resolved : Path}
    (same : tree.descend through again done rest = some resolved) :
    tree.descend weaker again' done rest = some resolved := by
  induction rest generalizing done with
  | nil => exact same
  | cons name rest inductionHypothesis =>
      rw [descend] at same ⊢
      split at same
      · exact round _ _ same
      · split at same
        · next goes =>
            have still : (rest.isEmpty || weaker (tree (done ++ [name]))) = true := by
              rw [Bool.or_eq_true] at goes ⊢
              exact goes.imp id (implies _)
            rw [if_pos still]
            exact inductionHypothesis same
        · cases same

/-- What resolves where less may be gone through resolves where more may. -/
theorem resolve_mono {weaker : Node B -> Bool}
    (implies : forall node, through node = true -> weaker node = true) {links : Nat}
    {path resolved : Path} (same : tree.resolve through links path = some resolved) :
    tree.resolve weaker links path = some resolved := by
  induction links generalizing path resolved with
  | zero => exact descend_mono implies (fun _ _ impossible => impossible) same
  | succ links inductionHypothesis =>
      exact descend_mono implies (fun _ _ => inductionHypothesis) same

theorem realpath_of_plain {links : Nat} {path : Path} (plain : tree.Plain path) :
    tree.realpath links path = some path :=
  resolve_of_plain plain fun _ _ _ => rfl

theorem realpath_of_stat {links : Nat} {path : Path} (found : tree.stat links path ≠ .missing) :
    Exists fun resolved => tree.realpath links path = some resolved := by
  rw [stat] at found
  split at found
  · next resolved same => exact ⟨resolved, resolve_mono (fun _ _ => rfl) same⟩
  · exact absurd rfl found

/-- A link leads somewhere else. -/
theorem realpath_ne_of_link {links : Nat} {path resolved : Path} {name : String}
    (link : (tree (path ++ [name])).text ≠ none)
    (same : tree.realpath links (path ++ [name]) = some resolved) : resolved ≠ path ++ [name] := by
  intro itself
  subst itself
  exact link (plain_of_resolve same).last

end Resolution

/-! ## Changes -/

/-- `mkdir -p`: the directories that are missing on the way to a path, and it. -/
def makeDirectories (tree : FileTree B) (path : Path) : FileTree B := fun other =>
  if (tree other).isMissing && decide (other <+: path ∧ other ≠ []) then .directory
  else tree other

/-- What is strictly inside a directory is gone, as far as it was deleted. -/
def clear (tree : FileTree B) (path : Path) (gone : Path -> Bool) : FileTree B := fun other =>
  if Below path other ∧ gone other = true then .missing else tree other

theorem makeDirectories_of_present {path other : Path} (present : tree other ≠ .missing) :
    tree.makeDirectories path other = tree other := by
  rw [makeDirectories]
  split
  · next created =>
      rw [Bool.and_eq_true] at created
      exact absurd (Node.eq_missing_of_isMissing created.1) present
  · rfl

theorem makeDirectories_of_not_prefix {path other : Path} (elsewhere : Not (other <+: path)) :
    tree.makeDirectories path other = tree other := by
  rw [makeDirectories, decide_eq_false fun inside => elsewhere inside.1, Bool.and_false]
  rfl

theorem makeDirectories_eq_self {path : Path}
    (present : forall other, other <+: path -> other ≠ [] -> tree other ≠ .missing) :
    tree.makeDirectories path = tree := by
  funext other
  by_cases inside : other <+: path ∧ other ≠ []
  · exact makeDirectories_of_present (present other inside.1 inside.2)
  · rw [makeDirectories, decide_eq_false inside, Bool.and_false]
    rfl

theorem text_makeDirectories {path other : Path} (plain : (tree other).text = none) :
    (tree.makeDirectories path other).text = none := by
  rw [makeDirectories]
  split
  · rfl
  · exact plain

theorem clear_of_not_below {path other : Path} {gone : Path -> Bool}
    (elsewhere : Not (Below path other)) : tree.clear path gone other = tree other := by
  rw [clear, if_neg fun inside => elsewhere inside.1]

theorem text_clear {path other : Path} {gone : Path -> Bool} (plain : (tree other).text = none) :
    (tree.clear path gone other).text = none := by
  rw [clear]
  split
  · rfl
  · exact plain

end FileTree

end Files
end MutinyNet
