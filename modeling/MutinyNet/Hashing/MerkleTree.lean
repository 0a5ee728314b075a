import Mathlib

namespace MutinyNet
namespace Hashing

/-!
# Pairwise hash trees

A level of the tree is built from the one below by combining neighbours; the
last element of an odd level is combined with itself.  The root is what is left
when one element remains.  The combining function is arbitrary: nothing is
assumed about it, and in particular it may have collisions.

What a hash binds is stated as an extraction: two inputs with the same value
are equal, or two different strings among those hashed have the same value.
For a tree these are the pairs combined while building it, and the two lists
of leaves need the same length.  The length condition cannot be
dropped: a list of odd length and the same list with its last element repeated
have the same tree.
-/

/-! ## Collisions -/

/-- Two different elements, one from each side, with the same hash. -/
def Collision {A B : Type} (hash : A -> B) (left right : List A) : Prop :=
  Exists fun first => Exists fun second => first ∈ left ∧ second ∈ right ∧
    first ≠ second ∧ hash first = hash second

namespace Collision

variable {A B : Type} {hash : A -> B} {left right left' right' : List A}

theorem mono (collision : Collision hash left right) (inLeft : left ⊆ left')
    (inRight : right ⊆ right') : Collision hash left' right' := by
  rcases collision with ⟨first, second, memberLeft, memberRight, different, same⟩
  exact ⟨first, second, inLeft memberLeft, inRight memberRight, different, same⟩

end Collision

/-- One hash of each side: the hashed elements are equal or collide. -/
theorem eq_or_collision {A B : Type} {hash : A -> B} {first second : A} {left right : List A}
    (same : hash first = hash second) (inLeft : first ∈ left) (inRight : second ∈ right) :
    first = second ∨ Collision hash left right := by
  by_cases equal : first = second
  · exact Or.inl equal
  · exact Or.inr ⟨first, second, inLeft, inRight, equal, same⟩

/-- Position by position. -/
theorem map_binding {A B : Type} {hash : A -> B} {left right : List A}
    (same : left.map hash = right.map hash) : left = right ∨ Collision hash left right := by
  induction left generalizing right with
  | nil =>
      cases right with
      | nil => exact Or.inl rfl
      | cons _ _ => cases same
  | cons first left inductionHypothesis =>
      cases right with
      | nil => cases same
      | cons second right =>
          rcases List.cons.inj same with ⟨sameHead, sameTail⟩
          have head := eq_or_collision sameHead (List.mem_cons_self : first ∈ first :: left)
            (List.mem_cons_self : second ∈ second :: right)
          rcases head with equal | collision
          · rcases inductionHypothesis sameTail with equalTail | collision
            · exact Or.inl (by rw [equal, equalTail])
            · exact Or.inr (collision.mono (List.subset_cons_self _ _)
                (List.subset_cons_self _ _))
          · exact Or.inr collision

namespace MerkleTree

variable {A : Type} (node : A -> A -> A)

/-- Combine neighbours, and the last element of an odd level with itself. -/
def level : List A -> List A
  | [] => []
  | [last] => [node last last]
  | left :: right :: rest => node left right :: level rest

/-- The pairs `level` combines, in order. -/
def levelPairs : List A -> List (A × A)
  | [] => []
  | [last] => [(last, last)]
  | left :: right :: rest => (left, right) :: levelPairs rest

/-- The root after at most `fuel` levels. -/
def rootFrom : Nat -> List A -> Option A
  | _, [] => none
  | _, [root] => some root
  | 0, _ :: _ :: _ => none
  | fuel + 1, left :: right :: rest => rootFrom fuel (level node (left :: right :: rest))

/-- The pairs combined on the way to the root. -/
def pairsFrom : Nat -> List A -> List (A × A)
  | _, [] => []
  | _, [_] => []
  | 0, _ :: _ :: _ => []
  | fuel + 1, left :: right :: rest =>
      levelPairs (left :: right :: rest) ++ pairsFrom fuel (level node (left :: right :: rest))

/-- A list has at most as many levels as elements. -/
def root (leaves : List A) : Option A :=
  rootFrom node leaves.length leaves

def pairs (leaves : List A) : List (A × A) :=
  pairsFrom node leaves.length leaves

theorem length_level (leaves : List A) :
    (level node leaves).length = (leaves.length + 1) / 2 := by
  induction leaves using level.induct with
  | case1 => simp only [level, List.length_nil, Nat.reduceAdd, Nat.reduceDiv]
  | case2 last => simp only [level, List.length_cons, List.length_nil, Nat.reduceAdd, Nat.reduceDiv]
  | case3 left right rest inductionHypothesis =>
      simp only [level, List.length_cons, inductionHypothesis]
      omega

theorem map_levelPairs (leaves : List A) :
    (levelPairs leaves).map (fun pair => node pair.1 pair.2) = level node leaves := by
  induction leaves using level.induct with
  | case1 => rfl
  | case2 last => rfl
  | case3 left right rest inductionHypothesis =>
      simp only [levelPairs, level, List.map_cons, inductionHypothesis]

/-! ## Values of one kind -/

section Kind

variable {node} {Kind : A -> Prop} (kept : forall left right, Kind (node left right))

include kept in
theorem level_kind (leaves : List A) : forall value, value ∈ level node leaves -> Kind value := by
  intro value member
  rw [← map_levelPairs, List.mem_map] at member
  rcases member with ⟨pair, -, same⟩
  exact same ▸ kept pair.1 pair.2

theorem levelPairs_mem {leaves : List A} {pair : A × A} (member : pair ∈ levelPairs leaves) :
    pair.1 ∈ leaves ∧ pair.2 ∈ leaves := by
  induction leaves using level.induct with
  | case1 => cases member
  | case2 last =>
      rw [levelPairs, List.mem_singleton] at member
      subst member
      exact ⟨List.mem_cons_self, List.mem_cons_self⟩
  | case3 left right rest inductionHypothesis =>
      rcases List.mem_cons.mp member with same | later
      · subst same
        exact ⟨List.mem_cons_self, List.mem_cons_of_mem _ List.mem_cons_self⟩
      · have inside := inductionHypothesis later
        exact ⟨List.mem_cons_of_mem _ (List.mem_cons_of_mem _ inside.1),
          List.mem_cons_of_mem _ (List.mem_cons_of_mem _ inside.2)⟩

include kept in
theorem pairsFrom_kind {fuel : Nat} {leaves : List A}
    (base : forall value, value ∈ leaves -> Kind value) :
    forall pair, pair ∈ pairsFrom node fuel leaves -> Kind pair.1 ∧ Kind pair.2 := by
  induction fuel generalizing leaves with
  | zero =>
      intro pair member
      match leaves, member with
      | [], member => cases member
      | [_], member => cases member
      | _ :: _ :: _, member => cases member
  | succ fuel inductionHypothesis =>
      intro pair member
      match leaves, base, member with
      | [], _, member => cases member
      | [_], _, member => cases member
      | left :: right :: rest, base, member =>
          rcases List.mem_append.mp member with here | above
          · have inside := levelPairs_mem here
            exact ⟨base _ inside.1, base _ inside.2⟩
          · exact inductionHypothesis (level_kind kept _) pair above

include kept in
theorem rootFrom_kind {fuel : Nat} {leaves : List A} {value : A}
    (base : forall value, value ∈ leaves -> Kind value)
    (found : rootFrom node fuel leaves = some value) : Kind value := by
  induction fuel generalizing leaves with
  | zero =>
      match leaves, base, found with
      | [only], base, found =>
          have same : only = value := Option.some.inj found
          exact same ▸ base only List.mem_cons_self
  | succ fuel inductionHypothesis =>
      match leaves, base, found with
      | [only], base, found =>
          have same : only = value := Option.some.inj found
          exact same ▸ base only List.mem_cons_self
      | left :: right :: rest, _, found =>
          exact inductionHypothesis (level_kind kept _) found

include kept in
/-- If the leaves and all combined values are of one kind, so is the root. -/
theorem root_kind {leaves : List A} {value : A}
    (base : forall value, value ∈ leaves -> Kind value) (found : root node leaves = some value) :
    Kind value :=
  rootFrom_kind kept base found

include kept in
/-- If the leaves and all combined values are of one kind, so are both halves
of every pair that is combined. -/
theorem pairs_kind {leaves : List A} (base : forall value, value ∈ leaves -> Kind value) :
    forall pair, pair ∈ pairs node leaves -> Kind pair.1 ∧ Kind pair.2 :=
  pairsFrom_kind kept base

end Kind

/-! ## Binding -/

/-- The combining function on pairs. -/
def combined (pair : A × A) : A :=
  node pair.1 pair.2

variable {node}

/-- One level: equal results come from equal neighbours, or collide. -/
theorem level_binding {leaves leaves' : List A} (lengths : leaves.length = leaves'.length)
    (same : level node leaves = level node leaves') :
    leaves = leaves' ∨ Collision (combined node) (levelPairs leaves) (levelPairs leaves') := by
  induction leaves using level.induct generalizing leaves' with
  | case1 =>
      cases leaves' with
      | nil => exact Or.inl rfl
      | cons _ _ => cases lengths
  | case2 last =>
      match leaves', lengths, same with
      | [last'], _, same =>
          by_cases equal : last = last'
          · exact Or.inl (congrArg (fun value => [value]) equal)
          · refine Or.inr ⟨(last, last), (last', last'), List.mem_cons_self, List.mem_cons_self,
              ?_, (List.cons.inj same).1⟩
            intro pair
            exact equal (congrArg Prod.fst pair)
  | case3 left right rest inductionHypothesis =>
      match leaves', lengths, same with
      | left' :: right' :: rest', lengths, same =>
          have parts := List.cons.inj same
          have shorter : rest.length = rest'.length := by
            simpa only [List.length_cons, Nat.add_right_cancel_iff] using lengths
          by_cases equal : (left, right) = (left', right')
          · rcases inductionHypothesis shorter parts.2 with sameRest | collision
            · cases equal
              exact Or.inl (by rw [sameRest])
            · exact Or.inr (collision.mono (List.subset_cons_self _ _)
                (List.subset_cons_self _ _))
          · exact Or.inr ⟨(left, right), (left', right'), List.mem_cons_self,
              List.mem_cons_self, equal, parts.1⟩

private theorem rootFrom_binding {fuel : Nat} {leaves leaves' : List A} {value : A}
    (lengths : leaves.length = leaves'.length)
    (first : rootFrom node fuel leaves = some value)
    (second : rootFrom node fuel leaves' = some value) :
    leaves = leaves' ∨
      Collision (combined node) (pairsFrom node fuel leaves) (pairsFrom node fuel leaves') := by
  induction fuel generalizing leaves leaves' with
  | zero =>
      match leaves, leaves', lengths, first, second with
      | [only], [only'], _, first, second =>
          cases first
          cases second
          exact Or.inl rfl
  | succ fuel inductionHypothesis =>
      match leaves, leaves', lengths, first, second with
      | [only], [only'], _, first, second =>
          cases first
          cases second
          exact Or.inl rfl
      | left :: right :: rest, left' :: right' :: rest', lengths, first, second =>
          have shorter : (level node (left :: right :: rest)).length =
              (level node (left' :: right' :: rest')).length := by
            rw [length_level, length_level, lengths]
          rcases inductionHypothesis shorter first second with sameLevel | collision
          · rcases level_binding lengths sameLevel with equal | collision
            · exact Or.inl equal
            · exact Or.inr (collision.mono (List.subset_append_left _ _)
                (List.subset_append_left _ _))
          · exact Or.inr (collision.mono (List.subset_append_right _ _)
              (List.subset_append_right _ _))

/-- The root of a list of known length binds the whole list, up to a collision
among the pairs combined in the two trees. -/
theorem root_binding {leaves leaves' : List A} {value : A}
    (lengths : leaves.length = leaves'.length) (first : root node leaves = some value)
    (second : root node leaves' = some value) :
    leaves = leaves' ∨ Collision (combined node) (pairs node leaves) (pairs node leaves') := by
  unfold root at first second
  unfold pairs
  rw [← lengths] at second ⊢
  exact rootFrom_binding lengths first second

/-! ## Trees of fixed-width strings -/

section Strings

variable {C : Type} {hash : List C -> List C} {width : Nat}
  (wide : forall string, (hash string).length = width)

/-- The tree node that hashes the concatenation of two strings. -/
def joined (hash : List C -> List C) (left right : List C) : List C :=
  hash (left ++ right)

/-- The concatenations hashed on the way to the root. -/
def strings (hash : List C -> List C) (leaves : List (List C)) : List (List C) :=
  (pairs (joined hash) leaves).map fun pair => pair.1 ++ pair.2

include wide in
/-- With leaves as wide as the hashes, a pair can be told from the string that
is hashed, so a collision of pairs is one of strings. -/
theorem strings_binding {leaves leaves' : List (List C)} {value : List C}
    (lengths : leaves.length = leaves'.length)
    (full : forall leaf, leaf ∈ leaves -> leaf.length = width)
    (full' : forall leaf, leaf ∈ leaves' -> leaf.length = width)
    (first : root (joined hash) leaves = some value)
    (second : root (joined hash) leaves' = some value) :
    leaves = leaves' ∨ Collision hash (strings hash leaves) (strings hash leaves') := by
  have kept : forall left right, (joined hash left right).length = width :=
    fun left right => wide (left ++ right)
  rcases root_binding lengths first second with equal | collision
  · exact Or.inl equal
  · rcases collision with ⟨pair, pair', member, member', different, same⟩
    have widths := pairs_kind kept full pair member
    have widths' := pairs_kind kept full' pair' member'
    refine Or.inr ⟨pair.1 ++ pair.2, pair'.1 ++ pair'.2, List.mem_map_of_mem member,
      List.mem_map_of_mem member', ?_, same⟩
    intro equal
    have parts := List.append_inj equal (widths.1.trans widths'.1.symm)
    exact different (Prod.ext parts.1 parts.2)

end Strings

end MerkleTree
end Hashing
end MutinyNet
