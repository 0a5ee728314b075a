import Mathlib

namespace MutinyNet
namespace Text

/-!
# Where a pattern can occur

A pattern that lacks a separator occurs in a text only on one side of it, so the
occurrences in a text of several fields are those in its fields.  A pattern that
is a word between two blanks occurs in a row of words only as one of them.
-/

variable {A : Type} {pattern front back : List A} {separator : A}

theorem isPrefix_of_isPrefix_append_cons (absent : separator ∉ pattern)
    (starts : pattern <+: front ++ separator :: back) : pattern <+: front := by
  induction front generalizing pattern with
  | nil =>
      cases pattern with
      | nil => exact List.nil_prefix
      | cons first rest =>
          have same := (List.cons_prefix_cons.mp starts).1
          exact absurd (same ▸ List.mem_cons_self) absent
  | cons letter front inductionHypothesis =>
      cases pattern with
      | nil => exact List.nil_prefix
      | cons first rest =>
          rcases List.cons_prefix_cons.mp starts with ⟨same, later⟩
          refine List.cons_prefix_cons.mpr ⟨same, ?_⟩
          exact inductionHypothesis (fun member => absent (List.mem_cons_of_mem _ member)) later

/-- A pattern without the separator occurs in front of it or behind it. -/
theorem isInfix_append_cons_iff (absent : separator ∉ pattern) :
    pattern <:+: front ++ separator :: back <-> pattern <:+: front ∨ pattern <:+: back := by
  constructor
  · intro occurs
    induction front with
    | nil =>
        rcases List.infix_cons_iff.mp occurs with starts | later
        · have empty := @isPrefix_of_isPrefix_append_cons _ _ [] _ _ absent starts
          exact Or.inl empty.isInfix
        · exact Or.inr later
    | cons letter front inductionHypothesis =>
        rcases List.infix_cons_iff.mp occurs with starts | later
        · have here := @isPrefix_of_isPrefix_append_cons _ _ (letter :: front) _ _ absent starts
          exact Or.inl here.isInfix
        · rcases inductionHypothesis later with before | behind
          · exact Or.inl (List.infix_cons before)
          · exact Or.inr behind
  · rintro (before | behind)
    · exact before.trans (List.prefix_append _ _).isInfix
    · exact behind.trans ((List.suffix_cons _ _).trans (List.suffix_append _ _)).isInfix

/-! ## Words -/

variable {blank : A} {word first rest : List A}

/-- A word between blanks does not start inside a word. -/
theorem isInfix_append_iff (absent : blank ∉ first) :
    blank :: word <:+: first ++ rest <-> blank :: word <:+: rest := by
  induction first with
  | nil => exact Iff.rfl
  | cons letter first inductionHypothesis =>
      rw [List.cons_append, List.infix_cons_iff,
        inductionHypothesis fun member => absent (List.mem_cons_of_mem _ member)]
      constructor
      · rintro (starts | later)
        · have same := (List.cons_prefix_cons.mp starts).1
          exact absurd (same ▸ List.mem_cons_self) absent
        · exact later
      · exact Or.inr

/-- The first blank of a text ends its first word. -/
theorem append_blank_inj {later : List A} (plain : blank ∉ word) (absent : blank ∉ first) :
    word ++ blank :: later = first ++ blank :: rest <-> word = first ∧ later = rest := by
  constructor
  · intro same
    induction word generalizing first with
    | nil =>
        cases first with
        | nil => exact ⟨rfl, (List.cons.inj same).2⟩
        | cons letter first =>
            have here := (List.cons.inj same).1
            exact absurd (here ▸ List.mem_cons_self) absent
    | cons letter word inductionHypothesis =>
        cases first with
        | nil =>
            have here := (List.cons.inj same).1
            exact absurd (here ▸ List.mem_cons_self) plain
        | cons other first =>
            rcases List.cons.inj same with ⟨here, behind⟩
            have words := inductionHypothesis
              (fun member => plain (List.mem_cons_of_mem _ member))
              (fun member => absent (List.mem_cons_of_mem _ member)) behind
            exact ⟨by rw [here, words.1], words.2⟩
  · rintro ⟨same, later⟩
    rw [same, later]

/-- Words that end at the same blank are the same. -/
theorem isPrefix_word_iff (plain : blank ∉ word) (absent : blank ∉ first) :
    word ++ [blank] <+: first ++ blank :: rest <-> word = first := by
  constructor
  · rintro ⟨behind, same⟩
    rw [List.append_assoc] at same
    exact ((append_blank_inj plain absent).mp same).1
  · intro same
    subst same
    exact ⟨rest, by rw [List.append_assoc]; rfl⟩

/-- In a row of words, a word between blanks is the first one or occurs behind
it. -/
theorem isInfix_words_iff (plain : blank ∉ word) (absent : blank ∉ first) :
    blank :: (word ++ [blank]) <:+: blank :: (first ++ blank :: rest) <->
      word = first ∨ blank :: (word ++ [blank]) <:+: blank :: rest := by
  rw [List.infix_cons_iff, List.cons_prefix_cons, isPrefix_word_iff plain absent,
    isInfix_append_iff absent]
  constructor
  · rintro (⟨-, same⟩ | later)
    · exact Or.inl same
    · exact Or.inr later
  · rintro (same | later)
    · exact Or.inl ⟨rfl, same⟩
    · exact Or.inr later

/-- Where there is only one blank, no word stands between two. -/
theorem not_isInfix_word [DecidableEq A] (front_absent : blank ∉ front) (back_absent : blank ∉ back) :
    ¬ blank :: (word ++ [blank]) <:+: front ++ blank :: back := by
  intro occurs
  have count := occurs.sublist.count_le blank
  have one : (front ++ blank :: back).count blank = 1 := by
    rw [List.count_append, List.count_cons_self, List.count_eq_zero_of_not_mem front_absent,
      List.count_eq_zero_of_not_mem back_absent]
  have two : 2 ≤ (blank :: (word ++ [blank])).count blank := by
    rw [List.count_cons_self, List.count_append, List.count_singleton_self]
    omega
  omega

end Text
end MutinyNet
