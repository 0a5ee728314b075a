import Mathlib.Data.List.Basic

namespace MutinyNet
namespace Shell

/-!
# What `echo` prints

An expansion that is not quoted is split into words at its blanks, and a word that
is a pattern becomes the names of the files it matches.  `echo` takes the words
in front that look like options for options, and prints the others with single
blanks between them.
-/

/-- The lines of a text. -/
def textLines (text : String) : List String :=
  (text.toList.splitOn '\n').map String.ofList

/-- Where an expansion is split. -/
def isSeparator (letter : Char) : Bool :=
  letter = ' ' || letter = '\t' || letter = '\n'

/-- A word that is more than its letters to the shell. -/
def isPattern (word : String) : Bool :=
  word.toList.any fun letter => letter = '*' || letter = '?' || letter = '[' || letter = '\\'

/-- What the output depends on besides the words: the names of the files that a
pattern matches, and the lines that `echo -e` prints for a text, with a line break
behind it or without. -/
structure Expansion where
  files : String -> List String
  escaped : String -> Bool -> List String
  plain : forall word, isPattern word = false -> files word = [word]

/-- No pattern matches a file, and no text has escapes. -/
def Expansion.bare : Expansion where
  files := fun word => [word]
  escaped := fun text _ => textLines text
  plain := fun _ _ => rfl

/-- The words of a text. -/
def words (text : String) : List (List Char) :=
  (text.toList.splitOnP isSeparator).filter (· ≠ [])

/-- A text outside of quotes. -/
def Expansion.unquoted (expansion : Expansion) (text : String) : List String :=
  ((words text).map String.ofList).flatMap expansion.files

/-- Options of `echo`. -/
def isOption (word : String) : Bool :=
  match word.toList with
  | '-' :: flags =>
      flags ≠ [] && flags.all fun letter => letter = 'n' || letter = 'e' || letter = 'E'
  | _ => false

/-- The words with blanks between them. -/
def joined (words : List String) : String :=
  String.ofList ([' '].intercalate (words.map String.toList))

/-- The lines that `echo` prints; the last of `-e` and `-E` counts. -/
def Expansion.echoed (expansion : Expansion) (words : List String) : List String :=
  let flags := (words.takeWhile isOption).flatMap fun word => word.toList.drop 1
  let text := joined (words.dropWhile isOption)
  if (flags.filter (· ≠ 'n')).getLast? = some 'e' then expansion.escaped text ('n' ∉ flags)
  else if 'n' ∈ flags ∧ text = "" then []
  else textLines text

/-- `echo $text`. -/
def Expansion.echo (expansion : Expansion) (text : String) : List String :=
  expansion.echoed (expansion.unquoted text)

/-- It prints the text as it is. -/
def Expansion.Verbatim (expansion : Expansion) (text : String) : Prop :=
  expansion.echo text = [text]

instance (expansion : Expansion) (text : String) : Decidable (expansion.Verbatim text) :=
  inferInstanceAs (Decidable (_ = _))

/-! ## Texts without options and patterns -/

variable {expansion : Expansion} {text : String}

/-- A line is the only one of its text. -/
theorem textLines_of_line (line : '\n' ∉ text.toList) : textLines text = [text] := by
  rw [textLines, List.splitOn_eq_singleton line, List.map_singleton, String.ofList_toList]

/-- Without options in front all words are printed. -/
theorem echoed_of_not_option {words : List String}
    (first : forall word, words.head? = some word -> isOption word = false) :
    expansion.echoed words = textLines (joined words) := by
  have none : words.takeWhile isOption = [] := by
    cases words with
    | nil => rfl
    | cons word rest => rw [List.takeWhile_cons_of_neg (by rw [first word rfl]; decide)]
  have all : words.dropWhile isOption = words := by
    have split := @List.takeWhile_append_dropWhile _ isOption words
    rw [none] at split
    exact split
  rw [Expansion.echoed, none, all]
  rfl

/-- Words with single blanks between them. -/
structure Spaced (text : String) : Prop where
  blanks : forall letter, letter ∈ text.toList -> isSeparator letter = true -> letter = ' '
  single : [] ∉ text.toList.splitOn ' '

/-- Two tests that agree on the letters split a list at the same places. -/
theorem splitOnP_congr {A : Type} {p q : A -> Bool} {letters : List A}
    (same : forall letter, letter ∈ letters -> p letter = q letter) :
    letters.splitOnP p = letters.splitOnP q := by
  induction letters with
  | nil => rfl
  | cons letter letters inductionHypothesis =>
      rw [List.splitOnP_cons_eq_if_modifyHead, List.splitOnP_cons_eq_if_modifyHead, same letter List.mem_cons_self,
        inductionHypothesis fun other member => same other (List.mem_cons_of_mem _ member)]

theorem mem_intercalate {A : Type} {separator letter : A} {words : List (List A)}
    (member : letter ∈ [separator].intercalate words) :
    letter = separator ∨ Exists fun word => word ∈ words ∧ letter ∈ word := by
  induction words with
  | nil => cases member
  | cons word words inductionHypothesis =>
      cases words with
      | nil =>
          rw [List.intercalate_singleton] at member
          exact Or.inr ⟨word, List.mem_cons_self, member⟩
      | cons next rest =>
          rw [List.intercalate_cons_cons, List.append_assoc] at member
          rcases List.mem_append.mp member with here | later
          · exact Or.inr ⟨word, List.mem_cons_self, here⟩
          · rcases List.mem_append.mp later with blank | later
            · exact Or.inl (List.mem_singleton.mp blank)
            · rcases inductionHypothesis later with blank | ⟨other, listed, inside⟩
              · exact Or.inl blank
              · exact Or.inr ⟨other, List.mem_cons_of_mem _ listed, inside⟩

/-- The pieces of a split have no separator. -/
theorem not_mem_of_mem_splitOnP {A : Type} {p : A -> Bool} {letters word : List A}
    (member : word ∈ letters.splitOnP p) : forall letter, letter ∈ word -> p letter = false := by
  induction letters generalizing word with
  | nil =>
      rw [List.splitOnP_nil, List.mem_singleton] at member
      intro letter impossible
      rw [member] at impossible
      cases impossible
  | cons letter letters inductionHypothesis =>
      cases pieces : letters.splitOnP p with
      | nil => exact absurd pieces (List.splitOnP_ne_nil p letters)
      | cons first rest =>
          rw [pieces] at inductionHypothesis
          rw [List.splitOnP_cons_eq_if_modifyHead, pieces] at member
          split at member
          · rcases List.mem_cons.mp member with empty | later
            · rw [empty]
              intro letter impossible
              cases impossible
            · exact inductionHypothesis later
          · next inside =>
              rcases List.mem_cons.mp member with here | later
              · intro other listed
                rw [here] at listed
                rcases List.mem_cons.mp listed with same | deeper
                · rw [same]
                  exact Bool.eq_false_iff.mpr inside
                · exact inductionHypothesis List.mem_cons_self other deeper
              · exact inductionHypothesis (List.mem_cons_of_mem _ later)

/-- A word is not empty and has no blanks. -/
theorem of_mem_words {word : List Char} (member : word ∈ words text) :
    word ≠ [] ∧ forall letter, letter ∈ word -> isSeparator letter = false := by
  rcases List.mem_filter.mp member with ⟨piece, kept⟩
  exact ⟨of_decide_eq_true kept, not_mem_of_mem_splitOnP piece⟩

/-- With single blanks between its words a text is as it was where it has no other
blanks. -/
theorem intercalate_words_iff (given : text ≠ "") :
    [' '].intercalate (words text) = text.toList <-> Spaced text := by
  constructor
  · intro same
    have nonempty : words text ≠ [] := by
      intro empty
      rw [empty] at same
      exact given (String.toList_inj.mp same.symm)
    refine ⟨?_, ?_⟩
    · intro letter member separates
      rw [← same] at member
      rcases mem_intercalate member with blank | ⟨word, listed, inside⟩
      · exact blank
      · rw [(of_mem_words listed).2 letter inside] at separates
        cases separates
    · rw [← same, List.splitOn_intercalate ' ' ?_ nonempty]
      · exact fun empty => (of_mem_words empty).1 rfl
      · exact fun word listed blank =>
          absurd ((of_mem_words listed).2 ' ' blank) (by decide)
  · rintro ⟨blanks, single⟩
    have pieces : text.toList.splitOnP isSeparator = text.toList.splitOn ' ' := by
      rw [List.splitOn_eq_splitOnP]
      apply splitOnP_congr
      intro letter member
      by_cases separates : isSeparator letter = true
      · rw [blanks letter member separates]
        rfl
      · rw [Bool.eq_false_iff.mpr separates]
        refine (beq_eq_false_iff_ne.mpr ?_).symm
        intro blank
        rw [blank] at separates
        exact separates rfl
    have all : words text = text.toList.splitOn ' ' := by
      rw [words, pieces]
      apply List.filter_eq_self.mpr
      intro word member
      refine decide_eq_true ?_
      intro empty
      rw [empty] at member
      exact single member
    rw [all]
    exact List.intercalate_splitOn ' '

/-- A text none of whose words is a pattern, and whose first word is no option, is
printed as it is exactly where single blanks are between its words. -/
theorem verbatim_iff_spaced (given : text ≠ "")
    (plain : forall word, word ∈ words text -> isPattern (String.ofList word) = false)
    (first : forall word, (words text).head? = some word ->
      isOption (String.ofList word) = false) :
    expansion.Verbatim text <-> Spaced text := by
  have whole : expansion.unquoted text = (words text).map String.ofList := by
    refine (List.flatMap_congr ?_).trans (List.flatMap_singleton' _)
    intro word member
    rcases List.mem_map.mp member with ⟨letters, listed, same⟩
    rw [← same]
    exact expansion.plain _ (plain letters listed)
  have letters : ((words text).map String.ofList).map String.toList = words text := by
    rw [List.map_map]
    exact List.map_id'' (fun _ => String.toList_ofList) _
  have line : '\n' ∉ (joined ((words text).map String.ofList)).toList := by
    rw [joined, letters, String.toList_ofList]
    intro member
    rcases mem_intercalate member with impossible | ⟨word, listed, inside⟩
    · exact absurd impossible (by decide)
    · exact absurd ((of_mem_words listed).2 _ inside) (by decide)
  have printed : expansion.echo text = [joined ((words text).map String.ofList)] := by
    rw [Expansion.echo, whole, echoed_of_not_option, textLines_of_line line]
    intro word head
    rw [List.head?_map] at head
    rcases Option.map_eq_some_iff.mp head with ⟨letters, here, same⟩
    rw [← same]
    exact first letters here
  rw [Expansion.Verbatim, printed, List.singleton_inj, ← intercalate_words_iff given, joined,
    letters, ← String.toList_inj, String.toList_ofList]

/-- Letters and digits mean nothing else to the shell. -/
theorem verbatim_of_alphanum (given : text ≠ "")
    (plain : forall letter, letter ∈ text.toList -> letter.isAlphanum = true) :
    expansion.Verbatim text := by
  have other : forall special : Char, special.isAlphanum = false -> special ∉ text.toList := by
    intro special separate member
    rw [plain special member] at separate
    cases separate
  have unseparated : forall letter, letter ∈ text.toList -> isSeparator letter = false := by
    intro letter member
    refine Bool.eq_false_iff.mpr fun separates => ?_
    simp only [isSeparator, Bool.or_eq_true, decide_eq_true_eq] at separates
    rcases separates with (blank | tab) | line
    · exact other ' ' (by decide) (blank ▸ member)
    · exact other '\t' (by decide) (tab ▸ member)
    · exact other '\n' (by decide) (line ▸ member)
  have letters : text.toList ≠ [] := fun empty => given (String.toList_inj.mp empty)
  have single : words text = [text.toList] := by
    rw [words, List.splitOnP_eq_singleton unseparated, List.filter_singleton,
      decide_eq_true letters, cond_true]
  have same : expansion.Verbatim text <-> Spaced text := by
    apply verbatim_iff_spaced given
    · intro word member
      rw [single, List.mem_singleton] at member
      rw [member, String.ofList_toList]
      refine Bool.eq_false_iff.mpr fun pattern => ?_
      rcases List.any_eq_true.mp pattern with ⟨letter, listed, special⟩
      simp only [Bool.or_eq_true, decide_eq_true_eq] at special
      rcases special with ((star | question) | bracket) | backslash
      · exact other '*' (by decide) (star ▸ listed)
      · exact other '?' (by decide) (question ▸ listed)
      · exact other '[' (by decide) (bracket ▸ listed)
      · exact other '\\' (by decide) (backslash ▸ listed)
    · intro word head
      rw [single] at head
      cases head
      rw [String.ofList_toList]
      unfold isOption
      split
      · next rest dash => exact absurd (dash ▸ List.mem_cons_self) (other '-' (by decide))
      · rfl
  refine same.mpr ⟨?_, ?_⟩
  · intro letter member separates
    rw [unseparated letter member] at separates
    cases separates
  · rw [List.splitOn_eq_singleton (other ' ' (by decide)), List.mem_singleton]
    exact letters.symm

end Shell
end MutinyNet
