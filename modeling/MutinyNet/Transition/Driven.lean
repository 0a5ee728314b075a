import Mathlib

namespace MutinyNet
namespace Transition

/-!
# Machines driven by inputs

A machine takes one input at each step and goes on from the state the step
returns, until a step returns none.  Everything outside the machine is in its
inputs: the answers of other programs, the readings of clocks.  `visits` lists
the steps of a run as pairs of a state and an input, which is all that a
property of single steps needs; the invariant rule lifts what a step preserves
to every step of a run.

Several machines of one kind run interleaved when each event belongs to one of
them.  The steps one machine takes in an interleaving are its steps in a run of
its own, on the inputs that were its own.
-/

variable {S I : Type}

/-- The steps of a run: the state each was taken in and the input it took. -/
def visits (next : S -> I -> Option S) : Option S -> List I -> List (S × I)
  | none, _ => []
  | some _, [] => []
  | some state, input :: inputs => (state, input) :: visits next (next state input) inputs

/-- What the first state has, and what every step on a state and an input that
meet the condition preserves, holds at every step of a run of such steps. -/
theorem visits_invariant_of_condition {next : S -> I -> Option S} {holds : S -> Prop}
    {condition : S × I -> Prop} {start : Option S} {inputs : List I}
    (initially : forall state, start = some state -> holds state)
    (met : forall visit, visit ∈ visits next start inputs -> condition visit)
    (preserved : forall state input state', condition (state, input) -> holds state ->
      next state input = some state' -> holds state') :
    forall visit, visit ∈ visits next start inputs -> holds visit.1 := by
  induction inputs generalizing start with
  | nil =>
      intro visit member
      cases start <;> cases member
  | cons input inputs inductionHypothesis =>
      intro visit member
      cases start with
      | none => cases member
      | some state =>
          have here := initially state rfl
          rcases List.mem_cons.mp member with same | later
          · subst same
            exact here
          · apply inductionHypothesis _ _ visit later
            · intro state' stepped
              exact preserved state input state' (met _ List.mem_cons_self) here stepped
            · intro other inside
              exact met other (List.mem_cons_of_mem _ inside)

/-- A step of a run takes one of the inputs. -/
theorem mem_inputs_of_visits {next : S -> I -> Option S} {start : Option S} {inputs : List I}
    {visit : S × I} (member : visit ∈ visits next start inputs) : visit.2 ∈ inputs := by
  induction inputs generalizing start with
  | nil => cases start <;> cases member
  | cons input inputs inductionHypothesis =>
      cases start with
      | none => cases member
      | some state =>
          rcases List.mem_cons.mp member with same | later
          · rw [same]
            exact List.mem_cons_self
          · exact List.mem_cons_of_mem input (inductionHypothesis later)

/-- The same where every step on one of the inputs preserves it. -/
theorem visits_invariant {next : S -> I -> Option S} {holds : S -> Prop} {start : Option S}
    {inputs : List I} (initially : forall state, start = some state -> holds state)
    (preserved : forall state input state', input ∈ inputs -> holds state ->
      next state input = some state' -> holds state') :
    forall visit, visit ∈ visits next start inputs -> holds visit.1 ∧ visit.2 ∈ inputs := by
  intro visit member
  have inside : forall visit : S × I, visit ∈ visits next start inputs -> visit.2 ∈ inputs :=
    fun _ taken => mem_inputs_of_visits taken
  refine ⟨visits_invariant_of_condition initially inside ?_ visit member, inside visit member⟩
  exact preserved

/-- Each step of a run starts in the state that the one before it left. -/
theorem visits_isChain (next : S -> I -> Option S) (start : Option S) (inputs : List I) :
    List.IsChain (fun first second => next first.1 first.2 = some second.1)
      (visits next start inputs) := by
  induction inputs generalizing start with
  | nil => cases start <;> exact List.isChain_nil
  | cons input inputs inductionHypothesis =>
      cases start with
      | none => exact List.isChain_nil
      | some state =>
          rw [visits]
          have rest := inductionHypothesis (next state input)
          cases stepped : next state input with
          | none =>
              cases inputs <;> exact List.isChain_singleton _
          | some state' =>
              rw [stepped] at rest
              cases inputs with
              | nil => exact List.isChain_singleton _
              | cons later inputs => exact List.isChain_cons_cons.mpr ⟨stepped, rest⟩

/-- Along a list on which a rank falls there are no more elements than the rank
of the first one, if it is positive at each of them. -/
theorem length_le_of_falling {A : Type} {rank : A -> Nat} {first : A} {rest : List A}
    (positive : forall element, element ∈ first :: rest -> 0 < rank element)
    (falls : List.IsChain (fun element later => rank later < rank element) (first :: rest)) :
    (first :: rest).length ≤ rank first := by
  induction rest generalizing first with
  | nil => exact positive first List.mem_cons_self
  | cons second rest inductionHypothesis =>
      rw [List.isChain_cons_cons] at falls
      have rest := inductionHypothesis
        (fun element member => positive element (List.mem_cons_of_mem first member)) falls.2
      have fell := falls.1
      rw [List.length_cons]
      omega

/-- Levels that a step goes down one by one, and the last of which it does not
leave: from the element on whose level has been counted down, all are on it. -/
theorem settles {A : Type} {step : A -> A -> Prop} {level : Nat -> A -> Prop}
    (stays : forall element later, step element later -> level 0 element -> level 0 later)
    (descends : forall number element later, step element later ->
      level (number + 1) element -> level number later)
    {number : Nat} {first : A} {rest : List A} (start : level number first)
    (chain : List.IsChain step (first :: rest)) :
    forall element, element ∈ (first :: rest).drop number -> level 0 element := by
  induction rest generalizing number first with
  | nil =>
      intro element member
      cases number with
      | zero =>
          rw [List.mem_singleton.mp member]
          exact start
      | succ number =>
          rw [List.drop_succ_cons, List.drop_nil] at member
          cases member
  | cons second rest inductionHypothesis =>
      intro element member
      rw [List.isChain_cons_cons] at chain
      cases number with
      | zero =>
          rcases List.mem_cons.mp member with same | later
          · rw [same]
            exact start
          · exact inductionHypothesis (stays first second chain.1 start) chain.2 element later
      | succ number =>
          exact inductionHypothesis (descends number first second chain.1 start) chain.2 element
            member

section Interleaving

variable {M : Type} [DecidableEq M]

/-- The steps of an interleaving, each with the machine that takes it. -/
def interleaved (next : M -> S -> I -> Option S) :
    (M -> Option S) -> List (M × I) -> List (M × S × I)
  | _, [] => []
  | states, (machine, input) :: events =>
      match states machine with
      | none => interleaved next states events
      | some state => (machine, state, input) ::
          interleaved next (Function.update states machine (next machine state input)) events

/-- The inputs of one machine. -/
def inputsOf (machine : M) (events : List (M × I)) : List I :=
  events.filterMap fun event => if event.1 = machine then some event.2 else none

theorem inputsOf_cons_self (machine : M) (input : I) (events : List (M × I)) :
    inputsOf machine ((machine, input) :: events) = input :: inputsOf machine events := by
  simp only [inputsOf, List.filterMap_cons, if_true]

theorem inputsOf_cons_of_ne {machine other : M} (different : other ≠ machine) (input : I)
    (events : List (M × I)) :
    inputsOf machine ((other, input) :: events) = inputsOf machine events := by
  simp only [inputsOf, List.filterMap_cons, different, if_false]

theorem mem_of_mem_inputsOf {machine : M} {input : I} {events : List (M × I)}
    (member : input ∈ inputsOf machine events) : (machine, input) ∈ events := by
  rcases List.mem_filterMap.mp member with ⟨⟨other, given⟩, inside, same⟩
  split at same
  · next own =>
      cases same
      exact own ▸ inside
  · cases same

/-- A step of a machine in an interleaving is a step of its own run. -/
theorem visits_of_interleaved {next : M -> S -> I -> Option S} {states : M -> Option S}
    {events : List (M × I)} {machine : M} {state : S} {input : I}
    (member : (machine, state, input) ∈ interleaved next states events) :
    (state, input) ∈ visits (next machine) (states machine) (inputsOf machine events) := by
  induction events generalizing states with
  | nil => cases member
  | cons event events inductionHypothesis =>
      rcases event with ⟨other, given⟩
      rw [interleaved] at member
      split at member
      · next stopped =>
          have later := inductionHypothesis member
          by_cases same : other = machine
          · subst same
            rw [stopped] at later ⊢
            rwa [visits] at later ⊢
          · rwa [inputsOf_cons_of_ne same]
      · next active running =>
          by_cases same : other = machine
          · subst same
            rw [inputsOf_cons_self, running, visits]
            rcases List.mem_cons.mp member with here | later
            · cases here
              exact List.mem_cons_self
            · have rest := inductionHypothesis later
              rw [Function.update_self] at rest
              exact List.mem_cons_of_mem _ rest
          · rw [inputsOf_cons_of_ne same]
            rcases List.mem_cons.mp member with here | later
            · cases here
              exact absurd rfl same
            · have rest := inductionHypothesis later
              rwa [Function.update_of_ne (Ne.symm same)] at rest

end Interleaving

end Transition
end MutinyNet
