import MutinyNet.Shell.Processes

namespace MutinyNet
namespace Shell

/-!
# What a process does to the world

A cooperation says what holds of the world and what a process may rely on.  A
compact says in addition what each process does: how any command of it may change
the world, which is a relation of the world that the command found to the world
that it left.  What one process does is part of what the others rely on, so a
whole run changes the world only in ways that all these relations have in common.

The machine of a process among the others keeps both worlds of its last command,
so the relation is followed by the rules for scripts as well.
-/

variable {P C W I A : Type}

namespace Machine

/-- The machine of one process: the world its last command found and the one it
left. -/
def paired (machine : Machine C W I) : Machine C (W × W) (W × I) where
  perform command _ found :=
    ((found.1, (machine.perform command found.1 found.2).1),
      (machine.perform command found.1 found.2).2)

/-- What holds of every world, what a process relies on between two of its
commands, and what each of its commands does. -/
structure Compact (P W : Type) where
  holds : W -> Prop
  rely : P -> W -> W -> Prop
  does : P -> W -> W -> Prop

namespace Compact

variable (compact : Compact P W) (machine : Machine C W I)

/-- A script whose commands do what the compact says, from the worlds of the last
command on. -/
def Secures (process : P) (script : Script C A) (worlds : W × W) : Prop :=
  machine.paired.Guarantees (fun event => compact.rely process event.world.2 event.input.1)
    (fun worlds => compact.does process worlds.1 worlds.2)
    (fun _ worlds => compact.does process worlds.1 worlds.2) script worlds

/-- What has to be shown of a compact. -/
structure Sound (program : P -> Script C A) : Prop where
  kept : forall {process world changed}, compact.does process world changed -> compact.holds changed
  reflexive : forall process world, compact.holds world -> compact.rely process world world
  transitive : forall process {first second third}, compact.rely process first second ->
    compact.rely process second third -> compact.rely process first third
  yields : forall {process other world changed}, process ≠ other ->
    compact.does process world changed -> compact.rely other world changed
  starts : forall process world, compact.holds world ->
    compact.Secures machine process (program process) (world, world)

/-- The world is as it should be, and each script that is running was left in a
world from which the others made this one. -/
structure Intact (system : System P C W A) : Prop where
  holds : compact.holds system.world
  secures : forall process script, system.running process = some script ->
    Exists fun worlds => compact.Secures machine process script worlds ∧
      compact.rely process worlds.2 system.world

variable {compact machine} {program : P -> Script C A} {system : System P C W A} {process : P}
  {script : Script C A} {worlds : W × W}

theorem Secures.does (secures : compact.Secures machine process script worlds) :
    compact.does process worlds.1 worlds.2 := by
  cases script with
  | done result => exact secures
  | call command next => exact secures.1

/-- Nobody has been started. -/
theorem intact_of_atRest {world : W} (holds : compact.holds world) :
    compact.Intact machine { world, running := fun _ => (none : Option (Script C A)) } := by
  refine ⟨holds, ?_⟩
  intro process script impossible
  cases impossible

variable [DecidableEq P]

/-- An action leaves the world alone, or changes it as its process may. -/
theorem Intact.act (intact : compact.Intact machine system)
    (sound : compact.Sound machine program) (action : Action P I) :
    compact.Intact machine (machine.act program system action) ∧
      ((machine.act program system action).world = system.world ∨
        Exists fun process => compact.does process system.world
          (machine.act program system action).world) := by
  have replaced : forall process (left : Option (Script C A)),
      (forall script, left = some script ->
        compact.Secures machine process script (system.world, system.world)) ->
      compact.Intact machine
        { system with running := Function.update system.running process left } := by
    intro process left mine
    refine ⟨intact.holds, ?_⟩
    intro other script runs
    dsimp only at runs
    by_cases same : other = process
    · subst same
      rw [Function.update_self] at runs
      exact ⟨_, mine script runs, sound.reflexive _ _ intact.holds⟩
    · rw [Function.update_of_ne same] at runs
      exact intact.secures other script runs
  cases action with
  | start process =>
      refine ⟨replaced process _ ?_, Or.inl rfl⟩
      intro script same
      cases same
      exact sound.starts process system.world intact.holds
  | stop process =>
      refine ⟨replaced process _ ?_, Or.inl rfl⟩
      intro script impossible
      cases impossible
  | step process input =>
      unfold Machine.act
      dsimp only
      split
      · next command next mine =>
          rcases intact.secures process _ mine with ⟨worlds, secures, relied⟩
          have rest : compact.Secures machine process
              (next (machine.perform command system.world input).2)
              (system.world, (machine.perform command system.world input).1) :=
            secures.2 (system.world, input) relied
          have done := rest.does
          refine ⟨⟨sound.kept done, ?_⟩, Or.inr ⟨process, done⟩⟩
          intro other script runs
          dsimp only at runs
          by_cases same : other = process
          · subst same
            rw [Function.update_self] at runs
            cases runs
            exact ⟨_, rest, sound.reflexive _ _ (sound.kept done)⟩
          · rw [Function.update_of_ne same] at runs
            rcases intact.secures other script runs with ⟨before, secures, relied⟩
            exact ⟨before, secures,
              sound.transitive other relied (sound.yields (Ne.symm same) done)⟩
      · exact ⟨intact, Or.inl rfl⟩

/-- What all commands have in common relates the worlds of a run. -/
theorem Intact.acts {related : W -> W -> Prop} (intact : compact.Intact machine system)
    (sound : compact.Sound machine program)
    (reflexive : forall world, compact.holds world -> related world world)
    (transitive : forall {first second third}, related first second -> related second third ->
      related first third)
    (included : forall {process world changed}, compact.does process world changed ->
      related world changed)
    (actions : List (Action P I)) :
    compact.Intact machine (machine.acts program system actions) ∧
      related system.world (machine.acts program system actions).world := by
  induction actions generalizing system with
  | nil => exact ⟨intact, reflexive system.world intact.holds⟩
  | cons action actions inductionHypothesis =>
      rcases intact.act sound action with ⟨next, same | ⟨process, done⟩⟩
      · rw [← same]
        exact inductionHypothesis next
      · rcases inductionHypothesis next with ⟨last, rest⟩
        exact ⟨last, transitive (included done) rest⟩

end Compact

end Machine

end Shell
end MutinyNet
