import MutinyNet.Shell.Script

namespace MutinyNet
namespace Shell

/-!
# Scripts that run side by side

Several processes run scripts of their own on one world.  Each of them is
started and stopped at any time, also in the middle of its script, and whose
command comes next is decided outside.

For one process the others are what the world does between two of its commands.
So the machine of a process takes, with the input of a command, the world that
the command finds, and what the process guarantees among the others is what its
script guarantees on that machine as long as the world changes only in ways the
process can rely on.
-/

variable {P C W I A : Type}

/-- The world, and what is left of the script of each process that is running. -/
structure System (P C W A : Type) where
  world : W
  running : P -> Option (Script C A)

inductive Action (P I : Type) where
  | start (process : P)
  | stop (process : P)
  | step (process : P) (input : I)

namespace Machine

variable [DecidableEq P] (machine : Machine C W I) (program : P -> Script C A)

/-- What one action does; to start a process that is running is to kill it
first. -/
def act (system : System P C W A) : Action P I -> System P C W A
  | .start process =>
      { system with running := Function.update system.running process (some (program process)) }
  | .stop process => { system with running := Function.update system.running process none }
  | .step process input =>
      match system.running process with
      | some (.call command next) =>
          { world := (machine.perform command system.world input).1
            running := Function.update system.running process
              (some (next (machine.perform command system.world input).2)) }
      | _ => system

/-- The command that an action runs, if it runs one. -/
def ran (system : System P C W A) : Action P I -> Option (Event C W I)
  | .step process input =>
      match system.running process with
      | some (.call command _) => some { command, world := system.world, input }
      | _ => none
  | _ => none

/-- The machine of one process: the world of its last command is gone, and the
next one works in the world it finds. -/
def disturbed : Machine C W (W × I) where
  perform command _ found := machine.perform command found.1 found.2

/-- A script among others: `rely` is how these may change the world between two
of its commands, and `condition` is what is known of each of them. -/
def Among (rely : W -> W -> Prop) (condition : Event C W I -> Prop) (holds : W -> Prop)
    (post : A -> W -> Prop) (script : Script C A) (world : W) : Prop :=
  machine.disturbed.Guarantees
    (fun event => rely event.world event.input.1 ∧
      condition { command := event.command, world := event.input.1, input := event.input.2 })
    holds post script world

section Rely

variable {machine : Machine C W I} {rely : W -> W -> Prop} {condition : Event C W I -> Prop}
  {holds : W -> Prop} {post : A -> W -> Prop} {script : Script C A} {world other : W}

/-- What a script guarantees among others, it guarantees from every world they may
make of this one. -/
theorem Among.stable (among : machine.Among rely condition holds post script world)
    (transitive : forall {first second third}, rely first second -> rely second third ->
      rely first third)
    (held : holds other) (ended : forall result, post result world -> post result other)
    (changed : rely world other) : machine.Among rely condition holds post script other := by
  cases script with
  | done result => exact ended result among
  | call command next =>
      refine ⟨held, ?_⟩
      rintro found ⟨reached, known⟩
      exact among.2 found ⟨transitive changed reached, known⟩

/-- What holds wherever the script is cut and at its end holds in front of it. -/
theorem Among.held (among : machine.Among rely condition holds post script world)
    (ended : forall result world, post result world -> holds world) : holds world := by
  cases script with
  | done result => exact ended result world among
  | call command next => exact among.1

/-- A command that is run in the world the process left, or in any it relies on. -/
theorem Among.step {command : C} {next : Reply -> Script C A}
    (among : machine.Among rely condition holds post (.call command next) world)
    (changed : rely world other) {input : I} (known : condition { command, world := other, input }) :
    machine.Among rely condition holds post (next (machine.perform command other input).2)
      (machine.perform command other input).1 :=
  among.2 (other, input) ⟨changed, known⟩

end Rely

/-! ## Processes that keep to an agreement -/

/-- What holds of the world, what every process relies on, which commands it keeps
to, and what it has established at its end. -/
structure Cooperation (P C W A : Type) where
  holds : W -> Prop
  rely : P -> W -> W -> Prop
  own : P -> C -> Prop
  post : P -> A -> W -> Prop

namespace Cooperation

variable (cooperation : Cooperation P C W A)

/-- A script of a process keeps to the agreement from a world on. -/
structure Keeps (condition : Event C W I -> Prop) (process : P) (script : Script C A) (world : W) :
    Prop where
  calls : script.Calls (cooperation.own process)
  among : machine.Among (cooperation.rely process) condition cooperation.holds
    (fun result world => cooperation.holds world ∧ cooperation.post process result world) script
    world

/-- The world and every script that is running are as they should be. -/
structure Intact (condition : Event C W I -> Prop) (system : System P C W A) : Prop where
  holds : cooperation.holds system.world
  keeps : forall process script, system.running process = some script ->
    cooperation.Keeps machine condition process script system.world

/-- What has to be shown of an agreement: what the processes rely on is what the
others leave as it is, and each program keeps to it from its start. -/
structure Sound (condition : Event C W I -> Prop) : Prop where
  reflexive : forall process world, cooperation.holds world -> cooperation.rely process world world
  transitive : forall process {first second third}, cooperation.rely process first second ->
    cooperation.rely process second third -> cooperation.rely process first third
  yields : forall {process other command world input}, process ≠ other ->
    cooperation.own process command -> cooperation.holds (machine.perform command world input).1 ->
    cooperation.rely other world (machine.perform command world input).1
  stable : forall process result {world changed}, cooperation.post process result world ->
    cooperation.rely process world changed -> cooperation.post process result changed
  starts : forall process world, cooperation.holds world ->
    cooperation.Keeps machine condition process (program process) world

variable {machine program cooperation} {condition : Event C W I -> Prop}
  {system : System P C W A} {world changed : W} {process : P} {script : Script C A}

omit [DecidableEq P] in
theorem Keeps.stable (keeps : cooperation.Keeps machine condition process script world)
    (sound : cooperation.Sound machine program condition) (held : cooperation.holds changed)
    (rely : cooperation.rely process world changed) :
    cooperation.Keeps machine condition process script changed where
  calls := keeps.calls
  among := keeps.among.stable (sound.transitive process) held
    (fun result ended => ⟨held, sound.stable process result ended.2 rely⟩) rely

/-- A world that one process made, with what is left of its script. -/
theorem intact_update {running : P -> Option (Script C A)} {left : Option (Script C A)}
    (held : cooperation.holds changed)
    (mine : forall script, left = some script ->
      cooperation.Keeps machine condition process script changed)
    (others : forall other script, other ≠ process -> running other = some script ->
      cooperation.Keeps machine condition other script changed) :
    cooperation.Intact machine condition
      { world := changed, running := Function.update running process left } := by
  refine ⟨held, ?_⟩
  intro other script runs
  dsimp only at runs
  by_cases same : other = process
  · subst same
    rw [Function.update_self] at runs
    exact mine script runs
  · rw [Function.update_of_ne same] at runs
    exact others other script same runs

/-- What holds in front of an action holds behind it. -/
theorem Intact.act (intact : cooperation.Intact machine condition system)
    (sound : cooperation.Sound machine program condition) {action : Action P I}
    (known : forall event, ran system action = some event -> condition event) :
    cooperation.Intact machine condition (machine.act program system action) := by
  cases action with
  | start process =>
      apply intact_update intact.holds
      · intro script same
        cases same
        exact sound.starts process system.world intact.holds
      · exact fun other script _ runs => intact.keeps other script runs
  | stop process =>
      apply intact_update intact.holds
      · intro script impossible
        cases impossible
      · exact fun other script _ runs => intact.keeps other script runs
  | step process input =>
      unfold Machine.act
      dsimp only
      split
      · next command next mine =>
          have keeps := intact.keeps process _ mine
          have met : condition { command, world := system.world, input } := by
            apply known
            dsimp only [ran]
            rw [mine]
          have rest := keeps.among.step (sound.reflexive process _ intact.holds) met
          have held := rest.held fun result world ended => ended.1
          apply intact_update held
          · intro script same
            cases same
            exact ⟨keeps.calls.2 _, rest⟩
          · intro other script different runs
            exact (intact.keeps other script runs).stable sound held
              (sound.yields (Ne.symm different) keeps.calls.1 held)
      · exact intact

end Cooperation

/-! ## Runs -/

/-- The system behind a list of actions. -/
def acts (system : System P C W A) (actions : List (Action P I)) : System P C W A :=
  actions.foldl (machine.act program) system

/-- The commands of a list of actions. -/
def commandsOf (system : System P C W A) : List (Action P I) -> List (Event C W I)
  | [] => []
  | action :: actions =>
      (ran system action).toList ++ commandsOf (machine.act program system action) actions

variable {machine program}

/-- What holds at the start of a run holds at its end, if each command of the run
meets the condition. -/
theorem Cooperation.Intact.acts {cooperation : Cooperation P C W A}
    {condition : Event C W I -> Prop} {system : System P C W A} {actions : List (Action P I)}
    (intact : cooperation.Intact machine condition system)
    (sound : cooperation.Sound machine program condition)
    (known : forall event, event ∈ machine.commandsOf program system actions -> condition event) :
    cooperation.Intact machine condition (machine.acts program system actions) := by
  induction actions generalizing system with
  | nil => exact intact
  | cons action actions inductionHypothesis =>
      apply inductionHypothesis
      · apply intact.act sound
        intro event ran
        apply known
        rw [commandsOf, ran]
        exact List.mem_append_left _ List.mem_cons_self
      · intro event member
        apply known
        rw [commandsOf]
        exact List.mem_append_right _ member

end Machine

/-- The result of a process whose script has ended. -/
def System.result (system : System P C W A) (process : P) : Option A :=
  match system.running process with
  | some (.done result) => some result
  | _ => none

theorem System.running_of_result {system : System P C W A} {process : P} {result : A}
    (ended : system.result process = some result) :
    system.running process = some (.done result) := by
  unfold System.result at ended
  split at ended
  · next shape =>
      cases ended
      exact shape
  · cases ended

end Shell
end MutinyNet
