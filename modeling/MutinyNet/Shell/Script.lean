import MutinyNet.Transition.Driven

namespace MutinyNet
namespace Shell

open Transition

/-!
# Scripts that may be cut anywhere

A script calls one command after another and goes on with what the command
replied: whether its status was zero, and its output.  What a command does to
the world and what it replies depends on an input, so commands may fail; and a
run that is out of inputs was killed in front of its next command.

`Guarantees` is the precondition of a script for what holds wherever it is cut
and for what holds at its end, given that every command it runs is allowed.  It
is computed from the script by one rule for each way of calling a command.
-/

structure Reply where
  ok : Bool
  output : List String := []
  deriving DecidableEq, Repr

/-- A script over commands `C` that ends with a result. -/
inductive Script (C A : Type) where
  | done (result : A)
  | call (command : C) (next : Reply -> Script C A)

variable {C W I A B : Type}

namespace Script

/-- Run a script inside another one. -/
def andThen : Script C A -> (A -> Script C B) -> Script C B
  | .done result, later => later result
  | .call command next, later => .call command fun reply => (next reply).andThen later

/-- `errexit`: a command that fails ends the script. -/
def must (failed : A) (command : C) (next : Script C A) : Script C A :=
  .call command fun reply => if reply.ok then next else .done failed

/-- A command whose status nobody looks at. -/
def attempt (command : C) (next : Script C A) : Script C A :=
  .call command fun _ => next

/-- `if command; then yes; else no; fi`. -/
def test (command : C) (yes no : Script C A) : Script C A :=
  .call command fun reply => if reply.ok then yes else no

/-- `name=$(command)` without `errexit`. -/
def capture (command : C) (next : List String -> Script C A) : Script C A :=
  .call command fun reply => next reply.output

/-- The commands one after another, under `errexit`. -/
def mustAll (failed : A) : List C -> Script C A -> Script C A
  | [], next => next
  | command :: commands, next => must failed command (mustAll failed commands next)

/-- The commands one after another, whatever becomes of each. -/
def attemptAll : List C -> Script C A -> Script C A
  | [], next => next
  | command :: commands, next => attempt command (attemptAll commands next)

/-- Every command the script may call has a property. -/
def Calls (property : C -> Prop) : Script C A -> Prop
  | .done _ => True
  | .call command next => property command ∧ forall reply, Calls property (next reply)

theorem calls_trivial (script : Script C A) : script.Calls fun _ => True := by
  induction script with
  | done result => trivial
  | call command next inductionHypothesis => exact ⟨trivial, inductionHypothesis⟩

theorem Calls.mono {property weaker : C -> Prop} {script : Script C A}
    (calls : script.Calls property) (implies : forall command, property command -> weaker command) :
    script.Calls weaker := by
  induction script with
  | done result => trivial
  | call command next inductionHypothesis =>
      exact ⟨implies command calls.1, fun reply => inductionHypothesis reply (calls.2 reply)⟩

theorem calls_andThen {property : C -> Prop} {script : Script C A} {later : A -> Script C B}
    (first : script.Calls property) (second : forall result, (later result).Calls property) :
    (script.andThen later).Calls property := by
  induction script with
  | done result => exact second result
  | call command next inductionHypothesis =>
      exact ⟨first.1, fun reply => inductionHypothesis reply (first.2 reply)⟩

theorem calls_must {property : C -> Prop} {command : C} {next : Script C A} {failed : A}
    (first : property command) (rest : next.Calls property) :
    (must failed command next).Calls property := by
  refine ⟨first, ?_⟩
  intro reply
  dsimp only
  split
  · exact rest
  · trivial

theorem calls_mustAll {property : C -> Prop} {commands : List C} {next : Script C A} {failed : A}
    (all : forall command, command ∈ commands -> property command) (rest : next.Calls property) :
    (mustAll failed commands next).Calls property := by
  induction commands with
  | nil => exact rest
  | cons command commands inductionHypothesis =>
      apply calls_must
      · exact all command List.mem_cons_self
      · exact inductionHypothesis fun other member => all other (List.mem_cons_of_mem command member)

theorem calls_attemptAll {property : C -> Prop} {commands : List C} {next : Script C A}
    (all : forall command, command ∈ commands -> property command) (rest : next.Calls property) :
    (attemptAll commands next).Calls property := by
  induction commands with
  | nil => exact rest
  | cons command commands inductionHypothesis =>
      exact ⟨all command List.mem_cons_self, fun _ => inductionHypothesis fun other member =>
        all other (List.mem_cons_of_mem command member)⟩

end Script

/-! ## Runs -/

/-- What the commands do. -/
structure Machine (C W I : Type) where
  perform : C -> W -> I -> W × Reply

/-- A command that was run: the world it found and the input it got. -/
structure Event (C W I : Type) where
  command : C
  world : W
  input : I

namespace Machine

variable (machine : Machine C W I)

/-- The world a run leaves, and the result of the script if the run was not cut. -/
def exec : Script C A -> W -> List I -> W × Option A
  | .done result, world, _ => (world, some result)
  | .call _ _, world, [] => (world, none)
  | .call command next, world, input :: inputs =>
      exec (next (machine.perform command world input).2) (machine.perform command world input).1
        inputs

/-- The commands of a run. -/
def events : Script C A -> W -> List I -> List (Event C W I)
  | .done _, _, _ => []
  | .call _ _, _, [] => []
  | .call command next, world, input :: inputs =>
      { command, world, input } ::
        events (next (machine.perform command world input).2)
          (machine.perform command world input).1 inputs

variable {machine} in
theorem input_of_mem_events {script : Script C A} {world : W} {inputs : List I}
    {event : Event C W I} (member : event ∈ machine.events script world inputs) :
    event.input ∈ inputs := by
  induction script generalizing world inputs with
  | done result => cases member
  | call command next inductionHypothesis =>
      cases inputs with
      | nil => cases member
      | cons input inputs =>
          rcases List.mem_cons.mp member with here | there
          · subst here
            exact List.mem_cons_self
          · exact List.mem_cons_of_mem input (inductionHypothesis _ there)

/-- The world behind an event. -/
def after (event : Event C W I) : W :=
  (machine.perform event.command event.world event.input).1

/-- What a command brought about and no command takes away is there at the end of
the run. -/
theorem exec_of_mem_events (holds : W -> Prop)
    (preserved : forall event, holds event.world -> holds (machine.after event))
    {script : Script C A} {world : W} {inputs : List I} {event : Event C W I}
    (member : event ∈ machine.events script world inputs)
    (established : holds (machine.after event)) : holds (machine.exec script world inputs).1 := by
  have kept : forall (script : Script C A) (world : W) (inputs : List I), holds world ->
      holds (machine.exec script world inputs).1 := by
    intro script
    induction script with
    | done result =>
        intro world inputs here
        exact here
    | call command next inductionHypothesis =>
        intro world inputs here
        cases inputs with
        | nil => exact here
        | cons input inputs =>
            exact inductionHypothesis _ _ inputs (preserved { command, world, input } here)
  induction script generalizing world inputs with
  | done result => cases member
  | call command next inductionHypothesis =>
      cases inputs with
      | nil => cases member
      | cons input inputs =>
          rcases List.mem_cons.mp member with here | there
          · subst here
            exact kept _ _ inputs established
          · exact inductionHypothesis _ there

/-- The run of a script that is not cut. -/
def complete : Script C A -> W -> (Nat -> I) -> W × A
  | .done result, world, _ => (world, result)
  | .call command next, world, inputs =>
      complete (next (machine.perform command world (inputs 0)).2)
        (machine.perform command world (inputs 0)).1 fun count => inputs (count + 1)

variable {machine} in
/-- A run that is not cut takes finitely many inputs. -/
theorem exists_exec_eq_complete (script : Script C A) (world : W) (inputs : Nat -> I) :
    Exists fun count => machine.exec script world ((List.range count).map inputs) =
      ((machine.complete script world inputs).1, some (machine.complete script world inputs).2) := by
  induction script generalizing world inputs with
  | done result => exact ⟨0, rfl⟩
  | call command next inductionHypothesis =>
      rcases inductionHypothesis (machine.perform command world (inputs 0)).2
        (machine.perform command world (inputs 0)).1 (fun count => inputs (count + 1)) with
        ⟨count, same⟩
      refine ⟨count + 1, ?_⟩
      rw [List.range_succ_eq_map, List.map_cons, List.map_map]
      exact same

/-- A machine that is started again and again with the same script: each start
has its inputs, and `reboot` is what happens to the world in between. -/
def restart (script : Script C A) (reboot : W -> W) (world : W) (inputs : List I) : Option W :=
  some (reboot (machine.exec script world inputs).1)

/-! ## Preconditions -/

/-- `crash` holds wherever the script is cut, and `post` holds of its result and
the world it leaves, as long as every command is allowed. -/
def Guarantees (allowed : Event C W I -> Prop) (crash : W -> Prop) (post : A -> W -> Prop) :
    Script C A -> W -> Prop
  | .done result, world => post result world
  | .call command next, world => crash world ∧ forall input, allowed { command, world, input } ->
      Guarantees allowed crash post (next (machine.perform command world input).2)
        (machine.perform command world input).1

variable {machine} {allowed : Event C W I -> Prop} {crash : W -> Prop} {post : A -> W -> Prop}
  {script : Script C A} {world : W}

/-- What a script guarantees holds of every run whose commands are allowed. -/
theorem Guarantees.sound (guaranteed : machine.Guarantees allowed crash post script world)
    (inputs : List I)
    (clean : forall event, event ∈ machine.events script world inputs -> allowed event) :
    ((machine.exec script world inputs).2 = none -> crash (machine.exec script world inputs).1) ∧
      forall result, (machine.exec script world inputs).2 = some result ->
        post result (machine.exec script world inputs).1 := by
  induction script generalizing world inputs with
  | done result =>
      constructor
      · intro impossible
        cases impossible
      · intro other same
        cases same
        exact guaranteed
  | call command next inductionHypothesis =>
      cases inputs with
      | nil =>
          constructor
          · intro _
            exact guaranteed.1
          · intro result impossible
            cases impossible
      | cons input inputs =>
          have first := clean { command, world, input } List.mem_cons_self
          exact inductionHypothesis _ (guaranteed.2 input first) inputs
            fun event member => clean event (List.mem_cons_of_mem _ member)

/-- What holds wherever the script is cut and at its end holds of what a run leaves. -/
theorem Guarantees.left (guaranteed : machine.Guarantees allowed crash (fun _ => crash) script world)
    (inputs : List I)
    (clean : forall event, event ∈ machine.events script world inputs -> allowed event) :
    crash (machine.exec script world inputs).1 := by
  have sound := guaranteed.sound inputs clean
  cases ended : (machine.exec script world inputs).2 with
  | none => exact sound.1 ended
  | some result => exact sound.2 result ended

/-- And of every run that is not cut. -/
theorem Guarantees.complete (guaranteed : machine.Guarantees allowed crash post script world)
    (inputs : Nat -> I)
    (clean : forall count command world, allowed { command, world, input := inputs count }) :
    post (machine.complete script world inputs).2 (machine.complete script world inputs).1 := by
  induction script generalizing world inputs with
  | done result => exact guaranteed
  | call command next inductionHypothesis =>
      exact inductionHypothesis _ (guaranteed.2 (inputs 0) (clean 0 command world))
        (fun count => inputs (count + 1)) fun count => clean (count + 1)

theorem guarantees_call {command : C} {next : Reply -> Script C A} :
    machine.Guarantees allowed crash post (.call command next) world <->
      crash world ∧ forall input, allowed { command, world, input } ->
        machine.Guarantees allowed crash post (next (machine.perform command world input).2)
          (machine.perform command world input).1 :=
  Iff.rfl

/-- A script inside another one guarantees what the rest needs. -/
theorem guarantees_andThen {post : B -> W -> Prop} {later : A -> Script C B} :
    machine.Guarantees allowed crash post (script.andThen later) world <->
      machine.Guarantees allowed crash
        (fun result world => machine.Guarantees allowed crash post (later result) world) script
        world := by
  induction script generalizing world with
  | done result => exact Iff.rfl
  | call command next inductionHypothesis =>
      rw [Script.andThen, guarantees_call, guarantees_call]
      constructor
      · rintro ⟨cut, each⟩
        exact ⟨cut, fun input first => (inductionHypothesis _).mp (each input first)⟩
      · rintro ⟨cut, each⟩
        exact ⟨cut, fun input first => (inductionHypothesis _).mpr (each input first)⟩

theorem Guarantees.mono {crash' : W -> Prop} {post' : A -> W -> Prop}
    (guaranteed : machine.Guarantees allowed crash post script world)
    (cut : forall world, crash world -> crash' world)
    (ended : forall result world, post result world -> post' result world) :
    machine.Guarantees allowed crash' post' script world := by
  induction script generalizing world with
  | done result => exact ended result world guaranteed
  | call command next inductionHypothesis =>
      exact ⟨cut world guaranteed.1, fun input first =>
        inductionHypothesis _ (guaranteed.2 input first)⟩

/-- What every allowed command of the script preserves holds everywhere. -/
theorem guarantees_of_invariant (holds : W -> Prop) {property : C -> Prop}
    (calls : script.Calls property)
    (preserved : forall event, property event.command -> allowed event -> holds event.world ->
      holds (machine.after event))
    (cut : forall world, holds world -> crash world)
    (ended : forall result world, holds world -> post result world) (initially : holds world) :
    machine.Guarantees allowed crash post script world := by
  induction script generalizing world with
  | done result => exact ended result world initially
  | call command next inductionHypothesis =>
      refine ⟨cut world initially, ?_⟩
      intro input first
      exact inductionHypothesis _ (calls.2 _)
        (preserved { command, world, input } calls.1 first initially)

section Rules

variable {command : C} {next yes no : Script C A} {failed : A}

theorem guarantees_must (cut : crash world)
    (succeeds : forall input, allowed { command, world, input } ->
      (machine.perform command world input).2.ok = true ->
        machine.Guarantees allowed crash post next (machine.perform command world input).1)
    (fails : forall input, allowed { command, world, input } ->
      (machine.perform command world input).2.ok = false ->
        post failed (machine.perform command world input).1) :
    machine.Guarantees allowed crash post (.must failed command next) world := by
  refine ⟨cut, ?_⟩
  intro input first
  dsimp only
  split
  · next ok => exact succeeds input first ok
  · next failed => exact fails input first (Bool.eq_false_of_not_eq_true failed)

/-- A command that does not fail when it is allowed. -/
theorem guarantees_must_of_ok (cut : crash world)
    (succeeds : forall input, allowed { command, world, input } ->
      (machine.perform command world input).2.ok = true ∧
        machine.Guarantees allowed crash post next (machine.perform command world input).1) :
    machine.Guarantees allowed crash post (.must failed command next) world := by
  apply guarantees_must cut
  · intro input first _
    exact (succeeds input first).2
  · intro input first failed
    rw [(succeeds input first).1] at failed
    cases failed

theorem guarantees_attempt (cut : crash world)
    (goesOn : forall input, allowed { command, world, input } ->
      machine.Guarantees allowed crash post next (machine.perform command world input).1) :
    machine.Guarantees allowed crash post (.attempt command next) world :=
  ⟨cut, goesOn⟩

theorem guarantees_test (cut : crash world)
    (passes : forall input, allowed { command, world, input } ->
      (machine.perform command world input).2.ok = true ->
        machine.Guarantees allowed crash post yes (machine.perform command world input).1)
    (fails : forall input, allowed { command, world, input } ->
      (machine.perform command world input).2.ok = false ->
        machine.Guarantees allowed crash post no (machine.perform command world input).1) :
    machine.Guarantees allowed crash post (.test command yes no) world := by
  refine ⟨cut, ?_⟩
  intro input first
  dsimp only
  split
  · next ok => exact passes input first ok
  · next failed => exact fails input first (Bool.eq_false_of_not_eq_true failed)

theorem guarantees_capture {next : List String -> Script C A} (cut : crash world)
    (goesOn : forall input, allowed { command, world, input } ->
      machine.Guarantees allowed crash post (next (machine.perform command world input).2.output)
        (machine.perform command world input).1) :
    machine.Guarantees allowed crash post (.capture command next) world :=
  ⟨cut, goesOn⟩

end Rules

/-- In front of commands that change nothing of what is claimed, the rest has to
guarantee it from every world they may leave. -/
theorem guarantees_attemptAll (holds : W -> Prop) {commands : List C} {next : Script C A}
    (cut : forall world, holds world -> crash world)
    (preserved : forall event, event.command ∈ commands -> allowed event -> holds event.world ->
      holds (machine.after event))
    (goesOn : forall world, holds world -> machine.Guarantees allowed crash post next world)
    (initially : holds world) :
    machine.Guarantees allowed crash post (.attemptAll commands next) world := by
  induction commands generalizing world with
  | nil => exact goesOn world initially
  | cons command commands inductionHypothesis =>
      refine guarantees_attempt (cut world initially) ?_
      intro input first
      apply inductionHypothesis
      · intro event member
        exact preserved event (List.mem_cons_of_mem command member)
      · exact preserved { command, world, input } List.mem_cons_self first initially

end Machine

end Shell
end MutinyNet
