import MutinyNet.Shell.Script

namespace MutinyNet
namespace Shell

/-!
# Runs with a record of their commands

What holds at the end of a run may depend on commands that were run on the way.
The machine that keeps a record of its commands has them in its world, so what
a script guarantees of the two is followed command by command like everything
else, and the record is dropped at the end.
-/

namespace Machine

variable {C W I A : Type} (machine : Machine C W I)

/-- The machine that adds each of its commands to a record. -/
def recording : Machine C (W × List (Event C W I)) I where
  perform command state input :=
    (((machine.perform command state.1 input).1,
      state.2 ++ [{ command, world := state.1, input }]),
      (machine.perform command state.1 input).2)

variable {machine}

theorem exec_recording (script : Script C A) (world : W) (past : List (Event C W I))
    (inputs : List I) :
    machine.recording.exec script (world, past) inputs =
      (((machine.exec script world inputs).1, past ++ machine.events script world inputs),
        (machine.exec script world inputs).2) := by
  induction script generalizing world past inputs with
  | done result => simp only [exec, events, List.append_nil]
  | call command next inductionHypothesis =>
      cases inputs with
      | nil => simp only [exec, events, List.append_nil]
      | cons input inputs =>
          have rest := inductionHypothesis (machine.perform command world input).2
            (machine.perform command world input).1 (past ++ [⟨command, world, input⟩]) inputs
          rw [List.append_assoc, List.singleton_append] at rest
          exact rest

variable {crash : W × List (Event C W I) -> Prop} {post : A -> W × List (Event C W I) -> Prop}
  {script : Script C A} {world : W}

/-- What a script guarantees of the world and the record holds of the world that
a run leaves and of the commands of the run. -/
theorem Guarantees.recorded
    (guaranteed : machine.recording.Guarantees (fun _ => True) crash post script (world, []))
    (inputs : List I) :
    ((machine.exec script world inputs).2 = none ->
        crash ((machine.exec script world inputs).1, machine.events script world inputs)) ∧
      forall result, (machine.exec script world inputs).2 = some result ->
        post result ((machine.exec script world inputs).1, machine.events script world inputs) := by
  have sound := guaranteed.sound inputs fun _ _ => trivial
  rw [exec_recording, List.nil_append] at sound
  exact sound

end Machine

end Shell
end MutinyNet
