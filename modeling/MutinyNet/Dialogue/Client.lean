import Mathlib

namespace MutinyNet
namespace Dialogue

/-!
# Clients and what they ask

A client asks one thing after another of programs outside, and what it asks next
depends on the answers.  The answer to a request has the type that belongs to it.
What stands outside may answer anything at any moment, so a run is given by a list
of ways to answer, one for each request in turn; a run that is out of them was
killed in front of its next request.

`Asks` is the precondition of a client for what each of its requests may take from
the exchanges in front of it.  It is followed through the client by one rule for
each way of putting clients together.
-/

/-- A client that asks requests `Q`, with answers `R`, and ends with a result. -/
inductive Client (Q : Type) (R : Q -> Type) (A : Type) where
  | done (result : A)
  | ask (request : Q) (next : R request -> Client Q R A)

/-- A request and its answer. -/
structure Exchange (Q : Type) (R : Q -> Type) where
  request : Q
  answer : R request

namespace Client

variable {Q : Type} {R : Q -> Type} {A B E : Type}

/-- A client that goes on where another one ended. -/
def andThen : Client Q R A -> (A -> Client Q R B) -> Client Q R B
  | .done result, later => later result
  | .ask request next, later => .ask request fun answer => (next answer).andThen later

/-- A client that goes on unless the one in front of it threw something. -/
def orThrow (client : Client Q R (Except E A)) (later : A -> Client Q R (Except E B)) :
    Client Q R (Except E B) :=
  client.andThen fun
    | .ok result => later result
    | .error thrown => .done (.error thrown)

/-- The exchanges of a run, and the result if the run was not cut. -/
def run : Client Q R A -> List (forall request, R request) -> List (Exchange Q R) × Option A
  | .done result, _ => ([], some result)
  | .ask _ _, [] => ([], none)
  | .ask request next, answers :: rest =>
      let (exchanges, result) := (next (answers request)).run rest
      (⟨request, answers request⟩ :: exchanges, result)

/-- Every request is right behind the exchanges in front of it, and `post` holds
of the result and all exchanges. -/
def Asks (right : List (Exchange Q R) -> Q -> Prop) (post : A -> List (Exchange Q R) -> Prop) :
    Client Q R A -> List (Exchange Q R) -> Prop
  | .done result, past => post result past
  | .ask request next, past => right past request ∧ forall answer,
      Asks right post (next answer) (past ++ [⟨request, answer⟩])

variable {right : List (Exchange Q R) -> Q -> Prop} {post : A -> List (Exchange Q R) -> Prop}
  {client : Client Q R A} {past : List (Exchange Q R)}

/-- What a client asks is right in every run. -/
theorem Asks.sound (asks : client.Asks right post past)
    (answers : List (forall request, R request)) :
    (forall before exchange after, (client.run answers).1 = before ++ exchange :: after ->
      right (past ++ before) exchange.request) ∧
    forall result, (client.run answers).2 = some result ->
      post result (past ++ (client.run answers).1) := by
  induction client generalizing past answers with
  | done result =>
      constructor
      · intro before exchange after impossible
        cases before <;> cases impossible
      · intro other same
        cases same
        rw [run, List.append_nil]
        exact asks
  | ask request next inductionHypothesis =>
      cases answers with
      | nil =>
          constructor
          · intro before exchange after impossible
            cases before <;> cases impossible
          · intro result impossible
            cases impossible
      | cons answer answers =>
          have rest := inductionHypothesis _ (asks.2 (answer request)) answers
          rw [List.append_assoc] at rest
          constructor
          · intro before exchange after split
            cases before with
            | nil =>
                rw [run, List.nil_append] at split
                rw [List.append_nil, ← (List.cons.inj split).1]
                exact asks.1
            | cons first before =>
                rw [run, List.cons_append] at split
                have parts := List.cons.inj split
                have later := rest.1 before exchange after parts.2
                rw [← parts.1, ← List.singleton_append, ← List.append_assoc]
                exact later
          · intro result ended
            exact rest.2 result ended

theorem Asks.mono {weaker : A -> List (Exchange Q R) -> Prop} (asks : client.Asks right post past)
    (implies : forall result past, post result past -> weaker result past) :
    client.Asks right weaker past := by
  induction client generalizing past with
  | done result => exact implies result past asks
  | ask request next inductionHypothesis =>
      exact ⟨asks.1, fun answer => inductionHypothesis answer (asks.2 answer)⟩

/-- A client asks what the one behind it needs. -/
theorem asks_andThen {post : B -> List (Exchange Q R) -> Prop} {later : A -> Client Q R B}
    (first : client.Asks right (fun result past => (later result).Asks right post past) past) :
    (client.andThen later).Asks right post past := by
  induction client generalizing past with
  | done result => exact first
  | ask request next inductionHypothesis =>
      exact ⟨first.1, fun answer => inductionHypothesis answer (first.2 answer)⟩

theorem asks_orThrow {client : Client Q R (Except E A)}
    {post : Except E B -> List (Exchange Q R) -> Prop} {later : A -> Client Q R (Except E B)}
    {reached : A -> List (Exchange Q R) -> Prop}
    (first : client.Asks right
      (fun result past => match result with
        | .ok result => reached result past
        | .error thrown => post (.error thrown) past) past)
    (second : forall result past, reached result past -> (later result).Asks right post past) :
    (client.orThrow later).Asks right post past := by
  apply asks_andThen
  apply first.mono
  intro result past held
  cases result with
  | ok result => exact second result past held
  | error thrown => exact held

/-- A run has no more exchanges than it is given answers. -/
theorem length_of_run (answers : List (forall request, R request)) :
    (client.run answers).1.length ≤ answers.length := by
  induction client generalizing answers with
  | done result => exact Nat.zero_le _
  | ask request next inductionHypothesis =>
      cases answers with
      | nil => exact Nat.le_refl 0
      | cons answer answers =>
          exact Nat.succ_le_succ (inductionHypothesis _ answers)

end Client

end Dialogue
end MutinyNet
