import Mathlib.Logic.Function.Basic

/-!
# Promises

The promises of a program by their names, and the queue of jobs that run their reactions. What a handler does is
the program's; here is only how reactions wait for a promise and become jobs.
-/

namespace SecretsManager.Js

/-- A call of `then`: the handler, and the promise that the call returns. -/
structure Reaction (ι H : Type) where
  handler : H
  derived : Option ι
  deriving DecidableEq

inductive PromiseState (ι H O : Type) where
  | pending (reactions : List (Reaction ι H))
  | settled (outcome : O)

/-- A job runs the handler of a reaction, or lets a promise follow the promise that it was resolved with. -/
inductive PromiseJob (ι H O : Type) where
  | react (reaction : Reaction ι H) (outcome : O)
  | adopt (promise thenable : ι)

structure Promises (ι H O : Type) where
  states : ι → PromiseState ι H O
  jobs : List (PromiseJob ι H O)

namespace Promises

variable {ι H O : Type}

def empty : Promises ι H O := ⟨fun _ => .pending [], []⟩

def enqueue (s : Promises ι H O) (job : PromiseJob ι H O) : Promises ι H O := { s with jobs := s.jobs ++ [job] }

variable [DecidableEq ι]

/-- `promise.then`: the reaction waits for the promise, or is a job at once. -/
def performThen (s : Promises ι H O) (promise : ι) (reaction : Reaction ι H) : Promises ι H O :=
  match s.states promise with
  | .pending reactions => { s with states := Function.update s.states promise (.pending (reactions ++ [reaction])) }
  | .settled outcome => s.enqueue (.react reaction outcome)

/-- A promise is settled once, and its reactions become jobs in their order. -/
def settle (s : Promises ι H O) (promise : ι) (outcome : O) : Promises ι H O :=
  match s.states promise with
  | .pending reactions =>
      { states := Function.update s.states promise (.settled outcome)
        jobs := s.jobs ++ reactions.map fun reaction => .react reaction outcome }
  | .settled _ => s

variable {s : Promises ι H O} {promise : ι} {reaction : Reaction ι H} {reactions : List (Reaction ι H)} {outcome : O}

theorem performThen_pending (h : s.states promise = .pending reactions) : s.performThen promise reaction =
    ⟨Function.update s.states promise (.pending (reactions ++ [reaction])), s.jobs⟩ := by
  rw [performThen, h]

theorem performThen_settled (h : s.states promise = .settled outcome) :
    s.performThen promise reaction = ⟨s.states, s.jobs ++ [.react reaction outcome]⟩ := by
  rw [performThen, h]
  rfl

theorem settle_pending (h : s.states promise = .pending reactions) (outcome : O) : s.settle promise outcome =
    ⟨Function.update s.states promise (.settled outcome),
      s.jobs ++ reactions.map fun reaction => .react reaction outcome⟩ := by
  rw [settle, h]

end Promises

end SecretsManager.Js
