import SecretsManager.Js.Promise
import SecretsManager.Js.Text
import SecretsManager.Library.Machine

/-!
# The chains of a project

Tasks of one project run one after the other because each is a reaction of the tail of the one before. The calls
are numbered, and so are their promises. A task can settle at any time after its start, also before its function
has returned, calls can come between any two jobs and while a task's function is on the stack.
-/

namespace SecretsManager

open Js

/-- The two maps of chains. -/
inductive ChainMap where
  | syncChains
  | writeChains
  deriving DecidableEq

structure ChainKey where
  chains : ChainMap
  projectId : JsString
  deriving DecidableEq

/-- The promises of the call `k`: `Promise.resolve()`, `result`, `tail`, what the clean-up is awaited with, and the
promise that its task returns. -/
inductive ChainPromise where
  | resolved (k : Nat)
  | result (k : Nat)
  | tail (k : Nat)
  | cleaned (k : Nat)
  | task (k : Nat)
  deriving DecidableEq

/-- The handlers: the task, the two of the tail, the clean-up, and the resolving functions of a promise. -/
inductive ChainHandler where
  | task (k : Nat)
  | swallow
  | cleanUp (key : ChainKey) (k : Nat)
  | settle (promise : ChainPromise)
  deriving DecidableEq

section Types
variable (α ε : Type)

/-- Where a task is: not yet called, called, or settled. -/
inductive TaskPhase where
  | queued
  | running
  | done (outcome : Except ε α)

structure ChainCall where
  key : ChainKey
  phase : TaskPhase α ε

/-- How a promise is settled; the tails and clean-ups are fulfilled with `undefined`. -/
abbrev Settled := Except ε (Option α)

structure SyncLocks where
  calls : List (ChainCall α ε)
  chains : ChainKey → Option ChainPromise
  promises : Promises ChainPromise ChainHandler (Settled α ε)
  onStack : Option Nat

/-- The task on the stack returns its promise or throws; a running task settles. -/
inductive LockEvent where
  | syncQueueRun (projectId : JsString)
  | projectWriteLocksRun (projectId : JsString)
  | job
  | returns
  | throws (e : ε)
  | settle (k : Nat) (outcome : Except ε α)

end Types

variable {α ε : Type}

def LockEvent.isJob : LockEvent α ε → Bool
  | .job => true
  | _ => false

def settledWith (outcome : Except ε α) : Settled α ε := outcome.map some

namespace SyncLocks

def start : SyncLocks α ε := ⟨[], fun _ => none, .empty, none⟩

def setPhase (s : SyncLocks α ε) (k : Nat) (phase : TaskPhase α ε) : SyncLocks α ε :=
  { s with calls := s.calls.modify k ({ · with phase := phase }) }

/-! ## Calls -/

def runInChain (s : SyncLocks α ε) (key : ChainKey) : SyncLocks α ε :=
  let k := s.calls.length
  let previous := (s.chains key).getD (.resolved k)
  let promises := if (s.chains key).isSome then s.promises else s.promises.settle (.resolved k) (.ok none)
  { s with
    calls := s.calls ++ [⟨key, .queued⟩]
    promises := ((promises.performThen previous ⟨.task k, some (.result k)⟩).performThen (.result k)
      ⟨.swallow, some (.tail k)⟩).performThen (.tail k) ⟨.cleanUp key k, some (.cleaned k)⟩
    chains := Function.update s.chains key (some (.tail k)) }

def syncQueueRun (s : SyncLocks α ε) (projectId : JsString) : SyncLocks α ε := s.runInChain ⟨.syncChains, projectId⟩

/-- The task is called with the advisory lock of the project. -/
def projectWriteLocksRun (s : SyncLocks α ε) (projectId : JsString) : SyncLocks α ε :=
  s.runInChain ⟨.writeChains, projectId⟩

/-! ## Jobs -/

def settleDerived (s : SyncLocks α ε) (derived : Option ChainPromise) (outcome : Settled α ε) : SyncLocks α ε :=
  match derived with
  | some promise => { s with promises := s.promises.settle promise outcome }
  | none => s

/-- The callback of `tail.then`. -/
def cleanUp (s : SyncLocks α ε) (key : ChainKey) (k : Nat) : SyncLocks α ε :=
  if s.chains key = some (.tail k) then { s with chains := Function.update s.chains key none } else s

/-- A task and a clean-up are fulfilment handlers only, and pass a rejection on. -/
def react (s : SyncLocks α ε) (reaction : Reaction ChainPromise ChainHandler) (outcome : Settled α ε) :
    SyncLocks α ε :=
  match reaction.handler, outcome with
  | .task k, .ok _ => { s.setPhase k .running with onStack := some k }
  | .task _, .error e => s.settleDerived reaction.derived (.error e)
  | .swallow, _ => s.settleDerived reaction.derived (.ok none)
  | .cleanUp key k, .ok _ => (s.cleanUp key k).settleDerived reaction.derived (.ok none)
  | .cleanUp _ _, .error e => s.settleDerived reaction.derived (.error e)
  | .settle promise, outcome => { s with promises := s.promises.settle promise outcome }

def runJob (s : SyncLocks α ε) : PromiseJob ChainPromise ChainHandler (Settled α ε) → SyncLocks α ε
  | .react reaction outcome => s.react reaction outcome
  | .adopt promise thenable => { s with promises := s.promises.performThen thenable ⟨.settle promise, none⟩ }

/-! ## Events -/

/-- The next job runs when no function is on the stack. A promise that the task has returned resolves its result
by a job of its own. -/
def step (s : SyncLocks α ε) : LockEvent α ε → Option (SyncLocks α ε)
  | .syncQueueRun projectId => some (s.syncQueueRun projectId)
  | .projectWriteLocksRun projectId => some (s.projectWriteLocksRun projectId)
  | .job =>
      match s.onStack, s.promises.jobs with
      | none, job :: rest => some ({ s with promises := ⟨s.promises.states, rest⟩ }.runJob job)
      | _, _ => none
  | .returns =>
      match s.onStack with
      | some k => some { s with promises := s.promises.enqueue (.adopt (.result k) (.task k)), onStack := none }
      | none => none
  | .throws e =>
      match s.onStack with
      | some k =>
          match s.calls[k]? with
          | some ⟨_, .running⟩ =>
              some { s.setPhase k (.done (.error e)) with
                promises := s.promises.settle (.result k) (.error e)
                onStack := none }
          | _ => none
      | none => none
  | .settle k outcome =>
      match s.calls[k]? with
      | some ⟨_, .running⟩ =>
          some { s.setPhase k (.done outcome) with promises := s.promises.settle (.task k) (settledWith outcome) }
      | _ => none

end SyncLocks

end SecretsManager
