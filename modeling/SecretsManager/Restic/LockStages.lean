import Mathlib.Data.List.Nodup
import SecretsManager.Library.TailChain
import SecretsManager.Restic.SyncLocks

/-!
# The stages of a call

Every call of a chain goes through the same stages, and the promises of a call and its job in the queue are those
of its stage. What a stage does to the other calls of the same key is the matter of `TailChain`.
-/

namespace SecretsManager

open Js

section Types
variable (α ε : Type)

/-- The stages of a call: with its task queued, under way, and done. A task that is on the stack or whose promise
has just been returned can be done already. -/
inductive CallStage where
  | unmade
  | waiting (previous : Nat)
  | ready
  | started (done : Option (Except ε α))
  | adopting (done : Option (Except ε α))
  | adopted
  | settling (outcome : Except ε α)
  | settled (outcome : Except ε α)
  | swallowed (outcome : Except ε α)
  | cleaned (outcome : Except ε α)

abbrev LockState := PromiseState ChainPromise ChainHandler (Settled α ε)

abbrev LockJob := PromiseJob ChainPromise ChainHandler (Settled α ε)

end Types

variable {α ε : Type}

def phaseOfDone : Option (Except ε α) → TaskPhase α ε
  | none => .running
  | some outcome => .done outcome

namespace CallStage

/-! ## What a stage is -/

def mode : CallStage α ε → ChainMode
  | .unmade => .unmade
  | .waiting previous => .waiting previous
  | .ready | .started _ | .adopting _ | .adopted | .settling _ | .settled _ => .active
  | .swallowed _ => .drained
  | .cleaned _ => .cleaned

def phase : CallStage α ε → Option (TaskPhase α ε)
  | .unmade => none
  | .waiting _ | .ready => some .queued
  | .started done | .adopting done => some (phaseOfDone done)
  | .adopted => some .running
  | .settling outcome | .settled outcome | .swallowed outcome | .cleaned outcome => some (.done outcome)

def result (k : Nat) : CallStage α ε → LockState α ε
  | .unmade => .pending []
  | .waiting _ | .ready | .started _ | .adopting _ | .adopted | .settling _ =>
      .pending [⟨.swallow, some (.tail k)⟩]
  | .settled outcome | .swallowed outcome | .cleaned outcome => .settled (settledWith outcome)

/-- The promise of the task matters until the result has followed it. -/
def task (k : Nat) : CallStage α ε → Option (LockState α ε)
  | .unmade | .waiting _ | .ready => some (.pending [])
  | .started done | .adopting done =>
      some (match done with | none => .pending [] | some outcome => .settled (settledWith outcome))
  | .adopted => some (.pending [⟨.settle (.result k), none⟩])
  | .settling _ | .settled _ | .swallowed _ | .cleaned _ => none

def job (key : Nat → ChainKey) (k : Nat) : CallStage α ε → Option (LockJob α ε)
  | .ready => some (.react ⟨.task k, some (.result k)⟩ (.ok none))
  | .adopting _ => some (.adopt (.result k) (.task k))
  | .settling outcome => some (.react ⟨.settle (.result k), none⟩ (settledWith outcome))
  | .settled outcome => some (.react ⟨.swallow, some (.tail k)⟩ (settledWith outcome))
  | .swallowed _ => some (.react ⟨.cleanUp (key k) k, some (.cleaned k)⟩ (.ok none))
  | .unmade | .waiting _ | .started _ | .adopted | .cleaned _ => none

def isOnStack : CallStage α ε → Bool
  | .started _ => true
  | _ => false

/-- The stage of a running task once it has settled. -/
def settles (outcome : Except ε α) : CallStage α ε → CallStage α ε
  | .started none => .started (some outcome)
  | .adopting none => .adopting (some outcome)
  | .adopted => .settling outcome
  | stage => stage

/-- The stage of a call once its result follows the promise of its task. -/
def adopts : Option (Except ε α) → CallStage α ε
  | none => .adopted
  | some outcome => .settling outcome

/-- How many of the jobs of the call have run. -/
def rank : CallStage α ε → Nat
  | .unmade | .waiting _ | .ready => 0
  | .started _ | .adopting _ => 1
  | .adopted | .settling _ => 2
  | .settled _ => 3
  | .swallowed _ => 4
  | .cleaned _ => 5

end CallStage

/-! ## The queue of jobs -/

/-- The jobs are those of the calls' stages, in some order of the calls. -/
structure Queued (key : Nat → ChainKey) (stage : Nat → CallStage α ε) (jobs : List (LockJob α ε)) (order : List Nat) :
    Prop where
  nodup : order.Nodup
  jobs : jobs.map some = order.map fun k => (stage k).job key k
  all : ∀ k, ((stage k).job key k).isSome = true → k ∈ order

/-- The jobs are those of all calls but one. -/
structure QueuedBut (k : Nat) (key : Nat → ChainKey) (stage : Nat → CallStage α ε) (jobs : List (LockJob α ε))
    (order : List Nat) : Prop where
  nodup : order.Nodup
  notMem : k ∉ order
  jobs : jobs.map some = order.map fun k => (stage k).job key k
  all : ∀ i, i ≠ k → ((stage i).job key i).isSome = true → i ∈ order

section Queue
variable {key : Nat → ChainKey} {stage : Nat → CallStage α ε} {jobs : List (LockJob α ε)} {order : List Nat}
  {k : Nat} {job : LockJob α ε}

theorem Queued.but (h : Queued key stage jobs order) (hnone : (stage k).job key k = none) :
    QueuedBut k key stage jobs order where
  nodup := h.nodup
  notMem hk := by
    have hmem : (stage k).job key k ∈ jobs.map some := by
      rw [h.jobs]
      exact List.mem_map_of_mem (f := fun k => (stage k).job key k) hk
    rw [hnone] at hmem
    obtain ⟨job, -, hjob⟩ := List.mem_map.mp hmem
    cases hjob
  jobs := h.jobs
  all i _ := h.all i

/-- The first job is that of a call. -/
theorem Queued.head (h : Queued key stage (job :: jobs) order) :
    ∃ k order', (stage k).job key k = some job ∧ QueuedBut k key stage jobs order' := by
  obtain ⟨hnodup, hjobs, hall⟩ := h
  cases order with
  | nil => cases hjobs
  | cons k order =>
      rw [List.map_cons, List.map_cons] at hjobs
      obtain ⟨hhead, htail⟩ := List.cons.inj hjobs
      obtain ⟨hk, hnodup⟩ := List.nodup_cons.mp hnodup
      exact ⟨k, order, hhead.symm, hnodup, hk, htail, fun i hi hsome =>
        (List.mem_cons.mp (hall i hsome)).resolve_left hi⟩

/-- The call comes to a new stage, with its job behind the others. -/
theorem QueuedBut.put (h : QueuedBut k key stage jobs order) (new : CallStage α ε) :
    ∃ order', Queued key (Function.update stage k new) (jobs ++ (new.job key k).toList) order' := by
  have hkept : ∀ i ∈ order, Function.update stage k new i = stage i := fun i hi =>
    Function.update_of_ne (fun heq : i = k => h.notMem (heq ▸ hi)) ..
  have hjobs : jobs.map some = order.map fun i => (Function.update stage k new i).job key i := by
    rw [h.jobs]
    exact List.map_congr_left fun i hi => by rw [hkept i hi]
  have hall : ∀ i, i ≠ k → ((Function.update stage k new i).job key i).isSome = true → i ∈ order := fun i hi hsome => by
    rw [Function.update_of_ne hi] at hsome
    exact h.all i hi hsome
  cases hnew : new.job key k with
  | none =>
      refine ⟨order, h.nodup, by rw [Option.toList_none, List.append_nil]; exact hjobs, fun i hsome => ?_⟩
      by_cases hi : i = k
      · subst hi
        rw [Function.update_self, hnew] at hsome
        cases hsome
      · exact hall i hi hsome
  | some job =>
      refine ⟨order ++ [k], ?_, ?_, fun i hsome => ?_⟩
      · refine List.nodup_append.mpr ⟨h.nodup, List.nodup_singleton k, fun i hi j hj heq => ?_⟩
        rw [List.mem_singleton.mp hj] at heq
        exact h.notMem (heq ▸ hi)
      · rw [List.map_append, List.map_append, hjobs, Option.toList_some, List.map_singleton, List.map_singleton,
          Function.update_self, hnew]
      · by_cases hi : i = k
        · rw [hi]
          exact List.mem_append_right _ (List.mem_singleton_self k)
        · exact List.mem_append_left _ (hall i hi hsome)

/-- The queue depends on the jobs of the stages only. -/
theorem Queued.congr (h : Queued key stage jobs order) {key' : Nat → ChainKey} {stage' : Nat → CallStage α ε}
    (hjob : ∀ i, (stage' i).job key' i = (stage i).job key i) : Queued key' stage' jobs order where
  nodup := h.nodup
  jobs := by
    rw [h.jobs]
    exact List.map_congr_left fun i _ => (hjob i).symm
  all i hsome := h.all i (by rw [← hjob i]; exact hsome)

end Queue

/-! ## The stages of a state -/

/-- The reactions of the tail of an open call, of which the second lets the next call of the key go. -/
def tailState (c : TailChain ChainKey) (k : Nat) : LockState α ε :=
  match c.mode k with
  | .unmade => .pending []
  | .waiting _ | .active => .pending (⟨.cleanUp (c.key k) k, some (.cleaned k)⟩ ::
      (c.next k).toList.map fun j => ⟨.task j, some (.result j)⟩)
  | .drained | .cleaned => .settled (.ok none)

namespace SyncLocks

structure Follows (s : SyncLocks α ε) (c : TailChain ChainKey) (stage : Nat → CallStage α ε) : Prop where
  linked : c.Linked
  made : c.made = s.calls.length
  entry : ∀ key, s.chains key = (c.entry key).map .tail
  mode : ∀ k, (stage k).mode = c.mode k
  calls : ∀ k : Nat, s.calls[k]? = (stage k).phase.map fun phase => ⟨c.key k, phase⟩
  result : ∀ k, s.promises.states (.result k) = (stage k).result k
  task : ∀ k state, (stage k).task k = some state → s.promises.states (.task k) = state
  tail : ∀ k, s.promises.states (.tail k) = tailState c k
  cleaned : ∀ k, c.mode k ≠ .cleaned → s.promises.states (.cleaned k) = .pending []
  resolved : ∀ k, c.mode k = .unmade → s.promises.states (.resolved k) = .pending []
  onStack : ∀ k, s.onStack = some k ↔ (stage k).isOnStack = true
  queued : ∃ order, Queued c.key stage s.promises.jobs order

theorem follows_start (key : Nat → ChainKey) : Follows (start : SyncLocks α ε) (.empty key) fun _ => .unmade where
  linked := TailChain.linked_empty key
  made := rfl
  entry _ := rfl
  mode _ := rfl
  calls _ := rfl
  result _ := rfl
  task k state h := by
    cases h
    rfl
  tail _ := rfl
  cleaned _ _ := rfl
  resolved _ _ := rfl
  onStack k := ⟨nofun, nofun⟩
  queued := ⟨[], .nil, rfl, fun k h => by cases h⟩

variable {s s' : SyncLocks α ε} {c : TailChain ChainKey} {stage : Nat → CallStage α ε} {k : Nat}

theorem Follows.lt_length (h : Follows s c stage) (hk : (stage k).mode ≠ .unmade) : k < s.calls.length := by
  rw [← h.made]
  exact h.linked.lt_made (by rw [← h.mode k]; exact hk)

/-- A call under way goes on, which concerns the promises of its result and of its task, its phase and the
stack. -/
theorem Follows.advance (h : Follows s c stage) {new : CallStage α ε} (hold : (stage k).mode = .active)
    (hnew : new.mode = .active) (hlength : s'.calls.length = s.calls.length) (hchains : s'.chains = s.chains)
    (hcalls : ∀ i : Nat, s'.calls[i]? = (Function.update stage k new i).phase.map fun phase => ⟨c.key i, phase⟩)
    (hresult : s'.promises.states (.result k) = new.result k)
    (htask : ∀ state, new.task k = some state → s'.promises.states (.task k) = state)
    (hstates : ∀ p, p ≠ .result k → p ≠ .task k → s'.promises.states p = s.promises.states p)
    (hstack : ∀ i, s'.onStack = some i ↔ (Function.update stage k new i).isOnStack = true)
    (hqueued : ∃ order, Queued c.key (Function.update stage k new) s'.promises.jobs order) :
    Follows s' c (Function.update stage k new) where
  linked := h.linked
  made := h.made.trans hlength.symm
  entry key := by rw [hchains, h.entry]
  mode i := by
    by_cases hi : i = k
    · subst hi
      rw [Function.update_self, hnew, ← h.mode, hold]
    · rw [Function.update_of_ne hi, h.mode]
  calls := hcalls
  result i := by
    by_cases hi : i = k
    · subst hi
      rw [Function.update_self, hresult]
    · rw [Function.update_of_ne hi, hstates (.result i) (fun heq => hi (ChainPromise.result.inj heq)) nofun, h.result]
  task i state hstate := by
    by_cases hi : i = k
    · subst hi
      rw [Function.update_self] at hstate
      exact htask state hstate
    · rw [Function.update_of_ne hi] at hstate
      rw [hstates (.task i) nofun fun heq => hi (ChainPromise.task.inj heq)]
      exact h.task i state hstate
  tail i := by rw [hstates (.tail i) nofun nofun, h.tail]
  cleaned i hi := by rw [hstates (.cleaned i) nofun nofun, h.cleaned i hi]
  resolved i hi := by rw [hstates (.resolved i) nofun nofun, h.resolved i hi]
  onStack := hstack
  queued := hqueued

/-- A call under way goes on and only the promise of its task changes. -/
theorem Follows.advance_task (h : Follows s c stage) {new : CallStage α ε}
    {state : PromiseState ChainPromise ChainHandler (Settled α ε)} (hold : (stage k).mode = .active)
    (hnew : new.mode = .active) (hlength : s'.calls.length = s.calls.length) (hchains : s'.chains = s.chains)
    (hcalls : ∀ i : Nat, s'.calls[i]? = (Function.update stage k new i).phase.map fun phase => ⟨c.key i, phase⟩)
    (hstates : s'.promises.states = Function.update s.promises.states (.task k) state)
    (hresult : (stage k).result k = new.result k) (htask : ∀ state', new.task k = some state' → state' = state)
    (hstack : ∀ i, s'.onStack = some i ↔ (Function.update stage k new i).isOnStack = true)
    (hqueued : ∃ order, Queued c.key (Function.update stage k new) s'.promises.jobs order) :
    Follows s' c (Function.update stage k new) := by
  refine h.advance hold hnew hlength hchains hcalls ?_ (fun state' hstate => ?_) (fun p _ hp => ?_) hstack hqueued
  · rw [hstates, Function.update_of_ne (show ChainPromise.result k ≠ .task k from nofun), h.result, hresult]
  · rw [hstates, htask state' hstate, Function.update_self]
  · rw [hstates, Function.update_of_ne hp]

/-- The calls after a change of the phase of one of them. -/
theorem Follows.calls_setPhase (h : Follows s c stage) {new : CallStage α ε} {phase : TaskPhase α ε}
    (hmade : (stage k).mode ≠ .unmade) (hphase : new.phase = some phase) (i : Nat) :
    (s.setPhase k phase).calls[i]? = (Function.update stage k new i).phase.map fun phase => ⟨c.key i, phase⟩ := by
  have hk := h.lt_length hmade
  unfold setPhase
  dsimp only
  rw [List.getElem?_modify, h.calls i]
  by_cases hi : i = k
  · subst hi
    rw [Function.update_self, hphase]
    cases hold : (stage i).phase with
    | none =>
        have hnone := h.calls i
        rw [hold] at hnone
        exact absurd hk (Nat.not_lt_of_le (List.getElem?_eq_none_iff.mp hnone))
    | some old => simp
  · rw [Function.update_of_ne hi]
    cases (stage i).phase with
    | none => rfl
    | some old => simp [Ne.symm hi]

/-- The calls stay with a stage of the same phase. -/
theorem Follows.calls_same (h : Follows s c stage) {new : CallStage α ε} (hphase : new.phase = (stage k).phase)
    (i : Nat) : s.calls[i]? = (Function.update stage k new i).phase.map fun phase => ⟨c.key i, phase⟩ := by
  by_cases hi : i = k
  · subst hi
    rw [Function.update_self, hphase, h.calls]
  · rw [Function.update_of_ne hi, h.calls]

/-- Nothing is on the stack after a step that takes its call away. -/
theorem Follows.stack_none (h : Follows s c stage) {new : CallStage α ε} (hstack : s.onStack = none ∨ s.onStack = some k)
    (hnew : new.isOnStack = false) (i : Nat) :
    (none : Option Nat) = some i ↔ (Function.update stage k new i).isOnStack = true := by
  refine iff_of_false nofun fun hon => ?_
  by_cases hi : i = k
  · subst hi
    rw [Function.update_self, hnew] at hon
    cases hon
  · rw [Function.update_of_ne hi, ← h.onStack] at hon
    rcases hstack with hnone | hsome
    · rw [hnone] at hon
      cases hon
    · rw [hsome] at hon
      exact hi (Option.some.inj hon).symm

/-! ## The steps of a task -/

theorem follows_returns (h : Follows s c stage) {done : Option (Except ε α)} (hk : s.onStack = some k)
    (hstage : stage k = .started done) : Follows
      { s with promises := s.promises.enqueue (.adopt (.result k) (.task k)), onStack := none } c
      (Function.update stage k (.adopting done)) := by
  obtain ⟨order, hqueued⟩ := h.queued
  have hresult := h.result k
  have htask := h.task k
  rw [hstage] at hresult htask
  exact h.advance (by rw [hstage]; rfl) rfl rfl rfl (h.calls_same (by rw [hstage]; rfl)) hresult htask
    (fun _ _ _ => rfl) (h.stack_none (Or.inr hk) rfl) ((hqueued.but (by rw [hstage]; rfl)).put (.adopting done))

theorem follows_throws (h : Follows s c stage) {e : ε} (hk : s.onStack = some k) (hstage : stage k = .started none) :
    Follows
      { s.setPhase k (.done (.error e)) with promises := s.promises.settle (.result k) (.error e), onStack := none } c
      (Function.update stage k (.settled (.error e))) := by
  obtain ⟨order, hqueued⟩ := h.queued
  have hresult := h.result k
  rw [hstage] at hresult
  rw [Promises.settle_pending hresult]
  refine h.advance (by rw [hstage]; rfl) rfl (List.length_modify ..) rfl
    (h.calls_setPhase (by rw [hstage]; nofun) rfl) (Function.update_self ..) nofun
    (fun p hp _ => Function.update_of_ne hp ..) (h.stack_none (Or.inr hk) rfl) ?_
  exact (hqueued.but (by rw [hstage]; rfl)).put (.settled (.error e))

/-- The stack after a step that leaves it alone. -/
theorem Follows.stack_same (h : Follows s c stage) {new : CallStage α ε}
    (hnew : new.isOnStack = (stage k).isOnStack) (i : Nat) :
    s.onStack = some i ↔ (Function.update stage k new i).isOnStack = true := by
  rw [h.onStack]
  by_cases hi : i = k
  · subst hi
    rw [Function.update_self, hnew]
  · rw [Function.update_of_ne hi]

theorem follows_settle (h : Follows s c stage) (hphase : (stage k).phase = some .running) (outcome : Except ε α) :
    Follows { s.setPhase k (.done outcome) with promises := s.promises.settle (.task k) (settledWith outcome) } c
      (Function.update stage k ((stage k).settles outcome)) := by
  obtain ⟨order, hqueued⟩ := h.queued
  have htask := h.task k
  have hlength : (s.setPhase k (.done outcome)).calls.length = s.calls.length := List.length_modify ..
  cases hstage : stage k with
  | unmade | waiting _ | ready | settling _ | settled _ | swallowed _ | cleaned _ =>
      rw [hstage] at hphase
      cases hphase
  | started done =>
      rw [hstage] at hphase htask
      cases done with
      | some _ => cases hphase
      | none =>
          rw [Promises.settle_pending (htask _ rfl)]
          refine h.advance_task (by rw [hstage]; rfl) rfl hlength rfl (h.calls_setPhase (by rw [hstage]; nofun) rfl) rfl
            (by rw [hstage]; rfl) ?_ (h.stack_same (by rw [hstage]; rfl)) ?_
          · rintro _ ⟨⟩
            rfl
          · exact (hqueued.but (by rw [hstage]; rfl)).put (.started (some outcome))
  | adopting done =>
      rw [hstage] at hphase htask
      cases done with
      | some _ => cases hphase
      | none =>
          rw [Promises.settle_pending (htask _ rfl)]
          refine h.advance_task (by rw [hstage]; rfl) rfl hlength rfl (h.calls_setPhase (by rw [hstage]; nofun) rfl) rfl
            (by rw [hstage]; rfl) ?_ (h.stack_same (by rw [hstage]; rfl)) ?_
          · rintro _ ⟨⟩
            rfl
          · -- the job that adopts the promise stays in its place
            rw [List.map_nil, List.append_nil]
            refine ⟨order, hqueued.congr fun i => ?_⟩
            by_cases hi : i = k
            · subst hi
              rw [Function.update_self, hstage]
              rfl
            · rw [Function.update_of_ne hi]
  | adopted =>
      rw [hstage] at htask
      rw [Promises.settle_pending (htask _ rfl)]
      refine h.advance_task (by rw [hstage]; rfl) rfl hlength rfl (h.calls_setPhase (by rw [hstage]; nofun) rfl) rfl
        (by rw [hstage]; rfl) nofun (h.stack_same (by rw [hstage]; rfl)) ?_
      exact (hqueued.but (by rw [hstage]; rfl)).put (.settling outcome)

/-! ## The jobs of a call under way -/

section Jobs
variable {rest : List (LockJob α ε)} {order : List Nat}

/-- The state whose first job has been taken. -/
abbrev taken (s : SyncLocks α ε) (rest : List (LockJob α ε)) : SyncLocks α ε :=
  { s with promises := ⟨s.promises.states, rest⟩ }

theorem follows_start_task (h : Follows s c stage) (hstack : s.onStack = none) (hstage : stage k = .ready)
    (hqueued : QueuedBut k c.key stage rest order) : Follows
      ((s.taken rest).runJob (.react ⟨.task k, some (.result k)⟩ (.ok none))) c
      (Function.update stage k (.started none)) := by
  have hresult := h.result k
  have htask := h.task k
  rw [hstage] at hresult htask
  refine h.advance (by rw [hstage]; rfl) rfl (List.length_modify ..) rfl
    (h.calls_setPhase (by rw [hstage]; nofun) rfl) hresult htask (fun _ _ _ => rfl) (fun i => ?_) ?_
  · by_cases hi : i = k
    · subst hi
      rw [Function.update_self]
      exact iff_of_true rfl rfl
    · rw [Function.update_of_ne hi, ← h.onStack, hstack]
      exact iff_of_false (fun heq => hi (Option.some.inj heq).symm) nofun
  · have hput := hqueued.put (.started none)
    rw [CallStage.job, Option.toList_none, List.append_nil] at hput
    exact hput

theorem follows_adopt (h : Follows s c stage) {done : Option (Except ε α)} (hstage : stage k = .adopting done)
    (hqueued : QueuedBut k c.key stage rest order) : Follows
      ((s.taken rest).runJob (.adopt (.result k) (.task k))) c
      (Function.update stage k (.adopts done)) := by
  have hresult := h.result k
  have htask := h.task k
  rw [hstage] at hresult htask
  have hjob : (s.taken rest).runJob (.adopt (.result k) (.task k)) =
      { s with promises := (s.taken rest).promises.performThen (.task k) ⟨.settle (.result k), none⟩ } := rfl
  rw [hjob]
  cases done with
  | none =>
      have hpending : (s.taken rest).promises.states (.task k) = .pending [] := htask _ rfl
      rw [Promises.performThen_pending hpending]
      refine h.advance_task (by rw [hstage]; rfl) rfl rfl rfl (h.calls_same (by rw [hstage]; rfl)) rfl
        (by rw [hstage]; rfl) ?_ (h.stack_same (by rw [hstage]; rfl)) ?_
      · rintro _ ⟨⟩
        rfl
      · have hput := hqueued.put .adopted
        rw [CallStage.job, Option.toList_none, List.append_nil] at hput
        exact hput
  | some outcome =>
      have hsettled : (s.taken rest).promises.states (.task k) = .settled (settledWith outcome) := htask _ rfl
      rw [Promises.performThen_settled hsettled]
      exact h.advance (by rw [hstage]; rfl) rfl rfl rfl (h.calls_same (by rw [hstage]; rfl)) hresult nofun
        (fun _ _ _ => rfl) (h.stack_same (by rw [hstage]; rfl)) (hqueued.put (.settling outcome))

theorem follows_settle_result (h : Follows s c stage) {outcome : Except ε α} (hstage : stage k = .settling outcome)
    (hqueued : QueuedBut k c.key stage rest order) : Follows
      ((s.taken rest).runJob (.react ⟨.settle (.result k), none⟩ (settledWith outcome))) c
      (Function.update stage k (.settled outcome)) := by
  have hresult := h.result k
  rw [hstage] at hresult
  have hpending : (s.taken rest).promises.states (.result k) = .pending [⟨.swallow, some (.tail k)⟩] := hresult
  have hjob : (s.taken rest).runJob (.react ⟨.settle (.result k), none⟩ (settledWith outcome)) =
      { s with promises := (s.taken rest).promises.settle (.result k) (settledWith outcome) } := rfl
  rw [hjob, Promises.settle_pending hpending]
  exact h.advance (by rw [hstage]; rfl) rfl rfl rfl (h.calls_same (by rw [hstage]; rfl)) (Function.update_self ..)
    nofun (fun p hp _ => Function.update_of_ne hp ..) (h.stack_same (by rw [hstage]; rfl))
    (hqueued.put (.settled outcome))

end Jobs

/-! ## Tails and clean-ups -/

/-- The stages differ in the chain only. -/
structure SameTask (k : Nat) (stage stage' : CallStage α ε) : Prop where
  phase : stage'.phase = stage.phase
  result : stage'.result k = stage.result k
  task : ∀ state, stage'.task k = some state → stage.task k = some state
  isOnStack : stage'.isOnStack = stage.isOnStack

theorem SameTask.refl (k : Nat) (stage : CallStage α ε) : SameTask k stage stage := ⟨rfl, rfl, fun _ h => h, rfl⟩

/-- Calls change their places in the chains, which concerns the promises of tails and clean-ups. -/
theorem Follows.relink (h : Follows s c stage) {c' : TailChain ChainKey} {stage' : Nat → CallStage α ε}
    (hlinked : c'.Linked) (hmade : c'.made = c.made) (hkey : c'.key = c.key) (hcalls : s'.calls = s.calls)
    (hstack : s'.onStack = s.onStack) (hsame : ∀ i, SameTask i (stage i) (stage' i))
    (hentry : ∀ key, s'.chains key = (c'.entry key).map .tail) (hmode : ∀ i, (stage' i).mode = c'.mode i)
    (hstates : ∀ p, (∀ i, p ≠ .tail i) → (∀ i, p ≠ .cleaned i) → s'.promises.states p = s.promises.states p)
    (htail : ∀ i, s'.promises.states (.tail i) = tailState c' i)
    (hcleaned : ∀ i, c'.mode i ≠ .cleaned → s'.promises.states (.cleaned i) = .pending [])
    (hqueued : ∃ order, Queued c'.key stage' s'.promises.jobs order) : Follows s' c' stage' where
  linked := hlinked
  made := by rw [hmade, hcalls, h.made]
  entry := hentry
  mode := hmode
  calls i := by rw [hcalls, h.calls, (hsame i).phase, hkey]
  result i := by rw [hstates (.result i) nofun nofun, h.result, (hsame i).result]
  task i state hstate := by
    rw [hstates (.task i) nofun nofun]
    exact h.task i state ((hsame i).task state hstate)
  tail := htail
  cleaned := hcleaned
  resolved i hi := by
    rw [hstates (.resolved i) nofun nofun]
    rw [hlinked.made, hmade, ← h.linked.made] at hi
    exact h.resolved i hi
  onStack i := by rw [hstack, h.onStack, (hsame i).isOnStack]
  queued := hqueued

theorem stage_eq_waiting {stage : CallStage α ε} {j : Nat} (h : stage.mode = .waiting j) : stage = .waiting j := by
  cases stage with
  | waiting previous =>
      cases h
      rfl
  | unmade | ready | started _ | adopting _ | adopted | settling _ | settled _ | swallowed _ | cleaned _ => cases h

/-- The stages once the tail of the call is settled: the call behind it is ready. -/
def drained (c : TailChain ChainKey) (stage : Nat → CallStage α ε) (k : Nat) (outcome : Except ε α) :
    Nat → CallStage α ε :=
  match c.next k with
  | some j => Function.update (Function.update stage k (.swallowed outcome)) j .ready
  | none => Function.update stage k (.swallowed outcome)

section Tails
variable {rest : List (LockJob α ε)} {order : List Nat} {outcome : Except ε α}

theorem drained_cases (h : Follows s c stage) (hstage : stage k = .settled outcome) (i : Nat) :
    i = k ∧ c.next k ≠ some i ∧ drained c stage k outcome i = .swallowed outcome ∨
      i ≠ k ∧ c.next k = some i ∧ stage i = .waiting k ∧ drained c stage k outcome i = .ready ∨
      i ≠ k ∧ c.next k ≠ some i ∧ drained c stage k outcome i = stage i := by
  have hbehind : ∀ j, c.next k = some j → k < j ∧ stage j = .waiting k := fun j hj => by
    obtain ⟨hlt, -, hwaits⟩ := h.linked.next k j hj
    refine ⟨hlt, stage_eq_waiting ?_⟩
    rw [h.mode]
    refine hwaits ?_
    rw [← h.mode, hstage]
    rfl
  unfold drained
  cases hnext : c.next k with
  | none =>
      by_cases hi : i = k
      · subst hi
        exact Or.inl ⟨rfl, nofun, Function.update_self ..⟩
      · exact Or.inr (Or.inr ⟨hi, nofun, Function.update_of_ne hi ..⟩)
  | some j =>
      obtain ⟨hlt, hwaiting⟩ := hbehind j hnext
      dsimp only
      by_cases hij : i = j
      · subst hij
        exact Or.inr (Or.inl ⟨Nat.ne_of_gt hlt, rfl, hwaiting, Function.update_self ..⟩)
      · rw [Function.update_of_ne hij]
        by_cases hi : i = k
        · subst hi
          exact Or.inl ⟨rfl, fun heq => hij (Option.some.inj heq).symm, Function.update_self ..⟩
        · exact Or.inr (Or.inr ⟨hi, fun heq => hij (Option.some.inj heq).symm, Function.update_of_ne hi ..⟩)

theorem follows_swallow (h : Follows s c stage) (hstage : stage k = .settled outcome)
    (hqueued : QueuedBut k c.key stage rest order) : Follows
      ((s.taken rest).runJob (.react ⟨.swallow, some (.tail k)⟩ (settledWith outcome))) (c.drain k)
      (drained c stage k outcome) := by
  have hactive : c.mode k = .active := by
    rw [← h.mode, hstage]
    rfl
  have hlinked := h.linked.drain hactive
  have htail := h.tail k
  rw [tailState, hactive] at htail
  have hpending : (s.taken rest).promises.states (.tail k) = .pending _ := htail
  have hjob : (s.taken rest).runJob (.react ⟨.swallow, some (.tail k)⟩ (settledWith outcome)) =
      { s with promises := (s.taken rest).promises.settle (.tail k) (.ok none) } := rfl
  rw [hjob, Promises.settle_pending hpending]
  have hmode : ∀ i, (drained c stage k outcome i).mode = (c.drain k).mode i := fun i => by
    rw [TailChain.mode_drain]
    rcases drained_cases h hstage i with ⟨rfl, hnext, hnew⟩ | ⟨-, hnext, -, hnew⟩ | ⟨hi, hnext, hnew⟩
    · rw [hnew, if_neg hnext, if_pos rfl]
      rfl
    · rw [hnew, if_pos hnext]
      rfl
    · rw [hnew, if_neg hnext, if_neg hi, h.mode]
  refine h.relink hlinked rfl rfl rfl rfl (fun i => ?_) h.entry hmode
    (fun p hp _ => Function.update_of_ne (hp k) ..) (fun i => ?_) (fun i hi => ?_) ?_
  · rcases drained_cases h hstage i with ⟨rfl, -, hnew⟩ | ⟨-, -, hold, hnew⟩ | ⟨-, -, hnew⟩
    · rw [hnew, hstage]
      exact ⟨rfl, rfl, nofun, rfl⟩
    · rw [hnew, hold]
      exact ⟨rfl, rfl, fun _ h => h, rfl⟩
    · rw [hnew]
      exact .refl i _
  · dsimp only
    rw [tailState, ← hmode]
    rcases drained_cases h hstage i with ⟨rfl, -, hnew⟩ | ⟨hi, -, hold, hnew⟩ | ⟨hi, -, hnew⟩
    · rw [Function.update_self, hnew]
      rfl
    · have hwaits := h.tail i
      rw [tailState, ← h.mode, hold] at hwaits
      rw [Function.update_of_ne (fun heq => hi (ChainPromise.tail.inj heq)), hnew]
      exact hwaits
    · have hsame := h.tail i
      rw [tailState, ← h.mode] at hsame
      rw [Function.update_of_ne (fun heq => hi (ChainPromise.tail.inj heq)), hnew]
      exact hsame
  · dsimp only
    rw [Function.update_of_ne (show ChainPromise.cleaned i ≠ .tail k from nofun)]
    refine h.cleaned i fun hcleaned => hi ?_
    rw [← hmode]
    rw [← h.mode] at hcleaned
    rcases drained_cases h hstage i with ⟨rfl, -, -⟩ | ⟨-, -, hold, -⟩ | ⟨-, -, hnew⟩
    · rw [hstage] at hcleaned
      cases hcleaned
    · rw [hold] at hcleaned
      cases hcleaned
    · rw [hnew]
      exact hcleaned
  · obtain ⟨order', hput⟩ := hqueued.put (.swallowed outcome)
    unfold drained
    cases hnext : c.next k with
    | none => exact ⟨order', hput⟩
    | some j =>
        have hwaiting : (Function.update stage k (.swallowed outcome) j).job c.key j = none := by
          rcases drained_cases h hstage j with ⟨rfl, hne, -⟩ | ⟨hj, -, hold, -⟩ | ⟨-, hne, -⟩
          · exact absurd hnext hne
          · rw [Function.update_of_ne hj, hold]
            rfl
          · exact absurd hnext hne
        have hboth := (hput.but hwaiting).put .ready
        rw [List.append_assoc] at hboth
        exact hboth

theorem follows_cleanUp (h : Follows s c stage) (hstage : stage k = .swallowed outcome)
    (hqueued : QueuedBut k c.key stage rest order) : Follows
      ((s.taken rest).runJob (.react ⟨.cleanUp (c.key k) k, some (.cleaned k)⟩ (.ok none))) (c.clean k)
      (Function.update stage k (.cleaned outcome)) := by
  have hmode : c.mode k = .drained := by
    rw [← h.mode, hstage]
    rfl
  have hlinked := h.linked.clean hmode
  have hpending : (s.taken rest).promises.states (.cleaned k) = .pending [] :=
    h.cleaned k (by rw [hmode]; nofun)
  have hchains : s.chains (c.key k) = some (.tail k) ↔ c.entry (c.key k) = some k := by
    rw [h.entry, Option.map_eq_some_iff]
    exact ⟨fun ⟨_, hentry, heq⟩ => (ChainPromise.tail.inj heq) ▸ hentry, fun hentry => ⟨k, hentry, rfl⟩⟩
  have hjob : (s.taken rest).runJob (.react ⟨.cleanUp (c.key k) k, some (.cleaned k)⟩ (.ok none)) =
      { s with
        chains := if c.entry (c.key k) = some k then Function.update s.chains (c.key k) none else s.chains
        promises := (s.taken rest).promises.settle (.cleaned k) (.ok none) } := by
    show ((s.taken rest).cleanUp (c.key k) k).settleDerived (some (.cleaned k)) (.ok none) = _
    unfold cleanUp
    rw [if_congr hchains rfl rfl]
    split_ifs <;> rfl
  rw [hjob, Promises.settle_pending hpending, List.map_nil, List.append_nil]
  have hstates : ∀ p, (∀ i, p ≠ .cleaned i) →
      Function.update s.promises.states (.cleaned k) (.settled (.ok none)) p = s.promises.states p :=
    fun p hp => Function.update_of_ne (hp k) ..
  refine h.relink hlinked rfl rfl rfl rfl (fun i => ?_) (fun key => ?_) (fun i => ?_) (fun p _ hp => hstates p hp)
    (fun i => ?_) (fun i hi => ?_) ?_
  · by_cases hi : i = k
    · subst hi
      rw [Function.update_self, hstage]
      exact ⟨rfl, rfl, nofun, rfl⟩
    · rw [Function.update_of_ne hi]
      exact .refl i _
  · unfold TailChain.clean
    dsimp only
    split_ifs
    · by_cases hkey : key = c.key k
      · rw [hkey, Function.update_self, Function.update_self]
        rfl
      · rw [Function.update_of_ne hkey, Function.update_of_ne hkey, h.entry]
    · exact h.entry key
  · unfold TailChain.clean
    dsimp only
    by_cases hi : i = k
    · rw [hi, Function.update_self, Function.update_self]
      rfl
    · rw [Function.update_of_ne hi, Function.update_of_ne hi, h.mode]
  · dsimp only
    rw [hstates (.tail i) nofun, h.tail]
    unfold tailState TailChain.clean
    dsimp only
    by_cases hi : i = k
    · rw [hi, Function.update_self, hmode]
    · rw [Function.update_of_ne hi]
  · have hik : i ≠ k := by
      rintro rfl
      exact hi (Function.update_self ..)
    dsimp only
    rw [Function.update_of_ne (fun heq => hik (ChainPromise.cleaned.inj heq))]
    refine h.cleaned i fun hcleaned => hi ?_
    rw [← hcleaned]
    exact Function.update_of_ne hik ..
  · have hput := hqueued.put (.cleaned outcome)
    rw [CallStage.job, Option.toList_none, List.append_nil] at hput
    exact hput

end Tails

/-! ## Calls -/

/-- The stage that a call of the key comes in. -/
def firstStage (c : TailChain ChainKey) (key : ChainKey) : CallStage α ε :=
  match c.previous key with
  | some previous => .waiting previous
  | none => .ready

/-- The promises once the task is a reaction of the tail before it. -/
structure Chained (s : SyncLocks α ε) (c : TailChain ChainKey) (key : ChainKey)
    (promises : Promises ChainPromise ChainHandler (Settled α ε)) : Prop where
  jobs : promises.jobs = s.promises.jobs ++ ((firstStage c key : CallStage α ε).job c.key s.calls.length).toList
  behind : ∀ previous, c.previous key = some previous → promises.states (.tail previous) =
    .pending [⟨.cleanUp key previous, some (.cleaned previous)⟩,
      ⟨.task s.calls.length, some (.result s.calls.length)⟩]
  states : ∀ p, p ≠ .resolved s.calls.length → (∀ previous, c.previous key = some previous → p ≠ .tail previous) →
    promises.states p = s.promises.states p

theorem chained_performThen (h : Follows s c stage) (key : ChainKey) : Chained s c key
    ((if (s.chains key).isSome then s.promises else s.promises.settle (.resolved s.calls.length) (.ok none)).performThen
      ((s.chains key).getD (.resolved s.calls.length)) ⟨.task s.calls.length, some (.result s.calls.length)⟩) := by
  have hunmade : c.mode s.calls.length = .unmade := (h.linked.made _).mpr (Nat.le_of_eq h.made)
  rw [h.entry]
  cases hentry : c.entry key with
  | none =>
      have hnone : c.previous key = none := by
        unfold TailChain.previous
        rw [hentry]
        rfl
      have hpending := h.resolved _ hunmade
      rw [Option.map_none, if_neg (by nofun), Option.getD_none, Promises.settle_pending hpending,
        Promises.performThen_settled (Function.update_self ..)]
      refine ⟨?_, fun previous hsome => ?_, fun p hp _ => Function.update_of_ne hp ..⟩
      · unfold firstStage
        rw [hnone, List.map_nil, List.append_nil]
        rfl
      · rw [hnone] at hsome
        cases hsome
  | some previous =>
      obtain ⟨hkey, hlt, hclean, -⟩ := h.linked.entry key previous hentry
      have htail := h.tail previous
      rw [Option.map_some, if_pos Option.isSome_some, Option.getD_some]
      cases hopen : (c.mode previous).isOpen with
      | true =>
          have hsome : c.previous key = some previous := TailChain.previous_eq_some.mpr ⟨hentry, hopen⟩
          have hpending : s.promises.states (.tail previous) =
              .pending [⟨.cleanUp key previous, some (.cleaned previous)⟩] := by
            rw [htail, tailState, h.linked.next_of_entry hentry hopen, hkey]
            cases hmode : c.mode previous with
            | waiting _ | active => rfl
            | unmade | drained | cleaned =>
                rw [hmode] at hopen
                cases hopen
          rw [Promises.performThen_pending hpending]
          refine ⟨?_, fun previous' hprevious' => ?_, fun p _ hp => Function.update_of_ne (hp previous hsome) ..⟩
          · unfold firstStage
            rw [hsome]
            exact (List.append_nil _).symm
          · rw [hsome] at hprevious'
            cases hprevious'
            exact Function.update_self ..
      | false =>
          have hnone : c.previous key = none := by
            unfold TailChain.previous
            rw [hentry, Option.filter_some, hopen]
            rfl
          have hmode : c.mode previous = .drained := by
            have hmade : c.mode previous ≠ .unmade := fun hun => absurd ((h.linked.made previous).mp hun) (Nat.not_le_of_lt hlt)
            cases hmode : c.mode previous with
            | drained => rfl
            | unmade => exact absurd hmode hmade
            | cleaned => exact absurd hmode hclean
            | waiting _ | active =>
                rw [hmode] at hopen
                cases hopen
          rw [tailState, hmode] at htail
          rw [Promises.performThen_settled htail]
          refine ⟨?_, fun previous' hsome => ?_, fun p _ _ => rfl⟩
          · unfold firstStage
            rw [hnone]
            rfl
          · rw [hnone] at hsome
            cases hsome

theorem stage_eq_unmade {stage : CallStage α ε} (h : stage.mode = .unmade) : stage = .unmade := by
  cases stage with
  | unmade => rfl
  | waiting _ | ready | started _ | adopting _ | adopted | settling _ | settled _ | swallowed _ | cleaned _ => cases h

/-- The promises of a new call beside those of before. -/
structure Called (s : SyncLocks α ε) (c : TailChain ChainKey) (key : ChainKey)
    (promises : Promises ChainPromise ChainHandler (Settled α ε)) : Prop where
  jobs : promises.jobs = s.promises.jobs ++ ((firstStage c key : CallStage α ε).job c.key s.calls.length).toList
  result : promises.states (.result s.calls.length) = .pending [⟨.swallow, some (.tail s.calls.length)⟩]
  tail : promises.states (.tail s.calls.length) =
    .pending [⟨.cleanUp key s.calls.length, some (.cleaned s.calls.length)⟩]
  behind : ∀ previous, c.previous key = some previous → promises.states (.tail previous) =
    .pending [⟨.cleanUp key previous, some (.cleaned previous)⟩,
      ⟨.task s.calls.length, some (.result s.calls.length)⟩]
  states : ∀ p, p ≠ .resolved s.calls.length → p ≠ .result s.calls.length → p ≠ .tail s.calls.length →
    (∀ previous, c.previous key = some previous → p ≠ .tail previous) → promises.states p = s.promises.states p

theorem Chained.called {key : ChainKey} {promises : Promises ChainPromise ChainHandler (Settled α ε)}
    (hchained : Chained s c key promises) (h : Follows s c stage) : Called s c key
      ((promises.performThen (.result s.calls.length) ⟨.swallow, some (.tail s.calls.length)⟩).performThen
        (.tail s.calls.length) ⟨.cleanUp key s.calls.length, some (.cleaned s.calls.length)⟩) := by
  have hunmade : c.mode s.calls.length = .unmade := (h.linked.made _).mpr (Nat.le_of_eq h.made)
  have hstage := stage_eq_unmade ((h.mode s.calls.length).trans hunmade)
  have hlt : ∀ previous, c.previous key = some previous → previous ≠ s.calls.length := fun previous hprevious => by
    rw [← h.made]
    exact Nat.ne_of_lt (h.linked.entry key previous (TailChain.previous_eq_some.mp hprevious).1).2.1
  have hresult : promises.states (.result s.calls.length) = .pending [] := by
    rw [hchained.states (.result s.calls.length) nofun fun _ _ => nofun, h.result, hstage]
    rfl
  have htail : promises.states (.tail s.calls.length) = .pending [] := by
    rw [hchained.states (.tail s.calls.length) nofun fun previous hprevious heq =>
      hlt previous hprevious (ChainPromise.tail.inj heq).symm, h.tail, tailState, hunmade]
  have hne : ChainPromise.tail s.calls.length ≠ .result s.calls.length := nofun
  rw [Promises.performThen_pending hresult]
  rw [← Function.update_of_ne hne (.pending [⟨.swallow, some (.tail s.calls.length)⟩]) promises.states] at htail
  have htail' : (⟨Function.update promises.states (.result s.calls.length)
      (.pending [⟨.swallow, some (.tail s.calls.length)⟩]), promises.jobs⟩ : Promises _ _ _).states
      (.tail s.calls.length) = .pending [] := htail
  rw [List.nil_append, Promises.performThen_pending htail']
  refine ⟨hchained.jobs, ?_, Function.update_self .., fun previous hprevious => ?_, fun p hp₁ hp₂ hp₃ hp₄ => ?_⟩
  · dsimp only
    rw [Function.update_of_ne hne.symm, Function.update_self]
  · dsimp only
    rw [Function.update_of_ne (fun heq => hlt previous hprevious (ChainPromise.tail.inj heq)),
      Function.update_of_ne (show ChainPromise.tail previous ≠ .result s.calls.length from nofun)]
    exact hchained.behind previous hprevious
  · dsimp only
    rw [Function.update_of_ne hp₃, Function.update_of_ne hp₂]
    exact hchained.states p hp₁ hp₄

/-- The tails of the state are those of the chains. -/
theorem Called.tails {key : ChainKey} {promises : Promises ChainPromise ChainHandler (Settled α ε)}
    (hcalled : Called s c key promises) (h : Follows s c stage) (i : Nat) :
    promises.states (.tail i) = tailState (c.call key) i := by
  have hmade := h.made
  rw [tailState, TailChain.next_call]
  by_cases hi : i = c.made
  · have hprevious : c.previous key ≠ some i := fun hprevious => by
      rw [hi] at hprevious
      exact Nat.lt_irrefl _ (h.linked.entry key _ (TailChain.previous_eq_some.mp hprevious).1).2.1
    rw [if_neg hprevious, hi, TailChain.mode_call_self, TailChain.key_call_self, h.linked.next_made, hmade, hcalled.tail]
    cases c.previous key <;> rfl
  · rw [TailChain.mode_call_of_ne hi, TailChain.key_call_of_ne hi]
    split_ifs with hprevious
    · obtain ⟨hentry, hopen⟩ := TailChain.previous_eq_some.mp hprevious
      rw [hcalled.behind i hprevious, (h.linked.entry key i hentry).1, hmade]
      cases hmode : c.mode i with
      | waiting _ | active => rfl
      | unmade | drained | cleaned =>
          rw [hmode] at hopen
          cases hopen
    · rw [hcalled.states (.tail i) nofun nofun (fun heq => ?_) (fun previous hsome heq => ?_), h.tail, tailState]
      · rw [hmade] at hi
        exact hi (ChainPromise.tail.inj heq)
      · rw [ChainPromise.tail.inj heq] at hprevious
        exact hprevious hsome

/-- A new call has its task queued. -/
theorem firstStage_spec (c : TailChain ChainKey) (key : ChainKey) (k : Nat) :
    (firstStage c key : CallStage α ε).phase = some .queued ∧
      (firstStage c key : CallStage α ε).result k = .pending [⟨.swallow, some (.tail k)⟩] ∧
      (firstStage c key : CallStage α ε).task k = some (.pending []) ∧
      (firstStage c key : CallStage α ε).isOnStack = false ∧
      (firstStage c key : CallStage α ε).mode = (c.call key).mode c.made := by
  rw [TailChain.mode_call_self]
  unfold firstStage
  cases c.previous key with
  | none => exact ⟨rfl, rfl, rfl, rfl, rfl⟩
  | some previous => exact ⟨rfl, rfl, rfl, rfl, rfl⟩

theorem follows_runInChain (h : Follows s c stage) (key : ChainKey) : Follows (s.runInChain key) (c.call key)
    (Function.update stage s.calls.length (firstStage c key)) := by
  have hcalled : Called s c key (s.runInChain key).promises := (chained_performThen h key).called h
  have hmade := h.made
  have hunmade : c.mode s.calls.length = .unmade := (h.linked.made _).mpr (Nat.le_of_eq hmade)
  have hnone := stage_eq_unmade ((h.mode s.calls.length).trans hunmade)
  have hlinked := h.linked.call key
  obtain ⟨hphase, hresult, htask, hoff, hmode⟩ := @firstStage_spec α ε c key s.calls.length
  have hnewKey := TailChain.key_call_self c key
  have hkey : ∀ i, i ≠ s.calls.length → (c.call key).key i = c.key i := fun i hi =>
    TailChain.key_call_of_ne (by rw [hmade]; exact hi) key
  have holdMode : ∀ i, i ≠ s.calls.length → (c.call key).mode i = c.mode i := fun i hi =>
    TailChain.mode_call_of_ne (by rw [hmade]; exact hi) key
  have hnew : (c.call key).mode s.calls.length ≠ .unmade := fun hun => by
    have hle : c.made + 1 ≤ s.calls.length := (hlinked.made _).mp hun
    omega
  rw [hmade] at hnewKey hmode
  refine ⟨hlinked, ?_, fun key' => ?_, fun i => ?_, fun i => ?_, fun i => ?_, fun i state hstate => ?_, hcalled.tails h,
    fun i hi => ?_, fun i hi => ?_, fun i => ?_, ?_⟩
  · show c.made + 1 = (s.calls ++ [_]).length
    rw [List.length_append, hmade]
    rfl
  · show Function.update s.chains key (some (.tail s.calls.length)) key' =
      (Function.update c.entry key (some c.made) key').map .tail
    by_cases hkey' : key' = key
    · rw [hkey', Function.update_self, Function.update_self, hmade]
      rfl
    · rw [Function.update_of_ne hkey', Function.update_of_ne hkey', h.entry]
  · by_cases hi : i = s.calls.length
    · rw [hi, Function.update_self, hmode]
    · rw [Function.update_of_ne hi, holdMode i hi, h.mode]
  · show (s.calls ++ [⟨key, .queued⟩])[i]? = _
    by_cases hi : i = s.calls.length
    · rw [hi, Function.update_self, hphase, hnewKey]
      exact List.getElem?_concat_length ..
    · rw [Function.update_of_ne hi, hkey i hi, ← h.calls]
      rcases Nat.lt_or_gt_of_ne hi with hlt | hgt
      · exact List.getElem?_append_left hlt
      · rw [List.getElem?_eq_none (Nat.le_of_lt hgt), List.getElem?_eq_none]
        rw [List.length_append]
        exact hgt
  · by_cases hi : i = s.calls.length
    · rw [hi, Function.update_self, hresult, hcalled.result]
    · rw [Function.update_of_ne hi, ← h.result]
      exact hcalled.states (.result i) nofun (fun heq => hi (ChainPromise.result.inj heq)) nofun fun _ _ => nofun
  · rw [hcalled.states (.task i) nofun nofun nofun fun _ _ => nofun]
    refine h.task i state ?_
    by_cases hi : i = s.calls.length
    · rw [hi, Function.update_self, htask] at hstate
      rw [hi, hnone]
      exact hstate
    · rw [Function.update_of_ne hi] at hstate
      exact hstate
  · rw [hcalled.states (.cleaned i) nofun nofun nofun fun _ _ => nofun]
    by_cases hin : i = s.calls.length
    · rw [hin]
      exact h.cleaned _ (by rw [hunmade]; nofun)
    · exact h.cleaned i (by rw [← holdMode i hin]; exact hi)
  · have hin : i ≠ s.calls.length := by
      rintro rfl
      exact hnew hi
    rw [hcalled.states (.resolved i) (fun heq => hin (ChainPromise.resolved.inj heq)) nofun nofun fun _ _ => nofun]
    exact h.resolved i (by rw [← holdMode i hin]; exact hi)
  · exact h.stack_same (by rw [hoff, hnone]; rfl) i
  · obtain ⟨order, hqueued⟩ := h.queued
    obtain ⟨order', hput⟩ := (hqueued.but (by rw [hnone]; rfl)).put (firstStage c key)
    rw [hcalled.jobs]
    refine ⟨order', hput.congr fun i => ?_⟩
    by_cases hi : i = s.calls.length
    · rw [hi, Function.update_self]
      unfold firstStage
      cases c.previous key <;> rfl
    · rw [Function.update_of_ne hi]
      cases stage i <;> simp only [CallStage.job, hkey i hi]

end SyncLocks

end SecretsManager
