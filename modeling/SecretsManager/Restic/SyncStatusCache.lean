import Mathlib.Logic.Function.Basic
import SecretsManager.Library.Machine
import SecretsManager.Restic.SyncService

/-!
# The status cache

The status of a project is computed by a run of restic, shared by all requests that come while it lasts, and
kept for some time. Each turn of the event loop is one event: a request, a disconnect, an invalidation, the
clock, or the continuation of a promise, and these come in any order. A run carries the generation of its
project at its start, and every invalidation starts a new generation.
-/

namespace SecretsManager

open Js Machine

/-! ## Status checks -/

structure SyncStatusResult where
  hasLocalChanges : Bool
  lastSyncSnapshotId : JsString
  lastSyncSnapshotTime : JsString
  remoteLatestSnapshotId : JsString
  remoteLatestSnapshotTime : JsString
  needsPull : Bool
  deriving DecidableEq

/-- `ResticSyncStatus`, from the listing of the repository and the number of secrets. -/
def resticSyncStatus (P : Platform) (project : Project) (snapshots : List ResticSnapshot) (secretCount : Nat) :
    SyncStatusResult where
  hasLocalChanges := computeHasLocalChanges project secretCount
  lastSyncSnapshotId := project.lastSyncSnapshotId
  lastSyncSnapshotTime := project.lastSyncSnapshotTime
  remoteLatestSnapshotId := ((latestSnapshot P snapshots).map ResticSnapshot.id).getD []
  remoteLatestSnapshotTime := ((latestSnapshot P snapshots).map ResticSnapshot.time).getD []
  needsPull := (latestSnapshot P snapshots).any fun latest => latest.id ≠ project.lastSyncSnapshotId

/-- A value that is no number is `none`. -/
structure StatusConfig where
  syncStatusCacheTtlMs : Option Int
  syncStatusMaxWaiters : Option Int

def positiveOrFallback (value : Option Int) (fallback : Int) : Int :=
  match value with
  | some n => if 0 < n then n else fallback
  | none => fallback

def ttlMs (config : StatusConfig) : Int := positiveOrFallback config.syncStatusCacheTtlMs 30000

def maxWaiters (config : StatusConfig) : Int := positiveOrFallback config.syncStatusMaxWaiters 100

def maxConcurrent : Nat := 3

def clientDisconnectedError : Failure :=
  .sync ⟨js "The status check was cancelled because the client disconnected", 499, none⟩

def queueFullError : Failure :=
  .sync ⟨js "Too many status checks are queued: retry shortly", 503, some (js "STATUS_QUEUE_FULL")⟩

/-- The errors that tell a request that its client has disconnected. -/
def Failure.isDisconnect : Failure → Bool
  | .sync e => e.statusCode = 499
  | _ => false

/-! ## The state -/

/-- Where a run is: in the queue of waiters; its promise of a slot settled, but not yet continued; with its
restic process; ended. -/
inductive RunPhase where
  | waiting
  | granted
  | refused (e : Failure)
  | running
  | settled (outcome : Except Failure SyncStatusResult)
  deriving DecidableEq

/-- `aborted` is the state of its controller, and `tokens` are the calls that still wait for it. -/
structure StatusRun where
  project : Project
  aborted : Bool
  tokens : List Nat
  background : Bool
  generation : Nat
  phase : RunPhase
  deriving DecidableEq

/-- A result, with the number of the run that computed it. -/
structure StatusAnswer where
  result : SyncStatusResult
  run : Nat
  deriving DecidableEq

structure CacheEntry extends StatusAnswer where
  expiresAt : Int

/-- A call of `SyncStatusCacheGet`, with the run that it has joined, if any. -/
structure StatusCall where
  projectId : JsString
  signal : Option Nat
  run : Option Nat
  answer : Option (Except Failure StatusAnswer)
  deriving DecidableEq

/-- The variables of the module, `Date.now()`, the signals that have fired, and all runs and calls so far by
their numbers. -/
structure StatusCache where
  now : Int
  cache : JsString → Option CacheEntry
  inFlight : JsString → Option Nat
  generations : JsString → Nat
  activeRuns : Nat
  waiters : List Nat
  runs : List StatusRun
  calls : List StatusCall
  abortedSignals : List Nat

namespace StatusCache

def start : StatusCache where
  now := 0
  cache _ := none
  inFlight _ := none
  generations _ := 0
  activeRuns := 0
  waiters := []
  runs := []
  calls := []
  abortedSignals := []

def isAborted (s : StatusCache) : Option Nat → Bool
  | some signal => signal ∈ s.abortedSignals
  | none => false

def updateRun (s : StatusCache) (r : Nat) (f : StatusRun → StatusRun) : StatusCache :=
  { s with runs := s.runs.modify r f }

/-! ## Slots -/

/-- `acquireSlot` for the next run, whose controller is new: its first phase, and the slots after it. -/
def acquireSlot (config : StatusConfig) (s : StatusCache) : RunPhase × StatusCache :=
  if s.activeRuns < maxConcurrent then (.granted, { s with activeRuns := s.activeRuns + 1 })
  else if maxWaiters config ≤ s.waiters.length then (.refused queueFullError, s)
  else (.waiting, { s with waiters := s.waiters ++ [s.runs.length] })

/-- `waiter.grant()` -/
def grant (s : StatusCache) (r : Nat) : StatusCache :=
  match s.runs[r]? with
  | some run =>
      if run.phase = .waiting then
        { s.updateRun r ({ · with phase := .granted }) with activeRuns := s.activeRuns + 1 }
      else s
  | none => s

/-- `waiter.cancel()` -/
def cancel (s : StatusCache) (r : Nat) : StatusCache :=
  match s.runs[r]? with
  | some run =>
      if run.phase = .waiting then
        { s.updateRun r ({ · with phase := .refused clientDisconnectedError }) with waiters := s.waiters.erase r }
      else s
  | none => s

def releaseSlot (s : StatusCache) : StatusCache :=
  match s.waiters with
  | [] => { s with activeRuns := s.activeRuns - 1 }
  | next :: rest => grant { s with activeRuns := s.activeRuns - 1, waiters := rest } next

/-- `run.controller.abort()`: only a waiter listens to it at once. -/
def abort (s : StatusCache) (r : Nat) : StatusCache := (s.updateRun r ({ · with aborted := true })).cancel r

/-! ## Runs and calls -/

def startRun (config : StatusConfig) (s : StatusCache) (project : Project) (background : Bool) : StatusCache :=
  let acquired := s.acquireSlot config
  { acquired.2 with
    runs := s.runs ++ [⟨project, false, [], background, s.generations project.id, acquired.1⟩]
    inFlight := Function.update s.inFlight project.id (some s.runs.length) }

/-- A call that waits for the run. -/
def joinRun (s : StatusCache) (r : Nat) (projectId : JsString) (signal : Option Nat) : StatusCache :=
  { s.updateRun r (fun run => { run with tokens := run.tokens ++ [s.calls.length] }) with
    calls := s.calls ++ [⟨projectId, signal, some r, none⟩] }

/-- A call that is answered at once. -/
def answerNow (s : StatusCache) (projectId : JsString) (signal : Option Nat) (answer : Except Failure StatusAnswer) :
    StatusCache :=
  { s with calls := s.calls ++ [⟨projectId, signal, none, some answer⟩] }

/-- `SyncStatusCacheGet` -/
def get (config : StatusConfig) (s : StatusCache) (project : Project) (signal : Option Nat) : StatusCache :=
  if s.isAborted signal then s.answerNow project.id signal (.error clientDisconnectedError)
  else
    match s.cache project.id with
    | some cached =>
        if s.now < cached.expiresAt then s.answerNow project.id signal (.ok cached.toStatusAnswer)
        else if (s.inFlight project.id).isSome then s.answerNow project.id signal (.ok cached.toStatusAnswer)
        else (s.startRun config project true).answerNow project.id signal (.ok cached.toStatusAnswer)
    | none =>
        match s.inFlight project.id with
        | some existing => s.joinRun existing project.id signal
        | none => (s.startRun config project false).joinRun s.runs.length project.id signal

/-- The end of a run: its entry in flight goes, unless a newer run has replaced it. -/
def settle (s : StatusCache) (r : Nat) (projectId : JsString) (outcome : Except Failure SyncStatusResult) :
    StatusCache :=
  { s.updateRun r ({ · with phase := .settled outcome }) with
    inFlight := if s.inFlight projectId = some r then Function.update s.inFlight projectId none else s.inFlight }

/-- What follows the restic process: an aborted run and one of an earlier generation are not cached. -/
def complete (config : StatusConfig) (s : StatusCache) (r : Nat) (run : StatusRun)
    (outcome : Except Failure SyncStatusResult) : StatusCache :=
  let cached : StatusCache :=
    match outcome with
    | .ok result =>
        if run.aborted = false ∧ run.generation = s.generations run.project.id then
          { s with
            cache := Function.update s.cache run.project.id (some ⟨⟨result, r⟩, s.now + ttlMs config⟩) }
        else s
    | .error _ => s
  cached.releaseSlot.settle r run.project.id outcome

/-- `finish` of a call: the first answer counts. -/
def finish (s : StatusCache) (c : Nat) (answer : Except Failure StatusAnswer) : StatusCache :=
  match s.calls[c]? with
  | some ⟨projectId, signal, some r, none⟩ =>
      { s.updateRun r (fun run => { run with tokens := run.tokens.erase c }) with
        calls := s.calls.set c ⟨projectId, signal, some r, some answer⟩ }
  | _ => s

/-- What the abort listener of the signal does for a call. -/
def disconnectCall (signal : Nat) (s : StatusCache) (c : Nat) : StatusCache :=
  match s.calls[c]? with
  | some ⟨_, some signal', some r, none⟩ =>
      if signal' = signal then
        let finished := s.finish c (.error clientDisconnectedError)
        match finished.runs[r]? with
        | some run => if run.tokens = [] ∧ run.background = false then finished.abort r else finished
        | none => finished
      else s
  | _ => s

def disconnect (s : StatusCache) (signal : Nat) : StatusCache :=
  if signal ∈ s.abortedSignals then s
  else
    (List.range s.calls.length).foldl (disconnectCall signal)
      { s with abortedSignals := signal :: s.abortedSignals }

/-- `SyncStatusCacheInvalidate` -/
def invalidate (s : StatusCache) (projectId : JsString) : StatusCache :=
  let dropped : StatusCache :=
    { s with
      cache := Function.update s.cache projectId none
      generations := Function.update s.generations projectId (s.generations projectId + 1)
      inFlight := Function.update s.inFlight projectId none }
  match s.inFlight projectId with
  | some r => dropped.abort r
  | none => dropped

end StatusCache

/-! ## Events -/

/-- The end of a restic process comes with the listing and the number of secrets, or with an error. -/
inductive StatusEvent where
  | get (project : Project) (signal : Option Nat)
  | disconnect (signal : Nat)
  | invalidate (projectId : JsString)
  | setTime (now : Int)
  | proceed (run : Nat)
  | complete (run : Nat) (outcome : Except Failure (List ResticSnapshot × Nat))
  | notify (call : Nat)

namespace StatusCache

section Platform
variable (P : Platform) (config : StatusConfig)

/-- An event that can happen: a run continues after its promise of a slot, a restic process ends, and reports
a disconnect only when it was aborted, and a waiting call hears of the end of its run. -/
def step (s : StatusCache) : StatusEvent → Option StatusCache
  | .get project signal => some (s.get config project signal)
  | .disconnect signal => some (s.disconnect signal)
  | .invalidate projectId => some (s.invalidate projectId)
  | .setTime now => some { s with now := now }
  | .proceed r =>
      match s.runs[r]? with
      | some run =>
          match run.phase with
          | .granted => some (s.updateRun r ({ · with phase := .running }))
          | .refused e => some (s.settle r run.project.id (.error e))
          | _ => none
      | none => none
  | .complete r outcome =>
      match s.runs[r]? with
      | some run =>
          if run.phase = .running then
            match outcome with
            | .ok (snapshots, secretCount) =>
                some (s.complete config r run (.ok (resticSyncStatus P run.project snapshots secretCount)))
            | .error e =>
                if e.isDisconnect = true ∧ run.aborted = false then none
                else some (s.complete config r run (.error e))
          else none
      | none => none
  | .notify c =>
      match s.calls[c]? with
      | some ⟨_, _, some r, none⟩ =>
          match s.runs[r]? with
          | some run =>
              match run.phase with
              | .settled outcome => some (s.finish c (outcome.map fun result => ⟨result, r⟩))
              | _ => none
          | none => none
      | _ => none

end Platform

end StatusCache

/-! ## The invariant -/

/-- What a change of a run that does not end it keeps. -/
structure StatusRun.Keeps (run run' : StatusRun) : Prop where
  project : run'.project = run.project
  generation : run'.generation = run.generation
  settled : ∀ outcome, run'.phase = .settled outcome ↔ run.phase = .settled outcome

theorem StatusRun.Keeps.of_phase {run : StatusRun} {phase : RunPhase} (h : ∀ outcome, run.phase ≠ .settled outcome)
    (h' : ∀ outcome, phase ≠ .settled outcome) : run.Keeps { run with phase := phase } where
  project := rfl
  generation := rfl
  settled outcome := ⟨fun heq => absurd heq (h' outcome), fun heq => absurd heq (h outcome)⟩

namespace StatusCache

/-- A run in flight and a cached result are of the present generation of their project, a run in flight has
not ended, and a cached result is that of its run. A call waits for, and is answered by, runs of its project. -/
structure Sound (s : StatusCache) : Prop where
  inFlight : ∀ {projectId : JsString} {r : Nat}, s.inFlight projectId = some r → ∃ run, s.runs[r]? = some run ∧
    run.project.id = projectId ∧ run.generation = s.generations projectId ∧ ∀ outcome, run.phase ≠ .settled outcome
  cached : ∀ {projectId : JsString} {entry : CacheEntry}, s.cache projectId = some entry → ∃ run, s.runs[entry.run]? = some run ∧
    run.project.id = projectId ∧ run.generation = s.generations projectId ∧ run.phase = .settled (.ok entry.result)
  generation : ∀ {r : Nat} {run : StatusRun}, s.runs[r]? = some run → run.generation ≤ s.generations run.project.id
  joined : ∀ {c : Nat} {call : StatusCall} {r : Nat}, s.calls[c]? = some call → call.run = some r →
    ∃ run, s.runs[r]? = some run ∧ run.project.id = call.projectId
  answered : ∀ {c : Nat} {call : StatusCall} {a : StatusAnswer}, s.calls[c]? = some call → call.answer = some (.ok a) →
    ∃ run, s.runs[a.run]? = some run ∧ run.project.id = call.projectId ∧ run.phase = .settled (.ok a.result)

theorem sound_start : Sound start where
  inFlight h := by cases h
  cached h := by cases h
  generation h := by simp [start] at h
  joined h := by simp [start] at h
  answered h := by simp [start] at h

variable {s s' : StatusCache} {config : StatusConfig} {r : Nat} {f : StatusRun → StatusRun}

/-- The invariant does not depend on the slots, the clock and the signals. -/
theorem Sound.congr (h : Sound s) (hinFlight : s'.inFlight = s.inFlight) (hcache : s'.cache = s.cache)
    (hgenerations : s'.generations = s.generations) (hruns : s'.runs = s.runs) (hcalls : s'.calls = s.calls) :
    Sound s' := by
  obtain ⟨h₁, h₂, h₃, h₄, h₅⟩ := h
  rw [← hruns] at h₁ h₂ h₃ h₄ h₅
  rw [← hinFlight] at h₁
  rw [← hcache] at h₂
  rw [← hgenerations] at h₁ h₂ h₃
  rw [← hcalls] at h₄ h₅
  exact ⟨h₁, h₂, h₃, h₄, h₅⟩

theorem getElem?_updateRun (s : StatusCache) (r r' : Nat) (f : StatusRun → StatusRun) :
    (s.updateRun r f).runs[r']? = s.runs[r']?.map fun run => if r = r' then f run else run := by
  rw [updateRun, List.getElem?_modify]
  rfl

/-- A run after such a change. -/
theorem keeps_updateRun (hf : ∀ run, s.runs[r]? = some run → run.Keeps (f run)) {r' : Nat} {run : StatusRun}
    (hrun : s.runs[r']? = some run) :
    ∃ run', (s.updateRun r f).runs[r']? = some run' ∧ run.Keeps run' := by
  rw [getElem?_updateRun, hrun]
  refine ⟨_, rfl, ?_⟩
  split_ifs with hr
  · exact hf run (hr ▸ hrun)
  · exact ⟨rfl, rfl, fun _ => Iff.rfl⟩

theorem of_updateRun (hf : ∀ run, s.runs[r]? = some run → run.Keeps (f run)) {r' : Nat} {run' : StatusRun}
    (hrun : (s.updateRun r f).runs[r']? = some run') : ∃ run, s.runs[r']? = some run ∧ run.Keeps run' := by
  rw [getElem?_updateRun] at hrun
  obtain ⟨run, hold, rfl⟩ := Option.map_eq_some_iff.mp hrun
  refine ⟨run, hold, ?_⟩
  split_ifs with hr
  · exact hf run (hr ▸ hold)
  · exact ⟨rfl, rfl, fun _ => Iff.rfl⟩

theorem Sound.updateRun (h : Sound s) (hf : ∀ run, s.runs[r]? = some run → run.Keeps (f run)) :
    Sound (s.updateRun r f) where
  inFlight hin := by
    obtain ⟨run, hrun, hid, hgen, hopen⟩ := h.inFlight hin
    obtain ⟨run', hrun', hkeeps⟩ := keeps_updateRun hf hrun
    exact ⟨run', hrun', by rw [hkeeps.project, hid], by rw [hkeeps.generation, hgen]; rfl,
      fun outcome hend => hopen outcome ((hkeeps.settled outcome).mp hend)⟩
  cached hcache := by
    obtain ⟨run, hrun, hid, hgen, hend⟩ := h.cached hcache
    obtain ⟨run', hrun', hkeeps⟩ := keeps_updateRun hf hrun
    exact ⟨run', hrun', by rw [hkeeps.project, hid], by rw [hkeeps.generation, hgen]; rfl,
      (hkeeps.settled _).mpr hend⟩
  generation hrun' := by
    obtain ⟨run, hrun, hkeeps⟩ := of_updateRun hf hrun'
    rw [hkeeps.project, hkeeps.generation]
    exact h.generation hrun
  joined hcall hjoined := by
    obtain ⟨run, hrun, hid⟩ := h.joined hcall hjoined
    obtain ⟨run', hrun', hkeeps⟩ := keeps_updateRun hf hrun
    exact ⟨run', hrun', by rw [hkeeps.project, hid]⟩
  answered hcall hanswer := by
    obtain ⟨run, hrun, hid, hend⟩ := h.answered hcall hanswer
    obtain ⟨run', hrun', hkeeps⟩ := keeps_updateRun hf hrun
    exact ⟨run', hrun', by rw [hkeeps.project, hid], (hkeeps.settled _).mpr hend⟩

/-! ## Slots keep the invariant -/

theorem Sound.grant (h : Sound s) (r : Nat) : Sound (s.grant r) := by
  unfold StatusCache.grant
  split
  · rename_i run hrun
    split_ifs with hwaiting
    · refine Sound.congr (h.updateRun (r := r) (f := ({ · with phase := .granted })) fun run' hrun' => ?_) rfl rfl rfl rfl rfl
      obtain rfl := Option.some.inj (hrun.symm.trans hrun')
      exact .of_phase (fun outcome heq => by rw [hwaiting] at heq; cases heq) fun outcome heq => by cases heq
    · exact h
  · exact h

theorem Sound.cancel (h : Sound s) (r : Nat) : Sound (s.cancel r) := by
  unfold StatusCache.cancel
  split
  · rename_i run hrun
    split_ifs with hwaiting
    · refine Sound.congr (h.updateRun (r := r) (f := ({ · with phase := .refused clientDisconnectedError }))
        fun run' hrun' => ?_) rfl rfl rfl rfl rfl
      obtain rfl := Option.some.inj (hrun.symm.trans hrun')
      exact .of_phase (fun outcome heq => by rw [hwaiting] at heq; cases heq) fun outcome heq => by cases heq
    · exact h
  · exact h

theorem Sound.releaseSlot (h : Sound s) : Sound s.releaseSlot := by
  unfold StatusCache.releaseSlot
  split
  · exact h.congr rfl rfl rfl rfl rfl
  · rename_i next rest _
    have hrest : Sound { s with activeRuns := s.activeRuns - 1, waiters := rest } := h.congr rfl rfl rfl rfl rfl
    exact hrest.grant next

theorem Sound.abort (h : Sound s) (r : Nat) : Sound (s.abort r) := by
  have haborted : Sound (s.updateRun r ({ · with aborted := true })) :=
    h.updateRun fun _ _ => ⟨rfl, rfl, fun _ => Iff.rfl⟩
  exact haborted.cancel r

/-! ## Calls keep the invariant -/

theorem getElem?_of_append {α : Type} {l l' : List α} {i : Nat} {a : α} (h : l[i]? = some a) :
    (l ++ l')[i]? = some a := by
  rw [List.getElem?_append_left (List.getElem?_eq_some_iff.mp h).1, h]

theorem getElem?_append_singleton {α : Type} {l : List α} {i : Nat} {a b : α} (h : (l ++ [b])[i]? = some a) :
    l[i]? = some a ∨ i = l.length ∧ a = b := by
  rcases Nat.lt_or_ge i l.length with hlt | hge
  · rw [List.getElem?_append_left hlt] at h
    exact Or.inl h
  · rw [List.getElem?_append_right hge] at h
    obtain ⟨hlt, -⟩ := List.getElem?_eq_some_iff.mp h
    rw [List.length_singleton] at hlt
    have hi : i = l.length := by omega
    subst hi
    rw [Nat.sub_self] at h
    exact Or.inr ⟨rfl, (Option.some.inj h).symm⟩

/-- `acquireSlot` changes the slots only, and its phase is not an end. -/
theorem acquireSlot_spec (config : StatusConfig) (s : StatusCache) :
    (∃ n waiters, (s.acquireSlot config).2 = { s with activeRuns := n, waiters := waiters }) ∧
      ∀ outcome, (s.acquireSlot config).1 ≠ .settled outcome := by
  unfold acquireSlot
  split_ifs
  · exact ⟨⟨_, _, rfl⟩, fun outcome heq => by cases heq⟩
  · exact ⟨⟨_, _, rfl⟩, fun outcome heq => by cases heq⟩
  · exact ⟨⟨_, _, rfl⟩, fun outcome heq => by cases heq⟩

/-- The run that a start adds. -/
def newRun (config : StatusConfig) (s : StatusCache) (project : Project) (background : Bool) : StatusRun :=
  ⟨project, false, [], background, s.generations project.id, (s.acquireSlot config).1⟩

/-- What a start does, up to the slots. -/
theorem startRun_eq (config : StatusConfig) (s : StatusCache) (project : Project) (background : Bool) :
    ∃ n waiters, s.startRun config project background =
      { s with
        activeRuns := n
        waiters := waiters
        runs := s.runs ++ [s.newRun config project background]
        inFlight := Function.update s.inFlight project.id (some s.runs.length) } := by
  obtain ⟨n, waiters, hslot⟩ := (acquireSlot_spec config s).1
  refine ⟨n, waiters, ?_⟩
  rw [startRun, hslot]
  rfl

theorem getElem?_startRun (config : StatusConfig) (s : StatusCache) (project : Project) (background : Bool) :
    (s.startRun config project background).runs[s.runs.length]? = some (s.newRun config project background) := by
  obtain ⟨n, waiters, heq⟩ := startRun_eq config s project background
  rw [heq]
  exact List.getElem?_concat_length ..

theorem Sound.startRun (h : Sound s) (project : Project) (background : Bool) :
    Sound (s.startRun config project background) := by
  obtain ⟨n, waiters, heq⟩ := startRun_eq config s project background
  rw [heq]
  refine ⟨fun {projectId r} hin => ?_, fun hcache => ?_, fun hrun => ?_, fun hcall hjoined => ?_,
    fun hcall hanswer => ?_⟩
  · dsimp only at hin
    by_cases hid : projectId = project.id
    · subst hid
      rw [Function.update_self] at hin
      cases hin
      exact ⟨s.newRun config project background, List.getElem?_concat_length .., rfl, rfl,
        (acquireSlot_spec config s).2⟩
    · rw [Function.update_of_ne hid] at hin
      obtain ⟨run, hrun, hrest⟩ := h.inFlight hin
      exact ⟨run, getElem?_of_append hrun, hrest⟩
  · obtain ⟨run, hrun, hrest⟩ := h.cached hcache
    exact ⟨run, getElem?_of_append hrun, hrest⟩
  · rcases getElem?_append_singleton hrun with hold | ⟨-, rfl⟩
    · exact h.generation hold
    · exact Nat.le_refl _
  · obtain ⟨run, hrun, hid⟩ := h.joined hcall hjoined
    exact ⟨run, getElem?_of_append hrun, hid⟩
  · obtain ⟨run, hrun, hrest⟩ := h.answered hcall hanswer
    exact ⟨run, getElem?_of_append hrun, hrest⟩

theorem Sound.joinRun (h : Sound s) {run : StatusRun} (hrun : s.runs[r]? = some run) (signal : Option Nat) :
    Sound (s.joinRun r run.project.id signal) := by
  have hupdated : Sound (s.updateRun r fun run => { run with tokens := run.tokens ++ [s.calls.length] }) :=
    h.updateRun fun _ _ => ⟨rfl, rfl, fun _ => Iff.rfl⟩
  refine ⟨hupdated.inFlight, hupdated.cached, hupdated.generation, fun hcall hjoined => ?_,
    fun hcall hanswer => ?_⟩
  · rcases getElem?_append_singleton hcall with hold | ⟨-, rfl⟩
    · exact hupdated.joined hold hjoined
    · cases hjoined
      refine ⟨{ run with tokens := run.tokens ++ [s.calls.length] }, ?_, rfl⟩
      exact (getElem?_updateRun s r r _).trans (by rw [hrun, Option.map_some, if_pos rfl])
  · rcases getElem?_append_singleton hcall with hold | ⟨-, rfl⟩
    · exact hupdated.answered hold hanswer
    · cases hanswer

theorem Sound.answerNow (h : Sound s) {projectId : JsString} {signal : Option Nat}
    {answer : Except Failure StatusAnswer} (hanswer : ∀ a, answer = .ok a → ∃ run, s.runs[a.run]? = some run ∧
      run.project.id = projectId ∧ run.phase = .settled (.ok a.result)) :
    Sound (s.answerNow projectId signal answer) := by
  refine ⟨h.inFlight, h.cached, h.generation, fun hcall hjoined => ?_, fun hcall hgiven => ?_⟩
  · rcases getElem?_append_singleton hcall with hold | ⟨-, rfl⟩
    · exact h.joined hold hjoined
    · cases hjoined
  · rcases getElem?_append_singleton hcall with hold | ⟨-, rfl⟩
    · exact h.answered hold hgiven
    · exact hanswer _ (Option.some.inj hgiven)

theorem Sound.get (h : Sound s) (project : Project) (signal : Option Nat) :
    Sound (s.get config project signal) := by
  unfold StatusCache.get
  by_cases haborted : s.isAborted signal = true
  · rw [if_pos haborted]
    exact h.answerNow fun a heq => by cases heq
  · rw [if_neg haborted]
    split
    · rename_i cached hcached
      obtain ⟨run, hrun, hid, -, hend⟩ := h.cached hcached
      have hanswer : ∀ {s' : StatusCache}, Sound s' → (s'.runs[cached.run]? = some run) →
          Sound (s'.answerNow project.id signal (.ok cached.toStatusAnswer)) := by
        intro s' hs' hrun'
        refine hs'.answerNow fun a heq => ?_
        cases heq
        exact ⟨run, hrun', hid, hend⟩
      split_ifs
      · exact hanswer h hrun
      · exact hanswer h hrun
      · refine hanswer (h.startRun project true) ?_
        obtain ⟨n, waiters, heq⟩ := startRun_eq config s project true
        rw [heq]
        exact getElem?_of_append hrun
    · split
      · rename_i existing hexisting
        obtain ⟨run, hrun, hid, -, -⟩ := h.inFlight hexisting
        rw [← hid]
        exact h.joinRun hrun signal
      · exact (h.startRun project false).joinRun (getElem?_startRun config s project false) signal

theorem Sound.finish (h : Sound s) {c : Nat} {answer : Except Failure StatusAnswer}
    (hanswer : ∀ {call : StatusCall} {r : Nat} {a : StatusAnswer}, s.calls[c]? = some call → call.run = some r →
      answer = .ok a → a.run = r ∧ ∃ run, s.runs[r]? = some run ∧ run.phase = .settled (.ok a.result)) :
    Sound (s.finish c answer) := by
  unfold StatusCache.finish
  split
  · rename_i projectId signal r hcall
    have hkeeps : ∀ run, s.runs[r]? = some run → run.Keeps { run with tokens := run.tokens.erase c } :=
      fun _ _ => ⟨rfl, rfl, fun _ => Iff.rfl⟩
    have hupdated : Sound (s.updateRun r fun run => { run with tokens := run.tokens.erase c }) :=
      h.updateRun hkeeps
    -- the call of an index afterwards is that of before, up to its answer
    have hcalls : ∀ {c' : Nat} {call' : StatusCall},
        (s.calls.set c ⟨projectId, signal, some r, some answer⟩)[c']? = some call' →
          s.calls[c']? = some call' ∨ call' = ⟨projectId, signal, some r, some answer⟩ := by
      intro c' call' hcall'
      by_cases hc : c = c'
      · subst hc
        rw [List.getElem?_set_self (List.getElem?_eq_some_iff.mp hcall).1] at hcall'
        exact Or.inr (Option.some.inj hcall').symm
      · rw [List.getElem?_set_ne hc] at hcall'
        exact Or.inl hcall'
    refine ⟨hupdated.inFlight, hupdated.cached, hupdated.generation, fun hcall' hjoined => ?_,
      fun hcall' hgiven => ?_⟩
    · rcases hcalls hcall' with hold | rfl
      · exact hupdated.joined hold hjoined
      · have hwaits : (⟨projectId, signal, some r, none⟩ : StatusCall).run = some _ := hjoined
        obtain ⟨run, hrun, hid⟩ := hupdated.joined hcall hwaits
        exact ⟨run, hrun, hid⟩
    · rcases hcalls hcall' with hold | rfl
      · exact hupdated.answered hold hgiven
      · obtain ⟨hr, run, hrun, hend⟩ := hanswer hcall rfl (Option.some.inj hgiven)
        obtain ⟨run₀, hrun₀, hid⟩ := h.joined hcall rfl
        obtain rfl := Option.some.inj (hrun.symm.trans hrun₀)
        obtain ⟨run', hrun', hkept⟩ := keeps_updateRun hkeeps hrun
        refine ⟨run', ?_, by rw [hkept.project, hid], (hkept.settled _).mpr hend⟩
        rw [hr]
        exact hrun'
  · exact h

/-! ## Ends of runs and invalidations keep the invariant -/

/-- An end of a run that has not ended. -/
theorem Sound.settle (h : Sound s) {run : StatusRun} (hrun : s.runs[r]? = some run)
    (hopen : ∀ outcome, run.phase ≠ .settled outcome) (outcome : Except Failure SyncStatusResult) :
    Sound (s.settle r run.project.id outcome) := by
  have hget : ∀ r', (s.settle r run.project.id outcome).runs[r']? =
      s.runs[r']?.map fun run => if r = r' then { run with phase := .settled outcome } else run :=
    fun r' => getElem?_updateRun s r r' _
  have hother : ∀ {r' : Nat} {run' : StatusRun}, r ≠ r' → s.runs[r']? = some run' →
      (s.settle r run.project.id outcome).runs[r']? = some run' := by
    intro r' run' hne hrun'
    rw [hget, hrun', Option.map_some, if_neg hne]
  have hended : ∀ {r' : Nat} {run' : StatusRun} {outcome' : Except Failure SyncStatusResult},
      s.runs[r']? = some run' → run'.phase = .settled outcome' → r ≠ r' := by
    intro r' run' outcome' hrun' hend heq
    subst heq
    obtain rfl := Option.some.inj (hrun.symm.trans hrun')
    exact hopen _ hend
  -- the entry in flight of the run goes
  have hgone : ∀ {projectId : JsString} {r' : Nat}, (s.settle r run.project.id outcome).inFlight projectId = some r' →
      s.inFlight projectId = some r' ∧ r ≠ r' := by
    intro projectId r' hin
    dsimp only [StatusCache.settle] at hin
    split_ifs at hin with hself
    · by_cases hid : projectId = run.project.id
      · rw [hid, Function.update_self] at hin
        cases hin
      · rw [Function.update_of_ne hid] at hin
        refine ⟨hin, fun heq => hid ?_⟩
        subst heq
        obtain ⟨run', hrun', hproject, -, -⟩ := h.inFlight hin
        rw [← hproject, Option.some.inj (hrun.symm.trans hrun')]
    · refine ⟨hin, fun heq => hself ?_⟩
      subst heq
      obtain ⟨run', hrun', hproject, -, -⟩ := h.inFlight hin
      rw [Option.some.inj (hrun.symm.trans hrun'), hproject]
      exact hin
  refine ⟨fun hin => ?_, fun hcache => ?_, fun {r' run'} hrun' => ?_, fun {c call r'} hcall hjoined => ?_,
    fun hcall hanswer => ?_⟩
  · obtain ⟨hold, hne⟩ := hgone hin
    obtain ⟨run', hrun', hrest⟩ := h.inFlight hold
    exact ⟨run', hother hne hrun', hrest⟩
  · obtain ⟨run', hrun', hid, hgen, hend⟩ := h.cached hcache
    exact ⟨run', hother (hended hrun' hend) hrun', hid, hgen, hend⟩
  · rw [hget] at hrun'
    obtain ⟨run₀, hrun₀, rfl⟩ := Option.map_eq_some_iff.mp hrun'
    have hgen := h.generation hrun₀
    split_ifs
    · exact hgen
    · exact hgen
  · obtain ⟨run', hrun', hid⟩ := h.joined hcall hjoined
    refine ⟨_, (hget r').trans (by rw [hrun', Option.map_some]), ?_⟩
    split_ifs
    · exact hid
    · exact hid
  · obtain ⟨run', hrun', hid, hend⟩ := h.answered hcall hanswer
    exact ⟨run', hother (hended hrun' hend) hrun', hid, hend⟩

/-- The slots do not concern the cache. -/
theorem releaseSlot_cache (s : StatusCache) (cache : JsString → Option CacheEntry) :
    ({ s with cache := cache } : StatusCache).releaseSlot = { s.releaseSlot with cache := cache } := by
  cases hwaiters : s.waiters with
  | nil => simp only [releaseSlot, hwaiters]
  | cons next rest =>
      simp only [releaseSlot, hwaiters, grant]
      split
      · split_ifs <;> rfl
      · rfl

/-- What a run is after a slot was released. -/
theorem releaseSlot_keeps {run : StatusRun} {r' : Nat} (hrun : s.runs[r']? = some run) :
    ∃ run', s.releaseSlot.runs[r']? = some run' ∧ run.Keeps run' := by
  have hsame : run.Keeps run := ⟨rfl, rfl, fun _ => Iff.rfl⟩
  unfold releaseSlot
  split
  · exact ⟨run, hrun, hsame⟩
  · rename_i next rest _
    unfold grant
    dsimp only
    split
    · rename_i run₀ hrun₀
      split_ifs with hwaiting
      · refine keeps_updateRun (s := s) (r := next) (fun run' hrun' => ?_) hrun
        obtain rfl := Option.some.inj (hrun₀.symm.trans hrun')
        exact .of_phase (fun outcome heq => by rw [hwaiting] at heq; cases heq) fun outcome heq => by cases heq
      · exact ⟨run, hrun, hsame⟩
    · exact ⟨run, hrun, hsame⟩

theorem releaseSlot_generations (s : StatusCache) : s.releaseSlot.generations = s.generations := by
  unfold releaseSlot
  split
  · rfl
  · unfold grant
    dsimp only
    split
    · split_ifs <;> rfl
    · rfl

/-- A result enters the cache when its run ends, is not aborted and is of the present generation. -/
theorem Sound.complete (h : Sound s) {run : StatusRun} (hrun : s.runs[r]? = some run)
    (hopen : ∀ outcome, run.phase ≠ .settled outcome) (outcome : Except Failure SyncStatusResult) :
    Sound (s.complete config r run outcome) := by
  have hreleased := h.releaseSlot
  obtain ⟨run', hrun', hkeeps⟩ := releaseSlot_keeps hrun
  have hsettled : Sound (s.releaseSlot.settle r run.project.id outcome) := by
    rw [← hkeeps.project]
    exact hreleased.settle hrun' (fun outcome hend => hopen outcome ((hkeeps.settled outcome).mp hend)) outcome
  unfold StatusCache.complete
  cases outcome with
  | error e => exact hsettled
  | ok result =>
      dsimp only
      split_ifs with hcached
      · rw [releaseSlot_cache]
        refine ⟨hsettled.inFlight, fun {projectId entry} hcache => ?_, hsettled.generation, hsettled.joined,
          hsettled.answered⟩
        by_cases hid : projectId = run.project.id
        · subst hid
          have hentry : some entry = some _ := hcache.symm.trans (Function.update_self ..)
          cases hentry
          refine ⟨{ run' with phase := .settled (.ok result) }, ?_, ?_, ?_, rfl⟩
          · exact (getElem?_updateRun s.releaseSlot r r _).trans (by rw [hrun', Option.map_some, if_pos rfl])
          · exact congrArg Project.id hkeeps.project
          · exact hkeeps.generation.trans (hcached.2.trans (congrFun (releaseSlot_generations s) _).symm)
        · have hold : s.cache projectId = some entry := (Function.update_of_ne hid ..).symm.trans hcache
          have hcache' : s.releaseSlot.cache projectId = some entry := by
            rw [← hold]
            have heta := releaseSlot_cache s s.cache
            exact congrFun (congrArg StatusCache.cache heta) projectId
          exact hsettled.cached hcache'
      · exact hsettled

theorem Sound.invalidate (h : Sound s) (projectId : JsString) : Sound (s.invalidate projectId) := by
  have hgen : ∀ id, s.generations id ≤
      Function.update s.generations projectId (s.generations projectId + 1) id := by
    intro id
    by_cases hid : id = projectId
    · subst hid
      rw [Function.update_self]
      exact Nat.le_succ _
    · rw [Function.update_of_ne hid]
  have hdropped : Sound
      { s with
        cache := Function.update s.cache projectId none
        generations := Function.update s.generations projectId (s.generations projectId + 1)
        inFlight := Function.update s.inFlight projectId none } := by
    refine ⟨fun {id r} hin => ?_, fun {id entry} hcache => ?_, fun hrun => ?_, h.joined, h.answered⟩
    · dsimp only at hin ⊢
      by_cases hid : id = projectId
      · rw [hid, Function.update_self] at hin
        cases hin
      · rw [Function.update_of_ne hid] at hin ⊢
        exact h.inFlight hin
    · dsimp only at hcache ⊢
      by_cases hid : id = projectId
      · rw [hid, Function.update_self] at hcache
        cases hcache
      · rw [Function.update_of_ne hid] at hcache ⊢
        exact h.cached hcache
    · exact (h.generation hrun).trans (hgen _)
  unfold StatusCache.invalidate
  split
  · exact hdropped.abort _
  · exact hdropped

theorem Sound.disconnect (h : Sound s) (signal : Nat) : Sound (s.disconnect signal) := by
  have hcall : ∀ {s : StatusCache} (c : Nat), Sound s → Sound (disconnectCall signal s c) := by
    intro s c hs
    have hfinished : Sound (s.finish c (.error clientDisconnectedError)) :=
      hs.finish fun _ _ heq => by cases heq
    unfold disconnectCall
    split
    · split_ifs
      · dsimp only
        split
        · split_ifs
          · exact hfinished.abort _
          · exact hfinished
        · exact hfinished
      · exact hs
    · exact hs
  have hall : ∀ (l : List Nat) {s : StatusCache}, Sound s → Sound (l.foldl (disconnectCall signal) s) := by
    intro l
    induction l with
    | nil => exact fun hs => hs
    | cons c l ih => exact fun hs => ih (hcall c hs)
  unfold StatusCache.disconnect
  split_ifs
  · exact h
  · exact hall _ (h.congr rfl rfl rfl rfl rfl)

/-! ## Every event keeps the invariant -/

section Platform
variable {P : Platform}

/-- What an event can do. -/
inductive Stepped (P : Platform) (config : StatusConfig) (s : StatusCache) : StatusEvent → StatusCache → Prop where
  | get (project : Project) (signal : Option Nat) :
      Stepped P config s (.get project signal) (s.get config project signal)
  | disconnect (signal : Nat) : Stepped P config s (.disconnect signal) (s.disconnect signal)
  | invalidate (projectId : JsString) : Stepped P config s (.invalidate projectId) (s.invalidate projectId)
  | setTime (now : Int) : Stepped P config s (.setTime now) { s with now := now }
  | proceed {r : Nat} {run : StatusRun} (hrun : s.runs[r]? = some run) (hphase : run.phase = .granted) :
      Stepped P config s (.proceed r) (s.updateRun r ({ · with phase := .running }))
  | refuse {r : Nat} {run : StatusRun} {e : Failure} (hrun : s.runs[r]? = some run)
      (hphase : run.phase = .refused e) : Stepped P config s (.proceed r) (s.settle r run.project.id (.error e))
  | complete {r : Nat} {run : StatusRun} {outcome : Except Failure (List ResticSnapshot × Nat)}
      (hrun : s.runs[r]? = some run) (hphase : run.phase = .running)
      (hkilled : ∀ e, outcome = .error e → e.isDisconnect = true → run.aborted = true) :
      Stepped P config s (.complete r outcome) (s.complete config r run
        (outcome.map fun listing => resticSyncStatus P run.project listing.1 listing.2))
  | notify {c r : Nat} {projectId : JsString} {signal : Option Nat} {run : StatusRun}
      {outcome : Except Failure SyncStatusResult} (hcall : s.calls[c]? = some ⟨projectId, signal, some r, none⟩)
      (hrun : s.runs[r]? = some run) (hphase : run.phase = .settled outcome) :
      Stepped P config s (.notify c) (s.finish c (outcome.map fun result => ⟨result, r⟩))

theorem stepped_of_step {e : StatusEvent} (hstep : s.step P config e = some s') : Stepped P config s e s' := by
  cases e with
  | get project signal =>
      cases hstep
      exact .get project signal
  | disconnect signal =>
      cases hstep
      exact .disconnect signal
  | invalidate projectId =>
      cases hstep
      exact .invalidate projectId
  | setTime now =>
      cases hstep
      exact .setTime now
  | proceed r =>
      rw [step] at hstep
      split at hstep
      · rename_i run hrun
        split at hstep
        · rename_i hphase
          cases hstep
          exact .proceed hrun hphase
        · rename_i e hphase
          cases hstep
          exact .refuse hrun hphase
        · cases hstep
      · cases hstep
  | complete r outcome =>
      rw [step] at hstep
      split at hstep
      · rename_i run hrun
        split_ifs at hstep with hphase
        split at hstep
        · cases hstep
          exact .complete hrun hphase fun e heq => by cases heq
        · rename_i e
          split_ifs at hstep with hdisconnect
          cases hstep
          refine .complete hrun hphase fun e' heq he' => ?_
          cases heq
          exact Bool.of_not_eq_false fun haborted => hdisconnect ⟨he', haborted⟩
      · cases hstep
  | notify c =>
      rw [step] at hstep
      split at hstep
      · rename_i projectId signal r hcall
        split at hstep
        · rename_i run hrun
          split at hstep
          · rename_i outcome hphase
            cases hstep
            exact .notify hcall hrun hphase
          · cases hstep
        · cases hstep
      · cases hstep

/-- A run in a phase that is not the end has not ended. -/
theorem not_settled_of_phase {run : StatusRun} {phase : RunPhase} (hphase : run.phase = phase)
    (hopen : ∀ outcome, phase ≠ .settled outcome) (outcome : Except Failure SyncStatusResult) :
    run.phase ≠ .settled outcome := by
  rw [hphase]
  exact hopen outcome

theorem sound_step {e : StatusEvent} (h : Sound s) (hstep : s.step P config e = some s') : Sound s' := by
  cases stepped_of_step hstep with
  | get project signal => exact h.get project signal
  | disconnect signal => exact h.disconnect signal
  | invalidate projectId => exact h.invalidate projectId
  | setTime now => exact h.congr rfl rfl rfl rfl rfl
  | proceed hrun hphase =>
      refine h.updateRun fun run' hrun' => ?_
      obtain rfl := Option.some.inj (hrun.symm.trans hrun')
      exact .of_phase (not_settled_of_phase hphase nofun) nofun
  | refuse hrun hphase => exact h.settle hrun (not_settled_of_phase hphase nofun) _
  | complete hrun hphase _ => exact h.complete hrun (not_settled_of_phase hphase nofun) _
  | @notify c r projectId signal run outcome hcall hrun hphase =>
      refine h.finish fun {call r' a} hcall' hjoined hanswer => ?_
      obtain rfl := Option.some.inj (hcall.symm.trans hcall')
      cases hjoined
      cases outcome with
      | error e => cases hanswer
      | ok result =>
          cases hanswer
          exact ⟨rfl, run, hrun, hphase⟩

theorem sound_run {events : List StatusEvent} (hrun : Machine.run (step P config) start events = some s) :
    Sound s :=
  run_keeps sound_step hrun sound_start

end Platform

end StatusCache

end SecretsManager
