import SecretsManager.Restic.SyncStatusCache
import SecretsManager.Runs

/-!
# Invalidations of the status cache

Runs and calls have numbers in the order in which they come, so that the runs from before an invalidation are
those below the number of runs at it. They are of an earlier generation from then on.
-/

namespace SecretsManager

open Js Machine

namespace StatusCache

variable {s s' : StatusCache} {config : StatusConfig} {r : Nat}

/-! ## What stays -/

/-- The projects and generations of all runs, which never change. -/
def origins (s : StatusCache) : List (Project × Nat) := s.runs.map fun run => (run.project, run.generation)

theorem origins_updateRun (s : StatusCache) (r : Nat) {f : StatusRun → StatusRun}
    (hf : ∀ run, (f run).project = run.project ∧ (f run).generation = run.generation) :
    (s.updateRun r f).origins = s.origins := by
  apply List.ext_getElem?
  intro r'
  rw [origins, origins, List.getElem?_map, List.getElem?_map, getElem?_updateRun, Option.map_map]
  congr 1
  funext run
  rw [Function.comp_apply]
  split_ifs
  · rw [(hf run).1, (hf run).2]
  · rfl

/-- The change concerns slots, phases and entries in flight only. -/
structure Internal (s s' : StatusCache) : Prop where
  cache : s'.cache = s.cache
  generations : s'.generations = s.generations
  origins : s'.origins = s.origins
  calls : s'.calls = s.calls

theorem Internal.refl (s : StatusCache) : Internal s s := ⟨rfl, rfl, rfl, rfl⟩

theorem Internal.trans {s'' : StatusCache} (h : Internal s s') (h' : Internal s' s'') : Internal s s'' :=
  ⟨h'.cache.trans h.cache, h'.generations.trans h.generations, h'.origins.trans h.origins, h'.calls.trans h.calls⟩

theorem internal_grant (s : StatusCache) (r : Nat) : Internal s (s.grant r) := by
  unfold grant
  split
  · split_ifs
    · exact ⟨rfl, rfl, origins_updateRun s r fun _ => ⟨rfl, rfl⟩, rfl⟩
    · exact .refl s
  · exact .refl s

theorem internal_cancel (s : StatusCache) (r : Nat) : Internal s (s.cancel r) := by
  unfold cancel
  split
  · split_ifs
    · exact ⟨rfl, rfl, origins_updateRun s r fun _ => ⟨rfl, rfl⟩, rfl⟩
    · exact .refl s
  · exact .refl s

theorem internal_abort (s : StatusCache) (r : Nat) : Internal s (s.abort r) := by
  have haborted : Internal s (s.updateRun r ({ · with aborted := true })) :=
    ⟨rfl, rfl, origins_updateRun s r fun _ => ⟨rfl, rfl⟩, rfl⟩
  exact haborted.trans (internal_cancel _ r)

theorem internal_releaseSlot (s : StatusCache) : Internal s s.releaseSlot := by
  unfold releaseSlot
  split
  · exact ⟨rfl, rfl, rfl, rfl⟩
  · rename_i next rest _
    have hrest : Internal s { s with activeRuns := s.activeRuns - 1, waiters := rest } := ⟨rfl, rfl, rfl, rfl⟩
    exact hrest.trans (internal_grant _ next)

theorem internal_settle (s : StatusCache) (r : Nat) (projectId : JsString)
    (outcome : Except Failure SyncStatusResult) : Internal s (s.settle r projectId outcome) :=
  ⟨rfl, rfl, origins_updateRun s r fun _ => ⟨rfl, rfl⟩, rfl⟩

/-- The calls go on: a result that one gets is that of the run that it waits for. -/
def CallsGoOn (s s' : StatusCache) : Prop :=
  ∀ (c : Nat) (call' : StatusCall), s'.calls[c]? = some call' → ∃ call : StatusCall, s.calls[c]? = some call ∧
    call'.projectId = call.projectId ∧ call'.run = call.run ∧ ∀ a : StatusAnswer, call'.answer = some (.ok a) → call.answer = some (.ok a) ∨ call.run = some a.run

theorem callsGoOn_of_eq (h : s'.calls = s.calls) : CallsGoOn s s' := by
  intro c call hcall
  rw [h] at hcall
  exact ⟨call, hcall, rfl, rfl, fun a ha => Or.inl ha⟩

theorem CallsGoOn.trans {s'' : StatusCache} (h : CallsGoOn s s') (h' : CallsGoOn s' s'') : CallsGoOn s s'' := by
  intro c call'' hcall''
  obtain ⟨call', hcall', hid', hrun', hanswer'⟩ := h' c call'' hcall''
  obtain ⟨call, hcall, hid, hrun, hanswer⟩ := h c call' hcall'
  refine ⟨call, hcall, hid'.trans hid, hrun'.trans hrun, fun a ha => ?_⟩
  rcases hanswer' a ha with ha' | ha'
  · exact hanswer a ha'
  · exact Or.inr (hrun ▸ ha')

theorem finish_spec (s : StatusCache) (c : Nat) (answer : Except Failure StatusAnswer) :
    (s.finish c answer).cache = s.cache ∧ (s.finish c answer).generations = s.generations ∧
      (s.finish c answer).inFlight = s.inFlight ∧ (s.finish c answer).origins = s.origins := by
  unfold finish
  split
  · exact ⟨rfl, rfl, rfl, origins_updateRun s _ fun _ => ⟨rfl, rfl⟩⟩
  · exact ⟨rfl, rfl, rfl, rfl⟩

theorem callsGoOn_finish (s : StatusCache) (c : Nat) {answer : Except Failure StatusAnswer}
    (hanswer : ∀ {call : StatusCall} {a : StatusAnswer}, s.calls[c]? = some call → answer = .ok a →
      call.run = some a.run) : CallsGoOn s (s.finish c answer) := by
  unfold finish
  split
  · rename_i projectId signal r hcall
    intro c' call' hcall'
    dsimp only at hcall'
    by_cases hc : c = c'
    · subst hc
      rw [List.getElem?_set_self (List.getElem?_eq_some_iff.mp hcall).1] at hcall'
      cases hcall'
      refine ⟨_, hcall, rfl, rfl, fun a ha => Or.inr ?_⟩
      exact hanswer hcall (Option.some.inj ha)
    · rw [List.getElem?_set_ne hc] at hcall'
      exact ⟨call', hcall', rfl, rfl, fun a ha => Or.inl ha⟩
  · exact callsGoOn_of_eq rfl

/-- What an event other than a request does to the calls, the runs and the generations. -/
structure Continues (s s' : StatusCache) : Prop where
  generations : ∀ projectId, s.generations projectId ≤ s'.generations projectId
  origins : s'.origins = s.origins
  calls : CallsGoOn s s'
  length : s'.calls.length = s.calls.length

theorem Internal.continues (h : Internal s s') : Continues s s' where
  generations projectId := by rw [h.generations]
  origins := h.origins
  calls := callsGoOn_of_eq h.calls
  length := by rw [h.calls]

theorem Continues.trans {s'' : StatusCache} (h : Continues s s') (h' : Continues s' s'') : Continues s s'' where
  generations projectId := (h.generations projectId).trans (h'.generations projectId)
  origins := h'.origins.trans h.origins
  calls := h.calls.trans h'.calls
  length := h'.length.trans h.length

theorem continues_finish (s : StatusCache) (c : Nat) {answer : Except Failure StatusAnswer}
    (hanswer : ∀ {call : StatusCall} {a : StatusAnswer}, s.calls[c]? = some call → answer = .ok a →
      call.run = some a.run) : Continues s (s.finish c answer) where
  generations projectId := by rw [(finish_spec s c answer).2.1]
  origins := (finish_spec s c answer).2.2.2
  calls := callsGoOn_finish s c hanswer
  length := by
    unfold finish
    split
    · exact List.length_set
    · rfl

theorem continues_disconnect (s : StatusCache) (signal : Nat) : Continues s (s.disconnect signal) := by
  have hcall : ∀ (s : StatusCache) (c : Nat), Continues s (disconnectCall signal s c) := by
    intro s c
    have hfinished : Continues s (s.finish c (.error clientDisconnectedError)) :=
      continues_finish s c fun _ heq => by cases heq
    have hsame : Continues s s := (Internal.refl s).continues
    unfold disconnectCall
    split
    · split_ifs
      · dsimp only
        split
        · split_ifs
          · exact hfinished.trans (internal_abort _ _).continues
          · exact hfinished
        · exact hfinished
      · exact hsame
    · exact hsame
  have hall : ∀ (l : List Nat) (s : StatusCache), Continues s (l.foldl (disconnectCall signal) s) := by
    intro l
    induction l with
    | nil => exact fun s => (Internal.refl s).continues
    | cons c l ih => exact fun s => (hcall s c).trans (ih _)
  unfold disconnect
  split_ifs
  · exact (Internal.refl s).continues
  · have hfired : Continues s { s with abortedSignals := signal :: s.abortedSignals } :=
      Internal.continues ⟨rfl, rfl, rfl, rfl⟩
    exact hfired.trans (hall _ _)

theorem continues_invalidate (s : StatusCache) (projectId : JsString) : Continues s (s.invalidate projectId) := by
  have hdropped : Continues s
      { s with
        cache := Function.update s.cache projectId none
        generations := Function.update s.generations projectId (s.generations projectId + 1)
        inFlight := Function.update s.inFlight projectId none } := by
    refine ⟨fun id => ?_, rfl, callsGoOn_of_eq rfl, rfl⟩
    dsimp only
    by_cases hid : id = projectId
    · rw [hid, Function.update_self]
      exact Nat.le_succ _
    · rw [Function.update_of_ne hid]
  unfold invalidate
  split
  · exact hdropped.trans (internal_abort _ _).continues
  · exact hdropped

theorem continues_complete (s : StatusCache) (r : Nat) (run : StatusRun)
    (outcome : Except Failure SyncStatusResult) : Continues s (s.complete config r run outcome) := by
  have hrest : ∀ s : StatusCache, Continues s (s.releaseSlot.settle r run.project.id outcome) := fun s =>
    ((internal_releaseSlot s).trans (internal_settle _ _ _ _)).continues
  unfold complete
  cases outcome with
  | error e => exact hrest s
  | ok result =>
      dsimp only
      split_ifs
      · have hcached : Continues s
            { s with
              cache := Function.update s.cache run.project.id (some ⟨⟨result, r⟩, s.now + ttlMs config⟩) } :=
          ⟨fun _ => Nat.le_refl _, rfl, callsGoOn_of_eq rfl, rfl⟩
        exact hcached.trans (hrest _)
      · exact hrest s

/-- Every event but a request goes on with the calls and runs that are there. -/
theorem continues_step {P : Platform} {e : StatusEvent} (hget : ∀ project signal, e ≠ .get project signal)
    (hstep : s.step P config e = some s') : Continues s s' := by
  cases stepped_of_step hstep with
  | get project signal => exact absurd rfl (hget project signal)
  | disconnect signal => exact continues_disconnect s signal
  | invalidate projectId => exact continues_invalidate s projectId
  | setTime now => exact Internal.continues ⟨rfl, rfl, rfl, rfl⟩
  | proceed hrun hphase => exact Internal.continues ⟨rfl, rfl, origins_updateRun s _ fun _ => ⟨rfl, rfl⟩, rfl⟩
  | refuse hrun hphase => exact (internal_settle s _ _ _).continues
  | complete hrun hphase _ => exact continues_complete s _ _ _
  | @notify c r projectId signal run outcome hcall hrun hphase =>
      refine continues_finish s c fun {call a} hcall' hanswer => ?_
      obtain rfl := Option.some.inj (hcall.symm.trans hcall')
      cases outcome with
      | error e => cases hanswer
      | ok result =>
          cases hanswer
          rfl

theorem origins_joinRun (s : StatusCache) (r : Nat) (projectId : JsString) (signal : Option Nat) :
    (s.joinRun r projectId signal).origins = s.origins :=
  origins_updateRun s r fun _ => ⟨rfl, rfl⟩

/-- What a request does: the new call is answered with the cached result, or waits for the run in flight or for
a new run. -/
structure Requested (s s' : StatusCache) (project : Project) (call : StatusCall) : Prop where
  calls : s'.calls = s.calls ++ [call]
  projectId : call.projectId = project.id
  generations : s'.generations = s.generations
  cache : s'.cache = s.cache
  origins : s'.origins = s.origins ∨ s'.origins = s.origins ++ [(project, s.generations project.id)]
  joined : ∀ r, call.run = some r → s.inFlight project.id = some r ∨
    r = s.runs.length ∧ s'.origins = s.origins ++ [(project, s.generations project.id)]
  answered : ∀ a, call.answer = some (.ok a) → ∃ entry, s.cache project.id = some entry ∧ entry.toStatusAnswer = a

theorem requested_get (config : StatusConfig) (s : StatusCache) (project : Project) (signal : Option Nat) :
    ∃ call, Requested s (s.get config project signal) project call := by
  have hanswerNow : ∀ answer : Except Failure StatusAnswer,
      (∀ a, answer = .ok a → ∃ entry, s.cache project.id = some entry ∧ entry.toStatusAnswer = a) →
      Requested s (s.answerNow project.id signal answer) project ⟨project.id, signal, none, some answer⟩ :=
    fun answer hanswer =>
      ⟨rfl, rfl, rfl, rfl, Or.inl rfl, nofun, fun a heq => hanswer a (Option.some.inj heq)⟩
  have hnew : ∀ background : Bool,
      (s.startRun config project background).origins = s.origins ++ [(project, s.generations project.id)] := by
    intro background
    obtain ⟨n, waiters, heq⟩ := startRun_eq config s project background
    rw [heq, origins, List.map_append]
    rfl
  unfold get
  split
  · exact ⟨_, hanswerNow _ nofun⟩
  · split
    · rename_i cached hcached
      have hentry : ∀ a, (.ok cached.toStatusAnswer : Except Failure StatusAnswer) = .ok a →
          ∃ entry, s.cache project.id = some entry ∧ entry.toStatusAnswer = a :=
        fun a heq => ⟨cached, hcached, Except.ok.inj heq⟩
      split_ifs
      · exact ⟨_, hanswerNow _ hentry⟩
      · exact ⟨_, hanswerNow _ hentry⟩
      · refine ⟨⟨project.id, signal, none, some (.ok cached.toStatusAnswer)⟩, ?_⟩
        have horigins := hnew true
        obtain ⟨n, waiters, heq⟩ := startRun_eq config s project true
        rw [heq] at horigins ⊢
        exact ⟨rfl, rfl, rfl, rfl, Or.inr horigins, nofun,
          fun a heq => hentry a (Option.some.inj heq)⟩
    · split
      · rename_i existing hexisting
        refine ⟨⟨project.id, signal, some existing, none⟩, rfl, rfl, rfl, rfl, Or.inl ?_, fun r heq => ?_,
          nofun⟩
        · exact origins_joinRun s existing project.id signal
        · cases heq
          exact Or.inl hexisting
      · refine ⟨⟨project.id, signal, some s.runs.length, none⟩, ?_⟩
        have horigins := hnew false
        obtain ⟨n, waiters, heq⟩ := startRun_eq config s project false
        rw [heq] at horigins ⊢
        have hjoined := (origins_joinRun _ s.runs.length project.id signal).trans horigins
        refine ⟨rfl, rfl, rfl, rfl, Or.inr hjoined, fun r heq => ?_, nofun⟩
        cases heq
        exact Or.inr ⟨rfl, hjoined⟩

/-! ## Runs from before an invalidation -/

/-- The first runs are of earlier generations of the project, and no call from the given one on has one of
them or its result. -/
structure Since (projectId : JsString) (oldRuns oldCalls : Nat) (s : StatusCache) : Prop where
  earlier : ∀ r origin, r < oldRuns → s.origins[r]? = some origin → origin.1.id = projectId →
    origin.2 < s.generations projectId
  runs : oldRuns ≤ s.origins.length
  calls : oldCalls ≤ s.calls.length
  joined : ∀ c call r, oldCalls ≤ c → s.calls[c]? = some call → call.projectId = projectId → call.run = some r →
    oldRuns ≤ r
  answered : ∀ c call a, oldCalls ≤ c → s.calls[c]? = some call → call.projectId = projectId →
    call.answer = some (.ok a) → oldRuns ≤ a.run

theorem getElem?_origins {run : StatusRun} (hrun : s.runs[r]? = some run) :
    s.origins[r]? = some (run.project, run.generation) := by
  rw [origins, List.getElem?_map, hrun, Option.map_some]

/-- A run of the present generation is a later run. -/
theorem Since.le_of_present {projectId : JsString} {oldRuns oldCalls : Nat} (h : Since projectId oldRuns oldCalls s)
    {run : StatusRun} (hrun : s.runs[r]? = some run) (hid : run.project.id = projectId)
    (hpresent : run.generation = s.generations projectId) : oldRuns ≤ r := by
  by_contra hlt
  have hearlier := h.earlier r _ (Nat.lt_of_not_le hlt) (getElem?_origins hrun) hid
  rw [hpresent] at hearlier
  exact Nat.lt_irrefl _ hearlier

theorem generations_invalidate (s : StatusCache) (projectId : JsString) :
    (s.invalidate projectId).generations projectId = s.generations projectId + 1 := by
  unfold invalidate
  split
  · rw [(internal_abort _ _).generations]
    exact Function.update_self ..
  · exact Function.update_self ..

theorem since_invalidate (hs : Sound s) (projectId : JsString) :
    Since projectId s.runs.length s.calls.length (s.invalidate projectId) := by
  have hcontinues := continues_invalidate s projectId
  refine ⟨fun r origin hr horigin hid => ?_, ?_, hcontinues.length.ge, fun c call r hc hcall => ?_,
    fun c call a hc hcall => ?_⟩
  · rw [hcontinues.origins, origins, List.getElem?_map] at horigin
    obtain ⟨run, hrun, rfl⟩ := Option.map_eq_some_iff.mp horigin
    rw [generations_invalidate, ← hid]
    exact Nat.lt_succ_of_le (hs.generation hrun)
  · rw [hcontinues.origins, origins, List.length_map]
  · obtain ⟨hlt, -⟩ := List.getElem?_eq_some_iff.mp hcall
    rw [hcontinues.length] at hlt
    omega
  · obtain ⟨hlt, -⟩ := List.getElem?_eq_some_iff.mp hcall
    rw [hcontinues.length] at hlt
    omega

theorem Since.continues {projectId : JsString} {oldRuns oldCalls : Nat} (h : Since projectId oldRuns oldCalls s)
    (hcontinues : Continues s s') : Since projectId oldRuns oldCalls s' where
  earlier r origin hr horigin hid := by
    rw [hcontinues.origins] at horigin
    exact (h.earlier r origin hr horigin hid).trans_le (hcontinues.generations projectId)
  runs := by
    rw [hcontinues.origins]
    exact h.runs
  calls := by
    rw [hcontinues.length]
    exact h.calls
  joined c call' r hc hcall' hid hjoined := by
    obtain ⟨call, hcall, hid', hrun, -⟩ := hcontinues.calls c call' hcall'
    exact h.joined c call r hc hcall (hid'.symm.trans hid) (hrun.symm.trans hjoined)
  answered c call' a hc hcall' hid hanswer := by
    obtain ⟨call, hcall, hid', hrun, hgoes⟩ := hcontinues.calls c call' hcall'
    rcases hgoes a hanswer with hold | hjoined
    · exact h.answered c call a hc hcall (hid'.symm.trans hid) hold
    · exact h.joined c call a.run hc hcall (hid'.symm.trans hid) hjoined

theorem Since.requested {projectId : JsString} {oldRuns oldCalls : Nat} (h : Since projectId oldRuns oldCalls s) (hs : Sound s)
    {project : Project} {call : StatusCall} (hget : Requested s s' project call) :
    Since projectId oldRuns oldCalls s' := by
  have hlength : s.origins.length = s.runs.length := List.length_map ..
  refine ⟨fun r origin hr horigin hid => ?_, ?_, ?_, fun c call' r hc hcall hid hjoined => ?_,
    fun c call' a hc hcall hid hanswer => ?_⟩
  · rw [hget.generations]
    refine h.earlier r origin hr ?_ hid
    rcases hget.origins with heq | heq
    · rw [← heq, horigin]
    · rw [heq, List.getElem?_append_left (hr.trans_le h.runs)] at horigin
      exact horigin
  · rcases hget.origins with heq | heq
    · rw [heq]
      exact h.runs
    · rw [heq, List.length_append]
      exact h.runs.trans (Nat.le_add_right ..)
  · rw [hget.calls, List.length_append]
    exact h.calls.trans (Nat.le_add_right ..)
  · rw [hget.calls] at hcall
    rcases getElem?_append_singleton hcall with hold | ⟨-, rfl⟩
    · exact h.joined c call' r hc hold hid hjoined
    · rcases hget.joined r hjoined with hin | ⟨rfl, -⟩
      · obtain ⟨run, hrun, hproject, hpresent, -⟩ := hs.inFlight hin
        have hid' : project.id = projectId := hget.projectId.symm.trans hid
        rw [hid'] at hproject hpresent
        exact h.le_of_present hrun hproject hpresent
      · exact hlength ▸ h.runs
  · rw [hget.calls] at hcall
    rcases getElem?_append_singleton hcall with hold | ⟨-, rfl⟩
    · exact h.answered c call' a hc hold hid hanswer
    · obtain ⟨entry, hentry, rfl⟩ := hget.answered a hanswer
      obtain ⟨run, hrun, hproject, hpresent, -⟩ := hs.cached hentry
      have hid' : project.id = projectId := hget.projectId.symm.trans hid
      rw [hid'] at hproject hpresent
      exact h.le_of_present hrun hproject hpresent

theorem since_step {P : Platform} {e : StatusEvent} {projectId : JsString} {oldRuns oldCalls : Nat}
    (h : Since projectId oldRuns oldCalls s) (hs : Sound s) (hstep : s.step P config e = some s') :
    Since projectId oldRuns oldCalls s' := by
  by_cases hget : ∃ project signal, e = .get project signal
  · obtain ⟨project, signal, rfl⟩ := hget
    cases hstep
    obtain ⟨call, hrequested⟩ := requested_get config s project signal
    exact h.requested hs hrequested
  · refine h.continues (continues_step (fun project signal heq => hget ?_) hstep)
    exact ⟨project, signal, heq⟩

theorem since_run {P : Platform} {projectId : JsString} {events later : List StatusEvent}
    (hrun : Machine.run (step P config) start events = some s)
    (hlater : Machine.run (step P config) (s.invalidate projectId) later = some s') :
    Sound s' ∧ Since projectId s.runs.length s.calls.length s' := by
  have hs : Sound s := sound_run hrun
  exact run_keeps (I := fun s' => Sound s' ∧ Since projectId s.runs.length s.calls.length s')
    (fun h hstep => ⟨sound_step h.1 hstep, since_step h.2 h.1 hstep⟩) hlater
    ⟨hs.invalidate projectId, since_invalidate hs projectId⟩

/-! ## The runs in flight -/

/-- The change concerns slots, waiting calls and phases before the end only. -/
structure Quiet (s s' : StatusCache) : Prop where
  inFlight : s'.inFlight = s.inFlight
  cache : s'.cache = s.cache
  generations : s'.generations = s.generations
  runs : ∀ (r : Nat) (run' : StatusRun), s'.runs[r]? = some run' →
    ∃ run : StatusRun, s.runs[r]? = some run ∧ run.Keeps run'

theorem Quiet.of_runs (hinFlight : s'.inFlight = s.inFlight) (hcache : s'.cache = s.cache)
    (hgenerations : s'.generations = s.generations) (hruns : s'.runs = s.runs) : Quiet s s' :=
  ⟨hinFlight, hcache, hgenerations, fun _ run hrun => ⟨run, hruns ▸ hrun, rfl, rfl, fun _ => Iff.rfl⟩⟩

theorem Quiet.refl (s : StatusCache) : Quiet s s := .of_runs rfl rfl rfl rfl

theorem Quiet.trans {s'' : StatusCache} (h : Quiet s s') (h' : Quiet s' s'') : Quiet s s'' where
  inFlight := h'.inFlight.trans h.inFlight
  cache := h'.cache.trans h.cache
  generations := h'.generations.trans h.generations
  runs r run'' hrun'' := by
    obtain ⟨run', hrun', hkeeps'⟩ := h'.runs r run'' hrun''
    obtain ⟨run, hrun, hkeeps⟩ := h.runs r run' hrun'
    exact ⟨run, hrun, hkeeps'.project.trans hkeeps.project, hkeeps'.generation.trans hkeeps.generation,
      fun outcome => (hkeeps'.settled outcome).trans (hkeeps.settled outcome)⟩

theorem quiet_updateRun {f : StatusRun → StatusRun} (hf : ∀ run, s.runs[r]? = some run → run.Keeps (f run)) :
    Quiet s (s.updateRun r f) :=
  ⟨rfl, rfl, rfl, fun _ _ hrun' => of_updateRun hf hrun'⟩

/-- A phase that is not the end, for a run that has not ended. -/
theorem quiet_phase {run : StatusRun} {phase phase' : RunPhase} (hrun : s.runs[r]? = some run)
    (hphase : run.phase = phase) (hopen : ∀ outcome, phase ≠ .settled outcome)
    (hopen' : ∀ outcome, phase' ≠ .settled outcome) : Quiet s (s.updateRun r ({ · with phase := phase' })) := by
  refine quiet_updateRun fun run' hrun' => ?_
  obtain rfl := Option.some.inj (hrun.symm.trans hrun')
  exact .of_phase (not_settled_of_phase hphase hopen) hopen'

theorem quiet_grant (s : StatusCache) (r : Nat) : Quiet s (s.grant r) := by
  unfold grant
  split
  · rename_i run hrun
    split_ifs with hwaiting
    · have hgranted : Quiet s (s.updateRun r ({ · with phase := .granted })) :=
        quiet_phase hrun hwaiting nofun nofun
      exact hgranted.trans (.of_runs rfl rfl rfl rfl)
    · exact .refl s
  · exact .refl s

theorem quiet_cancel (s : StatusCache) (r : Nat) : Quiet s (s.cancel r) := by
  unfold cancel
  split
  · rename_i run hrun
    split_ifs with hwaiting
    · have hrefused : Quiet s (s.updateRun r ({ · with phase := .refused clientDisconnectedError })) :=
        quiet_phase hrun hwaiting nofun nofun
      exact hrefused.trans (.of_runs rfl rfl rfl rfl)
    · exact .refl s
  · exact .refl s

theorem quiet_abort (s : StatusCache) (r : Nat) : Quiet s (s.abort r) := by
  have haborted : Quiet s (s.updateRun r ({ · with aborted := true })) :=
    quiet_updateRun fun _ _ => ⟨rfl, rfl, fun _ => Iff.rfl⟩
  exact haborted.trans (quiet_cancel _ r)

theorem quiet_releaseSlot (s : StatusCache) : Quiet s s.releaseSlot := by
  unfold releaseSlot
  split
  · exact .of_runs rfl rfl rfl rfl
  · rename_i next rest _
    have hrest : Quiet s { s with activeRuns := s.activeRuns - 1, waiters := rest } := .of_runs rfl rfl rfl rfl
    exact hrest.trans (quiet_grant _ next)

theorem quiet_finish (s : StatusCache) (c : Nat) (answer : Except Failure StatusAnswer) :
    Quiet s (s.finish c answer) := by
  unfold finish
  split
  · rename_i r _
    have htokens : Quiet s (s.updateRun r fun run => { run with tokens := run.tokens.erase c }) :=
      quiet_updateRun fun _ _ => ⟨rfl, rfl, fun _ => Iff.rfl⟩
    exact htokens.trans (.of_runs rfl rfl rfl rfl)
  · exact .refl s

theorem quiet_disconnect (s : StatusCache) (signal : Nat) : Quiet s (s.disconnect signal) := by
  have hcall : ∀ (s : StatusCache) (c : Nat), Quiet s (disconnectCall signal s c) := by
    intro s c
    have hfinished := quiet_finish s c (.error clientDisconnectedError)
    unfold disconnectCall
    split
    · split_ifs
      · dsimp only
        split
        · split_ifs
          · exact hfinished.trans (quiet_abort _ _)
          · exact hfinished
        · exact hfinished
      · exact .refl s
    · exact .refl s
  have hall : ∀ (l : List Nat) (s : StatusCache), Quiet s (l.foldl (disconnectCall signal) s) := by
    intro l
    induction l with
    | nil => exact fun s => .refl s
    | cons c l ih => exact fun s => (hcall s c).trans (ih _)
  unfold disconnect
  split_ifs
  · exact .refl s
  · have hfired : Quiet s { s with abortedSignals := signal :: s.abortedSignals } := .of_runs rfl rfl rfl rfl
    exact hfired.trans (hall _ _)

theorem quiet_joinRun (s : StatusCache) (r : Nat) (projectId : JsString) (signal : Option Nat) :
    Quiet s (s.joinRun r projectId signal) := by
  have htokens : Quiet s (s.updateRun r fun run => { run with tokens := run.tokens ++ [s.calls.length] }) :=
    quiet_updateRun fun _ _ => ⟨rfl, rfl, fun _ => Iff.rfl⟩
  exact htokens.trans (.of_runs rfl rfl rfl rfl)

/-- A run of the present generation of its project that has not ended is in flight. -/
def Sole (s : StatusCache) : Prop :=
  ∀ (r : Nat) (run : StatusRun), s.runs[r]? = some run → run.generation = s.generations run.project.id →
    (∀ outcome, run.phase ≠ .settled outcome) → s.inFlight run.project.id = some r

theorem Quiet.sole (h : Quiet s s') (hsole : Sole s) : Sole s' := by
  intro r run' hrun' hgeneration hopen
  obtain ⟨run, hrun, hkeeps⟩ := h.runs r run' hrun'
  rw [hkeeps.project, hkeeps.generation, h.generations] at hgeneration
  rw [h.inFlight, hkeeps.project]
  exact hsole r run hrun hgeneration fun outcome hend => hopen outcome ((hkeeps.settled outcome).mpr hend)

theorem sole_startRun (h : Sole s) {project : Project} (hnone : s.inFlight project.id = none) (background : Bool) :
    Sole (s.startRun config project background) := by
  obtain ⟨n, waiters, heq⟩ := startRun_eq config s project background
  rw [heq]
  intro r run hrun hgeneration hopen
  dsimp only
  rcases getElem?_append_singleton hrun with hold | ⟨rfl, rfl⟩
  · have hin : s.inFlight run.project.id = some r := h r run hold hgeneration hopen
    have hne : run.project.id ≠ project.id := by
      intro hid
      rw [hid, hnone] at hin
      cases hin
    rw [Function.update_of_ne hne]
    exact hin
  · exact Function.update_self ..

theorem sole_get (h : Sole s) (project : Project) (signal : Option Nat) :
    Sole (s.get config project signal) := by
  have hanswerNow : ∀ {s : StatusCache} {answer : Except Failure StatusAnswer}, Sole s →
      Sole (s.answerNow project.id signal answer) := fun hs => (Quiet.of_runs rfl rfl rfl rfl).sole hs
  unfold get
  split
  · exact hanswerNow h
  · split
    · split_ifs with hfresh hin
      · exact hanswerNow h
      · exact hanswerNow h
      · exact hanswerNow (sole_startRun h (Option.not_isSome_iff_eq_none.mp hin) true)
    · split
      · exact (quiet_joinRun _ _ _ _).sole h
      · rename_i hnone
        exact (quiet_joinRun _ _ _ _).sole (sole_startRun h hnone false)

theorem sole_settle (h : Sole s) (r : Nat) (projectId : JsString) (outcome : Except Failure SyncStatusResult) :
    Sole (s.settle r projectId outcome) := by
  intro r' run' hrun' hgeneration hopen
  have hget := getElem?_updateRun s r r' ({ · with phase := .settled outcome })
  obtain ⟨run₀, hrun₀, heq⟩ := Option.map_eq_some_iff.mp (hget.symm.trans hrun')
  by_cases hr : r = r'
  · rw [if_pos hr] at heq
    subst heq
    exact absurd rfl (hopen outcome)
  · rw [if_neg hr] at heq
    subst heq
    have hin : s.inFlight run₀.project.id = some r' := h r' run₀ hrun₀ hgeneration hopen
    dsimp only [settle]
    split_ifs with hself
    · have hne : run₀.project.id ≠ projectId := by
        intro hid
        rw [hid, hself] at hin
        exact hr (Option.some.inj hin)
      rw [Function.update_of_ne hne]
      exact hin
    · exact hin

theorem sole_invalidate (h : Sole s) (hs : Sound s) (projectId : JsString) : Sole (s.invalidate projectId) := by
  have hdropped : Sole
      { s with
        cache := Function.update s.cache projectId none
        generations := Function.update s.generations projectId (s.generations projectId + 1)
        inFlight := Function.update s.inFlight projectId none } := by
    intro r run hrun hgeneration hopen
    dsimp only at hrun hgeneration ⊢
    have hle := hs.generation hrun
    by_cases hid : run.project.id = projectId
    · rw [hid, Function.update_self] at hgeneration
      rw [hid] at hle
      omega
    · rw [Function.update_of_ne hid] at hgeneration ⊢
      exact h r run hrun hgeneration hopen
  unfold invalidate
  split
  · exact (quiet_abort _ _).sole hdropped
  · exact hdropped

theorem sole_complete (h : Sole s) (r : Nat) (run : StatusRun) (outcome : Except Failure SyncStatusResult) :
    Sole (s.complete config r run outcome) := by
  have hreleased : ∀ {s : StatusCache}, Sole s → Sole (s.releaseSlot.settle r run.project.id outcome) :=
    fun hs => sole_settle ((quiet_releaseSlot _).sole hs) r run.project.id outcome
  unfold complete
  cases outcome with
  | error e => exact hreleased h
  | ok result =>
      dsimp only
      split_ifs
      · have hcached : Sole
            { s with
              cache := Function.update s.cache run.project.id (some ⟨⟨result, r⟩, s.now + ttlMs config⟩) } := h
        exact hreleased hcached
      · exact hreleased h

theorem sole_step {P : Platform} {e : StatusEvent} (h : Sole s) (hs : Sound s)
    (hstep : s.step P config e = some s') : Sole s' := by
  cases stepped_of_step hstep with
  | get project signal => exact sole_get h project signal
  | disconnect signal => exact (quiet_disconnect s signal).sole h
  | invalidate projectId => exact sole_invalidate h hs projectId
  | setTime now => exact (Quiet.of_runs rfl rfl rfl rfl).sole h
  | @proceed r run hrun hphase =>
      have hrunning : Quiet s (s.updateRun r ({ · with phase := .running })) := quiet_phase hrun hphase nofun nofun
      exact hrunning.sole h
  | refuse hrun hphase => exact sole_settle h _ _ _
  | complete hrun hphase _ => exact sole_complete h _ _ _
  | notify hcall hrun hphase => exact (quiet_finish s _ _).sole h

theorem sole_run {P : Platform} {events : List StatusEvent}
    (hrun : Machine.run (step P config) start events = some s) : Sound s ∧ Sole s := by
  refine run_keeps (I := fun s => Sound s ∧ Sole s)
    (fun h hstep => ⟨sound_step h.1 hstep, sole_step h.2 h.1 hstep⟩) hrun ⟨sound_start, ?_⟩
  intro r run hrun
  simp [start] at hrun

/-! ## What enters the cache, and what leaves the runs in flight -/

/-- A run that ends with a result, has not been aborted and is of the present generation. -/
def Completes (P : Platform) (s : StatusCache) (projectId : JsString) (e : StatusEvent) (entry : CacheEntry) : Prop :=
  ∃ (run : StatusRun) (snapshots : List ResticSnapshot) (secretCount : Nat),
    e = .complete entry.run (.ok (snapshots, secretCount)) ∧ s.runs[entry.run]? = some run ∧
      run.phase = .running ∧ run.aborted = false ∧ run.project.id = projectId ∧
      run.generation = s.generations projectId ∧
      entry.result = resticSyncStatus P run.project snapshots secretCount

theorem cache_complete {run : StatusRun} {outcome : Except Failure SyncStatusResult} {projectId : JsString}
    {entry : CacheEntry} (h : (s.complete config r run outcome).cache projectId = some entry) :
    s.cache projectId = some entry ∨ ∃ result, outcome = .ok result ∧ run.aborted = false ∧
      run.project.id = projectId ∧ run.generation = s.generations projectId ∧ entry.toStatusAnswer = ⟨result, r⟩ := by
  have hrest : ∀ s : StatusCache, (s.releaseSlot.settle r run.project.id outcome).cache = s.cache := fun s =>
    ((internal_releaseSlot s).trans (internal_settle _ _ _ _)).cache
  unfold complete at h
  cases outcome with
  | error e =>
      dsimp only at h
      rw [hrest] at h
      exact Or.inl h
  | ok result =>
      dsimp only at h
      split_ifs at h with hcached
      · rw [hrest] at h
        dsimp only at h
        by_cases hid : projectId = run.project.id
        · rw [hid, Function.update_self] at h
          cases h
          rw [hid]
          exact Or.inr ⟨result, rfl, hcached.1, rfl, hcached.2, rfl⟩
        · rw [Function.update_of_ne hid] at h
          exact Or.inl h
      · rw [hrest] at h
        exact Or.inl h

theorem cache_invalidate (s : StatusCache) (projectId : JsString) :
    (s.invalidate projectId).cache = Function.update s.cache projectId none := by
  unfold invalidate
  split
  · rw [(quiet_abort _ _).cache]
  · rfl

/-- What enters the cache is the result of a run that completes. -/
theorem cache_step {P : Platform} {e : StatusEvent} {projectId : JsString} {entry : CacheEntry}
    (hstep : s.step P config e = some s') (hcache : s'.cache projectId = some entry) :
    s.cache projectId = some entry ∨ Completes P s projectId e entry := by
  cases stepped_of_step hstep with
  | get project signal =>
      obtain ⟨call, hrequested⟩ := requested_get config s project signal
      rw [hrequested.cache] at hcache
      exact Or.inl hcache
  | disconnect signal =>
      rw [(quiet_disconnect s signal).cache] at hcache
      exact Or.inl hcache
  | invalidate invalidated =>
      rw [cache_invalidate] at hcache
      by_cases hid : projectId = invalidated
      · rw [hid, Function.update_self] at hcache
        cases hcache
      · rw [Function.update_of_ne hid] at hcache
        exact Or.inl hcache
  | setTime now => exact Or.inl hcache
  | proceed hrun hphase => exact Or.inl hcache
  | refuse hrun hphase => exact Or.inl hcache
  | @complete r run outcome hrun hphase _ =>
      rcases cache_complete hcache with hold | ⟨result, hok, haborted, hid, hgeneration, hentry⟩
      · exact Or.inl hold
      · cases outcome with
        | error e => cases hok
        | ok listing =>
            cases hok
            have hr : entry.run = r := congrArg StatusAnswer.run hentry
            refine Or.inr ⟨run, listing.1, listing.2, ?_, ?_, hphase, haborted, hid, hgeneration, ?_⟩
            · rw [hr]
            · rw [hr, hrun]
            · exact congrArg StatusAnswer.result hentry
  | notify hcall hrun hphase =>
      rw [(quiet_finish s _ _).cache] at hcache
      exact Or.inl hcache

/-- The end of a run takes away no other run from the runs in flight. -/
theorem inFlight_settle {projectId projectId' : JsString} {r' : Nat} (hin : s.inFlight projectId = some r')
    (hr : r' ≠ r) (outcome : Except Failure SyncStatusResult) :
    (s.settle r projectId' outcome).inFlight projectId = some r' := by
  dsimp only [settle]
  split_ifs with hself
  · have hid : projectId ≠ projectId' := by
      intro hid
      rw [hid, hself] at hin
      exact hr (Option.some.inj hin).symm
    rw [Function.update_of_ne hid]
    exact hin
  · exact hin

theorem inFlight_step {P : Platform} {e : StatusEvent} {projectId : JsString} {r' : Nat}
    (hend : e = .proceed r ∨ ∃ outcome, e = .complete r outcome) (hstep : s.step P config e = some s')
    (hin : s.inFlight projectId = some r') (hr : r' ≠ r) : s'.inFlight projectId = some r' := by
  cases stepped_of_step hstep with
  | get project signal => simp at hend
  | disconnect signal => simp at hend
  | invalidate invalidated => simp at hend
  | setTime now => simp at hend
  | proceed hrun hphase => exact hin
  | refuse hrun hphase =>
      obtain rfl : _ = r := by simpa using hend
      exact inFlight_settle hin hr _
  | @complete r₀ run outcome hrun hphase _ =>
      obtain rfl : r₀ = r := by simpa using hend
      have hrest : ∀ {s : StatusCache} (outcome : Except Failure SyncStatusResult), s.inFlight projectId = some r' →
          (s.releaseSlot.settle r₀ run.project.id outcome).inFlight projectId = some r' := by
        intro s outcome hin
        refine inFlight_settle ?_ hr outcome
        rw [(quiet_releaseSlot s).inFlight]
        exact hin
      unfold complete
      cases outcome with
      | error e => exact hrest _ hin
      | ok listing =>
          dsimp only [Except.map]
          split_ifs
          · exact hrest _ hin
          · exact hrest _ hin
  | notify hcall hrun hphase => simp at hend

/-! ## No status from before an invalidation -/

/-- A request of the project joins the run when there is no cached result. -/
def Joinable (s : StatusCache) (projectId : JsString) (r : Nat) : Prop := s.inFlight projectId = some r

/-- The joinable runs are those of the present generation that have not ended. -/
theorem joinable_iff (hs : Sound s) (hsole : Sole s) {projectId : JsString} : Joinable s projectId r ↔
    ∃ run, s.runs[r]? = some run ∧ run.project.id = projectId ∧ run.generation = s.generations projectId ∧
      ∀ outcome, run.phase ≠ .settled outcome := by
  constructor
  · exact fun hin => hs.inFlight hin
  · rintro ⟨run, hrun, rfl, hgeneration, hopen⟩
    exact hsole r run hrun hgeneration hopen

/-- What the requests of a project after an invalidation get, and the cache holds, are results of runs of the
project from after it. -/
structure ServedSince (s : StatusCache) (projectId : JsString) (s' : StatusCache) : Prop where
  answers : ∀ (c : Nat) (call : StatusCall) (a : StatusAnswer), s.calls.length ≤ c → s'.calls[c]? = some call →
    call.projectId = projectId → call.answer = some (.ok a) → s.runs.length ≤ a.run ∧
      ∃ run, s'.runs[a.run]? = some run ∧ run.project.id = projectId ∧ run.phase = .settled (.ok a.result)
  cache : ∀ entry, s'.cache projectId = some entry → s.runs.length ≤ entry.run ∧
    ∃ run, s'.runs[entry.run]? = some run ∧ run.project.id = projectId ∧ run.phase = .settled (.ok entry.result)

theorem servedSince_run {P : Platform} {projectId : JsString} {events later : List StatusEvent}
    (hrun : Machine.run (step P config) start events = some s)
    (hlater : Machine.run (step P config) (s.invalidate projectId) later = some s') : ServedSince s projectId s' := by
  obtain ⟨hs', hsince⟩ := since_run hrun hlater
  refine ⟨fun c call a hc hcall hid hanswer => ⟨?_, ?_⟩, fun entry hentry => ?_⟩
  · exact hsince.answered c call a hc hcall hid hanswer
  · rw [← hid]
    exact hs'.answered hcall hanswer
  · obtain ⟨run, hentryRun, hid, hpresent, hend⟩ := hs'.cached hentry
    exact ⟨hsince.le_of_present hentryRun hid hpresent, run, hentryRun, hid, hend⟩

/-- After an invalidation no request is answered with, and the cache never holds, the result of a run from before
it; only a run that succeeds and is not aborted enters the cache; the joinable runs of a project are those of its
present generation that have not ended, and there is at most one; and the end of a run leaves every other run
in flight. -/
theorem statusCache_never_stale (P : Platform) (config : StatusConfig) {events : List StatusEvent} {s : StatusCache}
    (hrun : Machine.run (step P config) start events = some s) :
    (∀ projectId later s', Machine.run (step P config) (s.invalidate projectId) later = some s' →
      ServedSince s projectId s') ∧
    (∀ e s' projectId entry, s.step P config e = some s' → s'.cache projectId = some entry →
      s.cache projectId = some entry ∨ Completes P s projectId e entry) ∧
    (∀ projectId r, Joinable s projectId r ↔ ∃ run, s.runs[r]? = some run ∧ run.project.id = projectId ∧
      run.generation = s.generations projectId ∧ ∀ outcome, run.phase ≠ .settled outcome) ∧
    (∀ projectId r r', Joinable s projectId r → Joinable s projectId r' → r = r') ∧
    ∀ r e s' projectId r', (e = .proceed r ∨ ∃ outcome, e = .complete r outcome) → s.step P config e = some s' →
      s.inFlight projectId = some r' → r' ≠ r → s'.inFlight projectId = some r' := by
  obtain ⟨hs, hsole⟩ := sole_run hrun
  refine ⟨fun projectId later s' hlater => servedSince_run hrun hlater,
    fun e s' projectId entry hstep hcache => cache_step hstep hcache, fun projectId r => joinable_iff hs hsole,
    fun projectId r r' hr hr' => ?_, fun r e s' projectId r' hend hstep hin hne => inFlight_step hend hstep hin hne⟩
  exact Option.some.inj (hr.symm.trans hr')

/-- A run is under way at the invalidation; a request that comes after it gets the result of the next run. -/
theorem statusCache_never_stale_example : ∃ s s' call a,
    Machine.run (step runPlatform ⟨none, none⟩) start [.get exampleProject none, .proceed 0] = some s ∧
      Machine.run (step runPlatform ⟨none, none⟩) (s.invalidate (js "p"))
        [.get exampleProject none, .proceed 1, .complete 0 (.ok ([], 1)), .complete 1 (.ok ([], 2)), .notify 1] =
          some s' ∧
      s'.calls[1]? = some call ∧ call.answer = some (.ok a) ∧ s.runs.length ≤ a.run := by
  refine ⟨_, _, _, _, rfl, rfl, rfl, rfl, ?_⟩
  have hserved := (@statusCache_never_stale runPlatform ⟨none, none⟩ [.get exampleProject none, .proceed 0] _ rfl).1
    (js "p") [.get exampleProject none, .proceed 1, .complete 0 (.ok ([], 1)), .complete 1 (.ok ([], 2)), .notify 1]
    _ rfl
  exact (hserved.answers 1 _ _ (by decide) rfl rfl rfl).1

end StatusCache

end SecretsManager
