import SecretsManager.Restic.SyncStatusCache
import SecretsManager.Runs

/-!
# Disconnects of status requests

A run counts the calls that wait for it, and is aborted when the last of them disconnects. Its entry in flight
stays until it has ended, so that a request can join an aborted run, and is then answered as disconnected.
-/

namespace SecretsManager

open Js Machine

/-- The run was refused a slot or has failed, with the error. -/
def StatusRun.Fails (run : StatusRun) (e : Failure) : Prop :=
  run.phase = .refused e ∨ run.phase = .settled (.error e)

namespace StatusCache

/-! ## The invariant -/

/-- A run for which a call waits counts it and is not aborted, only aborted runs fail with a disconnect, and
only a call whose signal has fired is answered with one. -/
structure Attended (s : StatusCache) : Prop where
  waits : ∀ (c : Nat) (call : StatusCall) (r : Nat), s.calls[c]? = some call → call.run = some r →
    call.answer = none → ∃ run, s.runs[r]? = some run ∧ c ∈ run.tokens ∧ run.aborted = false
  fails : ∀ (r : Nat) (run : StatusRun) (e : Failure), s.runs[r]? = some run → run.Fails e → e.isDisconnect = true →
    run.aborted = true
  answered : ∀ (c : Nat) (call : StatusCall) (e : Failure), s.calls[c]? = some call →
    call.answer = some (.error e) → e.isDisconnect = true → s.isAborted call.signal = true

variable {s s' : StatusCache} {config : StatusConfig} {r : Nat}

theorem attended_start : Attended start where
  waits c call r hcall := by simp [start] at hcall
  fails r run e hrun := by simp [start] at hrun
  answered c call e hcall := by simp [start] at hcall

/-- The invariant does not depend on the slots, the clock and the cache. -/
theorem Attended.congr (h : Attended s) (hruns : s'.runs = s.runs) (hcalls : s'.calls = s.calls)
    (hsignals : s'.abortedSignals = s.abortedSignals) : Attended s' := by
  obtain ⟨h₁, h₂, h₃⟩ := h
  rw [← hruns] at h₁ h₂
  rw [← hcalls] at h₁ h₃
  refine ⟨h₁, h₂, fun c call e hcall hanswer hdisconnect => ?_⟩
  have hfired := h₃ c call e hcall hanswer hdisconnect
  unfold isAborted at hfired ⊢
  rw [hsignals]
  exact hfired

/-- A change of a run that drops no call, does not abort it, and fails it with a disconnect only when it was
aborted. -/
structure Steady (run run' : StatusRun) : Prop where
  tokens : ∀ c ∈ run.tokens, c ∈ run'.tokens
  aborted : run'.aborted = run.aborted
  fails : ∀ e, run'.Fails e → e.isDisconnect = true → run.Fails e ∨ run.aborted = true

theorem Attended.updateRun (h : Attended s) {f : StatusRun → StatusRun}
    (hf : ∀ run, s.runs[r]? = some run → Steady run (f run)) : Attended (s.updateRun r f) where
  waits c call r' hcall hjoined hanswer := by
    obtain ⟨run, hrun, htoken, haborted⟩ := h.waits c call r' hcall hjoined hanswer
    refine ⟨_, (getElem?_updateRun s r r' f).trans (by rw [hrun, Option.map_some]), ?_⟩
    split_ifs with hr
    · have hsteady := hf run (hr ▸ hrun)
      exact ⟨hsteady.tokens c htoken, hsteady.aborted.trans haborted⟩
    · exact ⟨htoken, haborted⟩
  fails r' run' e hrun' hfails hdisconnect := by
    rw [getElem?_updateRun] at hrun'
    obtain ⟨run, hrun, rfl⟩ := Option.map_eq_some_iff.mp hrun'
    split_ifs at hfails ⊢ with hr
    · have hsteady := hf run (hr ▸ hrun)
      rw [hsteady.aborted]
      rcases hsteady.fails e hfails hdisconnect with hold | haborted
      · exact h.fails r' run e hrun hold hdisconnect
      · exact haborted
    · exact h.fails r' run e hrun hfails hdisconnect
  answered := h.answered

/-- A phase in which a run has not failed is steady. -/
theorem Steady.of_phase {run : StatusRun} {phase : RunPhase} (hrefused : ∀ e, phase ≠ .refused e)
    (hsettled : ∀ e, phase ≠ .settled (.error e)) : Steady run { run with phase := phase } where
  tokens _ h := h
  aborted := rfl
  fails e hfails := by
    rcases hfails with heq | heq
    · exact absurd heq (hrefused e)
    · exact absurd heq (hsettled e)

/-! ## Slots and ends of runs -/

theorem Attended.grant (h : Attended s) (r : Nat) : Attended (s.grant r) := by
  unfold StatusCache.grant
  split
  · split_ifs
    · have hgranted : Attended (s.updateRun r ({ · with phase := .granted })) :=
        h.updateRun fun run _ => .of_phase nofun nofun
      exact hgranted.congr rfl rfl rfl
    · exact h
  · exact h

theorem Attended.releaseSlot (h : Attended s) : Attended s.releaseSlot := by
  unfold StatusCache.releaseSlot
  split
  · exact h.congr rfl rfl rfl
  · rename_i next rest _
    have hrest : Attended { s with activeRuns := s.activeRuns - 1, waiters := rest } := h.congr rfl rfl rfl
    exact hrest.grant next

theorem aborted_releaseSlot {run' : StatusRun} (hrun' : s.releaseSlot.runs[r]? = some run') :
    ∃ run, s.runs[r]? = some run ∧ run'.aborted = run.aborted := by
  unfold releaseSlot at hrun'
  split at hrun'
  · exact ⟨run', hrun', rfl⟩
  · rename_i next rest _
    unfold grant at hrun'
    dsimp only at hrun'
    split at hrun'
    · split_ifs at hrun'
      · have hget := getElem?_updateRun s next r ({ · with phase := .granted })
        obtain ⟨run, hrun, rfl⟩ := Option.map_eq_some_iff.mp (hget.symm.trans hrun')
        refine ⟨run, hrun, ?_⟩
        split_ifs <;> rfl
      · exact ⟨run', hrun', rfl⟩
    · exact ⟨run', hrun', rfl⟩

theorem Attended.settle (h : Attended s) {projectId : JsString} {outcome : Except Failure SyncStatusResult}
    (hkilled : ∀ run e, s.runs[r]? = some run → outcome = .error e → e.isDisconnect = true → run.aborted = true) :
    Attended (s.settle r projectId outcome) := by
  have hsettled : Attended (s.updateRun r ({ · with phase := .settled outcome })) := by
    refine h.updateRun fun run hrun => ⟨fun _ hc => hc, rfl, fun e hfails hdisconnect => Or.inr ?_⟩
    rcases hfails with heq | heq
    · cases heq
    · cases heq
      exact hkilled run e hrun rfl hdisconnect
  exact hsettled.congr rfl rfl rfl

theorem Attended.complete (h : Attended s) {run : StatusRun} {outcome : Except Failure SyncStatusResult}
    (hrun : s.runs[r]? = some run) (hkilled : ∀ e, outcome = .error e → e.isDisconnect = true → run.aborted = true) :
    Attended (s.complete config r run outcome) := by
  have hrest : ∀ {s : StatusCache}, Attended s → s.runs[r]? = some run →
      Attended (s.releaseSlot.settle r run.project.id outcome) := by
    intro s hs hrun
    refine hs.releaseSlot.settle fun run' e hrun' heq hdisconnect => ?_
    obtain ⟨run₀, hrun₀, haborted⟩ := aborted_releaseSlot hrun'
    obtain rfl := Option.some.inj (hrun.symm.trans hrun₀)
    rw [haborted]
    exact hkilled e heq hdisconnect
  unfold StatusCache.complete
  cases outcome with
  | error e => exact hrest h hrun
  | ok result =>
      dsimp only
      split_ifs
      · have hcached : Attended
            { s with
              cache := Function.update s.cache run.project.id (some ⟨⟨result, r⟩, s.now + ttlMs config⟩) } :=
          h.congr rfl rfl rfl
        exact hrest hcached hrun
      · exact hrest h hrun

/-! ## Calls -/

theorem Attended.answerNow (h : Attended s) {projectId : JsString} {signal : Option Nat}
    {answer : Except Failure StatusAnswer}
    (hanswer : ∀ e, answer = .error e → e.isDisconnect = true → s.isAborted signal = true) :
    Attended (s.answerNow projectId signal answer) := by
  refine ⟨fun c call r hcall hjoined hwaits => ?_, h.fails, fun c call e hcall hgiven hdisconnect => ?_⟩
  · rcases getElem?_append_singleton hcall with hold | ⟨-, rfl⟩
    · exact h.waits c call r hold hjoined hwaits
    · cases hjoined
  · rcases getElem?_append_singleton hcall with hold | ⟨-, rfl⟩
    · exact h.answered c call e hold hgiven hdisconnect
    · exact hanswer e (Option.some.inj hgiven) hdisconnect

/-- A call joins a run that is not aborted. -/
theorem Attended.joinRun (h : Attended s) {run : StatusRun} (hrun : s.runs[r]? = some run)
    (hlive : run.aborted = false) (projectId : JsString) (signal : Option Nat) :
    Attended (s.joinRun r projectId signal) := by
  have hupdated : Attended (s.updateRun r fun run => { run with tokens := run.tokens ++ [s.calls.length] }) :=
    h.updateRun fun run _ => ⟨fun c hc => List.mem_append_left _ hc, rfl, fun e hfails _ => Or.inl hfails⟩
  refine ⟨fun c call r' hcall hjoined hwaits => ?_, hupdated.fails, fun c call e hcall hgiven hdisconnect => ?_⟩
  · rcases getElem?_append_singleton hcall with hold | ⟨rfl, rfl⟩
    · exact hupdated.waits c call r' hold hjoined hwaits
    · cases hjoined
      refine ⟨{ run with tokens := run.tokens ++ [s.calls.length] }, ?_, ?_, hlive⟩
      · exact (getElem?_updateRun s r r _).trans (by rw [hrun, Option.map_some, if_pos rfl])
      · exact List.mem_append_right _ (List.mem_singleton_self _)
  · rcases getElem?_append_singleton hcall with hold | ⟨-, rfl⟩
    · exact hupdated.answered c call e hold hgiven hdisconnect
    · cases hgiven

theorem Attended.startRun (h : Attended s) (project : Project) (background : Bool) :
    Attended (s.startRun config project background) := by
  have hnew : ∀ e, (s.newRun config project background).Fails e → e.isDisconnect = false := by
    intro e hfails
    rcases hfails with heq | heq
    · dsimp only [newRun] at heq
      unfold acquireSlot at heq
      split_ifs at heq
      cases heq
      rfl
    · exact absurd heq ((acquireSlot_spec config s).2 _)
  obtain ⟨n, waiters, heq⟩ := startRun_eq config s project background
  rw [heq]
  refine ⟨fun c call r hcall hjoined hwaits => ?_, fun r run e hrun hfails hdisconnect => ?_, h.answered⟩
  · obtain ⟨run, hrun, hrest⟩ := h.waits c call r hcall hjoined hwaits
    exact ⟨run, getElem?_of_append hrun, hrest⟩
  · rcases getElem?_append_singleton hrun with hold | ⟨-, rfl⟩
    · exact h.fails r run e hold hfails hdisconnect
    · rw [hnew e hfails] at hdisconnect
      cases hdisconnect

/-- An answer to a call: with a disconnect only when its signal has fired. -/
theorem Attended.finish (h : Attended s) {c : Nat} {answer : Except Failure StatusAnswer}
    (hanswer : ∀ call e, s.calls[c]? = some call → call.answer = none → answer = .error e → e.isDisconnect = true →
      s.isAborted call.signal = true) : Attended (s.finish c answer) := by
  unfold StatusCache.finish
  split
  · rename_i projectId signal r hcall
    have hlt : c < s.calls.length := (List.getElem?_eq_some_iff.mp hcall).1
    refine ⟨fun c' call r' hcall' hjoined hwaits => ?_, fun r' run' e hrun' hfails hdisconnect => ?_,
      fun c' call e hcall' hgiven hdisconnect => ?_⟩
    · have hc : c ≠ c' := by
        intro heq
        subst heq
        dsimp only at hcall'
        rw [List.getElem?_set_self hlt] at hcall'
        cases hcall'
        cases hwaits
      dsimp only at hcall'
      rw [List.getElem?_set_ne hc] at hcall'
      obtain ⟨run, hrun, htoken, haborted⟩ := h.waits c' call r' hcall' hjoined hwaits
      refine ⟨_, (getElem?_updateRun s r r' _).trans (by rw [hrun, Option.map_some]), ?_⟩
      split_ifs
      · exact ⟨(List.mem_erase_of_ne (Ne.symm hc)).mpr htoken, haborted⟩
      · exact ⟨htoken, haborted⟩
    · have hget := getElem?_updateRun s r r' fun run => { run with tokens := run.tokens.erase c }
      obtain ⟨run, hrun, rfl⟩ := Option.map_eq_some_iff.mp (hget.symm.trans hrun')
      split_ifs at hfails ⊢
      · exact h.fails r' run e hrun hfails hdisconnect
      · exact h.fails r' run e hrun hfails hdisconnect
    · by_cases hc : c = c'
      · subst hc
        dsimp only at hcall'
        rw [List.getElem?_set_self hlt] at hcall'
        cases hcall'
        exact hanswer ⟨projectId, signal, some r, none⟩ e hcall rfl (Option.some.inj hgiven) hdisconnect
      · dsimp only at hcall'
        rw [List.getElem?_set_ne hc] at hcall'
        exact h.answered c' call e hcall' hgiven hdisconnect
  · exact h

/-! ## Requests and disconnects -/

/-- A request joins no aborted run. -/
def JoinsLive (s : StatusCache) : StatusEvent → Prop
  | .get project signal => s.isAborted signal = false → s.cache project.id = none →
      ∀ r run, s.inFlight project.id = some r → s.runs[r]? = some run → run.aborted = false
  | _ => True

theorem Attended.get (h : Attended s) (hs : Sound s) {project : Project} {signal : Option Nat}
    (hlive : JoinsLive s (.get project signal)) : Attended (s.get config project signal) := by
  unfold StatusCache.get
  by_cases hfired : s.isAborted signal = true
  · rw [if_pos hfired]
    exact h.answerNow fun _ _ _ => hfired
  · rw [if_neg hfired]
    split
    · split_ifs
      · exact h.answerNow nofun
      · exact h.answerNow nofun
      · exact (h.startRun project true).answerNow nofun
    · rename_i hnone
      split
      · rename_i existing hexisting
        obtain ⟨run, hrun, -⟩ := hs.inFlight hexisting
        exact h.joinRun hrun (hlive (Bool.of_not_eq_true hfired) hnone existing run hexisting hrun) _ _
      · exact (h.startRun project false).joinRun (getElem?_startRun config s project false) rfl _ _

/-- An abort of a run for which no call waits. -/
theorem Attended.abort (h : Attended s) (hnone : ∀ (c : Nat) (call : StatusCall), s.calls[c]? = some call →
    call.run = some r → call.answer ≠ none) : Attended (s.abort r) := by
  have haborted : Attended (s.updateRun r ({ · with aborted := true })) := by
    refine ⟨fun c call r' hcall hjoined hwaits => ?_, fun r' run' e hrun' hfails hdisconnect => ?_, h.answered⟩
    · obtain ⟨run, hrun, hrest⟩ := h.waits c call r' hcall hjoined hwaits
      have hr : r ≠ r' := by
        intro heq
        subst heq
        exact hnone c call hcall hjoined hwaits
      exact ⟨run, (getElem?_updateRun s r r' _).trans (by rw [hrun, Option.map_some, if_neg hr]), hrest⟩
    · have hget := getElem?_updateRun s r r' ({ · with aborted := true })
      obtain ⟨run, hrun, rfl⟩ := Option.map_eq_some_iff.mp (hget.symm.trans hrun')
      split_ifs at hfails ⊢
      · rfl
      · exact h.fails r' run e hrun hfails hdisconnect
  unfold StatusCache.abort cancel
  split
  · rename_i run hrun
    split_ifs
    · have hrefused : Attended ((s.updateRun r ({ · with aborted := true })).updateRun r
          ({ · with phase := .refused clientDisconnectedError })) := by
        refine haborted.updateRun fun run' hrun' => ⟨fun _ hc => hc, rfl, fun e _ _ => Or.inr ?_⟩
        have hget := getElem?_updateRun s r r ({ · with aborted := true })
        obtain ⟨run₀, -, rfl⟩ := Option.map_eq_some_iff.mp (hget.symm.trans hrun')
        rw [if_pos rfl]
      exact hrefused.congr rfl rfl rfl
    · exact haborted
  · exact haborted

theorem abortedSignals_finish (s : StatusCache) (c : Nat) (answer : Except Failure StatusAnswer) :
    (s.finish c answer).abortedSignals = s.abortedSignals := by
  unfold finish
  split <;> rfl

theorem abortedSignals_abort (s : StatusCache) (r : Nat) : (s.abort r).abortedSignals = s.abortedSignals := by
  unfold abort cancel
  split
  · split_ifs <;> rfl
  · rfl

theorem abortedSignals_disconnectCall (signal : Nat) (s : StatusCache) (c : Nat) :
    (disconnectCall signal s c).abortedSignals = s.abortedSignals := by
  unfold disconnectCall
  split
  · split_ifs
    · dsimp only
      split
      · split_ifs
        · rw [abortedSignals_abort, abortedSignals_finish]
        · rw [abortedSignals_finish]
      · rw [abortedSignals_finish]
    · rfl
  · rfl

theorem Attended.disconnect (h : Attended s) (signal : Nat) : Attended (s.disconnect signal) := by
  have hcall : ∀ {s : StatusCache} (c : Nat), signal ∈ s.abortedSignals → Attended s →
      Attended (disconnectCall signal s c) := by
    intro s c hfired hs
    unfold disconnectCall
    split
    · rename_i projectId signal' r hcall
      split_ifs with hsignal
      · have hfinished : Attended (s.finish c (.error clientDisconnectedError)) := by
          refine hs.finish fun call e hcall' _ _ _ => ?_
          obtain rfl := Option.some.inj (hcall.symm.trans hcall')
          rw [isAborted, hsignal]
          exact decide_eq_true hfired
        dsimp only
        split
        · rename_i run hrun
          split_ifs with hlast
          · refine hfinished.abort fun c' call' hcall' hjoined hwaits => ?_
            -- no token is left, so no call waits
            obtain ⟨run', hrun', htoken, -⟩ := hfinished.waits c' call' r hcall' hjoined hwaits
            obtain rfl := Option.some.inj (hrun.symm.trans hrun')
            rw [hlast.1] at htoken
            cases htoken
          · exact hfinished
        · exact hfinished
      · exact hs
    · exact hs
  have hall : ∀ (l : List Nat) {s : StatusCache}, signal ∈ s.abortedSignals → Attended s →
      Attended (l.foldl (disconnectCall signal) s) := by
    intro l
    induction l with
    | nil => exact fun _ hs => hs
    | cons c l ih => exact fun hfired hs => ih ((abortedSignals_disconnectCall signal _ c).symm ▸ hfired) (hcall c hfired hs)
  unfold StatusCache.disconnect
  split_ifs
  · exact h
  · refine hall _ List.mem_cons_self ⟨h.waits, h.fails, fun c call e hcall hgiven hdisconnect => ?_⟩
    have hfired := h.answered c call e hcall hgiven hdisconnect
    cases hsignal : call.signal with
    | none =>
        rw [hsignal] at hfired
        cases hfired
    | some signal' =>
        rw [hsignal] at hfired
        exact decide_eq_true (List.mem_cons_of_mem _ (of_decide_eq_true hfired))

/-! ## Runs without invalidations -/

section Platform
variable {P : Platform}

theorem attended_step {e : StatusEvent} (h : Attended s) (hs : Sound s) (hlive : JoinsLive s e)
    (hkept : ∀ projectId, e ≠ .invalidate projectId) (hstep : s.step P config e = some s') : Attended s' := by
  cases stepped_of_step hstep with
  | get project signal => exact h.get hs hlive
  | disconnect signal => exact h.disconnect signal
  | invalidate projectId => exact absurd rfl (hkept projectId)
  | setTime now => exact h.congr rfl rfl rfl
  | @proceed r run hrun hphase =>
      have hrunning : Attended (s.updateRun r ({ · with phase := .running })) :=
        h.updateRun fun run _ => .of_phase nofun nofun
      exact hrunning
  | @refuse r run e hrun hphase =>
      refine h.settle fun run' e' hrun' heq hdisconnect => ?_
      obtain rfl := Option.some.inj (hrun.symm.trans hrun')
      cases heq
      exact h.fails r run e hrun (Or.inl hphase) hdisconnect
  | @complete r run outcome hrun hphase hkilled =>
      refine h.complete hrun fun e heq hdisconnect => hkilled e ?_ hdisconnect
      cases outcome with
      | error e' =>
          cases heq
          rfl
      | ok listing => cases heq
  | @notify c r projectId signal run outcome hcall hrun hphase =>
      refine h.finish fun call e hcall' hwaits heq hdisconnect => ?_
      obtain rfl := Option.some.inj (hcall.symm.trans hcall')
      cases outcome with
      | ok result => cases heq
      | error e' =>
          cases heq
          -- the run is aborted since it fails so, and not aborted since the call waits
          obtain ⟨run', hrun', -, hlive⟩ := h.waits c _ r hcall rfl rfl
          obtain rfl := Option.some.inj (hrun.symm.trans hrun')
          rw [h.fails r run e hrun (Or.inr hphase) hdisconnect] at hlive
          cases hlive

theorem attended_run {events : List StatusEvent} (hrun : Machine.run (step P config) start events = some s)
    (hlive : Along (step P config) JoinsLive start events) (hkept : ∀ projectId, .invalidate projectId ∉ events) :
    Attended s := by
  have hnone : Along (step P config) (fun _ e => ∀ projectId, e ≠ .invalidate projectId) start events := by
    refine along_iff.mpr fun before e after s' heq _ projectId he => hkept projectId ?_
    rw [heq, he]
    exact List.mem_append_right _ List.mem_cons_self
  have hboth := run_invariant (I := fun s => Sound s ∧ Attended s)
    (fun hinv hcond hstep => ⟨sound_step hinv.1 hstep, attended_step hinv.2 hinv.1 hcond.1 hcond.2 hstep⟩) hrun
    (hlive.and hnone) ⟨sound_start, attended_start⟩
  exact hboth.2

/-- Only a call whose signal has fired is answered as disconnected, and no call waits for an aborted run. -/
structure ConnectedServed (s : StatusCache) : Prop where
  answers : ∀ (c : Nat) (call : StatusCall) (e : Failure), s.calls[c]? = some call →
    call.answer = some (.error e) → e.isDisconnect = true → s.isAborted call.signal = true
  waits : ∀ (c : Nat) (call : StatusCall) (r : Nat) (run : StatusRun), s.calls[c]? = some call →
    call.run = some r → call.answer = none → s.runs[r]? = some run → run.aborted = false

theorem Attended.connectedServed (h : Attended s) : ConnectedServed s where
  answers := h.answered
  waits c call r run hcall hjoined hwaits hrun := by
    obtain ⟨run', hrun', -, hlive⟩ := h.waits c call r hcall hjoined hwaits
    rw [Option.some.inj (hrun.symm.trans hrun')]
    exact hlive

/-- A request that joins an aborted run waits for it. -/
theorem joinsLive_of_served {e : StatusEvent} (hstep : ∀ s', s.step P config e = some s' → ConnectedServed s') :
    JoinsLive s e := by
  cases e with
  | get project signal =>
      intro hfired hnone r run hin hrun
      have hjoined : s.get config project signal = s.joinRun r project.id signal := by
        unfold get
        rw [if_neg (Bool.not_eq_true _ ▸ hfired), hnone, hin]
      have hserved := hstep _ rfl
      rw [hjoined] at hserved
      have hget := getElem?_updateRun s r r fun run => { run with tokens := run.tokens ++ [s.calls.length] }
      rw [hrun, Option.map_some, if_pos rfl] at hget
      exact hserved.waits s.calls.length ⟨project.id, signal, some r, none⟩ r
        { run with tokens := run.tokens ++ [s.calls.length] } (List.getElem?_concat_length ..) rfl rfl hget
  | _ => trivial

/-- Without invalidations, connected callers are never answered as disconnected, and runs with waiting calls
never aborted, exactly when no request joins an aborted run. -/
theorem connected_served_iff (P : Platform) (config : StatusConfig) {events : List StatusEvent}
    (hkept : ∀ projectId, .invalidate projectId ∉ events) :
    (∀ before after s', events = before ++ after → Machine.run (step P config) start before = some s' →
      ConnectedServed s') ↔ Along (step P config) JoinsLive start events := by
  constructor
  · intro hserved
    refine along_iff.mpr fun before e after s₁ heq hbefore => ?_
    have hnext : ∀ s', s₁.step P config e = some s' → ConnectedServed s' := by
      intro s' hstep
      refine hserved (before ++ [e]) after s' ?_ (run_append_eq_some.mpr ⟨s₁, hbefore, ?_⟩)
      · rw [heq, List.append_assoc, List.singleton_append]
      · exact run_cons_eq_some.mpr ⟨s', hstep, rfl⟩
    exact joinsLive_of_served hnext
  · intro hlive before after s' heq hbefore
    subst heq
    refine (attended_run hbefore hlive.of_append fun projectId hmem => ?_).connectedServed
    exact hkept projectId (List.mem_append_left _ hmem)

end Platform

/-- Two callers of one run, of which one disconnects. -/
def pairEvents : List StatusEvent :=
  [.get exampleProject (some 0), .get exampleProject none, .proceed 0, .disconnect 0, .complete 0 (.ok ([], 1)),
    .notify 1]

theorem connected_served_iff_pair :
    ∃ s, Machine.run (step runPlatform ⟨none, none⟩) start pairEvents = some s ∧ ConnectedServed s := by
  have hlive : Along (step runPlatform ⟨none, none⟩) JoinsLive start pairEvents := by
    refine ⟨fun _ _ r run hin => ?_, fun s₁ h₁ => ?_⟩
    · cases hin
    cases h₁
    refine ⟨fun _ _ r run hin hrun => ?_, fun _ _ => ⟨trivial, fun _ _ => ⟨trivial, fun _ _ => ⟨trivial, fun _ _ =>
      ⟨trivial, fun _ _ => trivial⟩⟩⟩⟩⟩
    cases hin
    cases hrun
    rfl
  refine ⟨_, rfl, (connected_served_iff runPlatform ⟨none, none⟩ ?_).mpr hlive pairEvents [] _
    (List.append_nil _).symm rfl⟩
  simp [pairEvents]

/-- The only caller disconnects; the next one joins the aborted run, and is answered as disconnected when the
process has been killed. -/
theorem not_connected_served : ¬ ∀ events s, (∀ projectId, .invalidate projectId ∉ events) →
    Machine.run (step runPlatform ⟨none, none⟩) start events = some s → ConnectedServed s := by
  intro h
  have hserved := h [.get exampleProject (some 0), .proceed 0, .disconnect 0, .get exampleProject none,
    .complete 0 (.error clientDisconnectedError), .notify 1] _ (by simp) rfl
  have hfired := hserved.answers 1 _ clientDisconnectedError rfl rfl rfl
  cases hfired

end StatusCache

end SecretsManager
