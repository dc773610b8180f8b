import SecretsManager.Restic.ResticRunner

/-!
# The supervision of the restic process

The promise settles once and tells what has happened, a process that is asked to stop gets SIGTERM and then SIGKILL,
and nothing is left behind: in every run in which no kill fails. The error of a failed kill settles the promise of a
process that lives, before the kill timer is set.
-/

namespace SecretsManager.ResticRunner

open Js Machine

/-! ## What is asked of a run -/

/-- The process runs. -/
def Run.Live (run : Run) : Prop := run.spawned = true ∧ run.exited = false

/-- No kill fails in the event. -/
def Event.KillsSent : Event → Prop
  | .data _ _ result | .abort result | .timeout result | .killGrace result => result = .sent
  | .spawnError _ | .exit | .close _ _ => True

/-- The event settles the promise. -/
def Event.Ends : Event → Prop
  | .spawnError _ | .close _ _ => True
  | .data _ _ _ | .abort _ | .timeout _ | .killGrace _ | .exit => False

/-- The event asks for the end of the process. -/
def StopRequest (run : Run) : Event → Prop
  | .abort _ | .timeout _ => True
  | .data stream bytes _ =>
      run.truncated = false ∧ run.options.maxOutput < (run.collected stream).bytes + bytes.length
  | .killGrace _ | .spawnError _ | .exit | .close _ _ => False

def TimedOut (events : List Event) : Prop := ∃ result, .timeout result ∈ events

def Aborted (options : Options) (events : List Event) : Prop :=
  options.signal = some true ∨ ∃ result, .abort result ∈ events

/-- The result tells what has happened before the promise was settled. -/
structure Reports (options : Options) (before : List Event) (result : ResticCommandResult) : Prop where
  timedOut : result.timedOut = true ↔ TimedOut before
  aborted : result.aborted = true ↔ Aborted options before
  truncated : result.truncated = true ↔ Overflows options before
  stdout : WithinCap options (chunks .stdout before) result.stdout
  stderr : WithinCap options (chunks .stderr before) result.stderr

/-- A run is stopped and settled as it should be. -/
structure Supervised (options : Options) (events : List Event) (run : Run) : Prop where
  /-- The promise settles with the first event that ends the run, and never again. -/
  once : run.outcomes.length ≤ 1 ∧ ((∃ e ∈ events, e.Ends) ↔ run.outcomes.length = 1)
  reported : ∀ outcome ∈ run.outcomes, ∃ result before e after, outcome = .resolved result ∧
    events = before ++ e :: after ∧ e.Ends ∧ (∀ e' ∈ before, ¬ e'.Ends) ∧ Reports options before result
  /-- A stop request sends SIGTERM, and SIGKILL is to follow or was sent before. -/
  terminated : ∀ e run', e.KillsSent → run.step e = some run' → run.Live → StopRequest run e →
    run'.signals = run.signals ++ [.sigterm] ∧ (run'.killTimer = .pending options.killGrace ∨ .sigkill ∈ run'.signals)
  /-- A signal that has fired before the start stops the process at once. -/
  started : options.signal = some true → run.spawned = true → .sigterm ∈ run.signals
  /-- A process that was asked to stop has exited, will be killed after the grace, or was killed. -/
  stopping : .sigterm ∈ run.signals →
    run.exited = true ∨ run.killTimer = .pending options.killGrace ∨ .sigkill ∈ run.signals
  killed : ∀ run', run.step (.killGrace .sent) = some run' → run.Live → run'.signals = run.signals ++ [.sigkill]
  /-- Nothing is sent to a process that does not run. -/
  spared : ∀ e run', e.KillsSent → run.step e = some run' → ¬ run.Live → run'.signals = run.signals
  capped : ∀ stream, WithinCap options (chunks stream events) (run.collected stream).text
  /-- Nothing is left behind after the settlement. -/
  quiet : run.outcomes ≠ [] → ¬ run.Live ∧
    (∀ ms, run.killTimer ≠ .pending ms) ∧ (∀ ms, run.timeoutTimer ≠ .pending ms) ∧ run.listening = false

/-! ## What is kept -/

/-- The texts and the flags of the time-out and the abort are those of the events. -/
structure HistoryInv (options : Options) (events : List Event) (run : Run) : Prop where
  texts : TextInv options events run
  timedOut : run.timedOut = true ↔ TimedOut events
  aborted : run.aborted = true ↔ Aborted options events

/-- The timers and signals fit together, and nothing is armed after the settlement. -/
structure TimerInv (options : Options) (run : Run) : Prop where
  spawned : run.signals ≠ [] → run.spawned = true
  grace : ∀ ms, run.killTimer = .pending ms → ms = options.killGrace
  stopping : run.Live → (.sigterm ∈ run.signals → run.killTimer ≠ .unset) ∧
    (run.killTimer = .done → .sigkill ∈ run.signals)
  quiet : run.settled = true → run.exited = true ∧ (∀ ms, run.killTimer ≠ .pending ms) ∧
    (∀ ms, run.timeoutTimer ≠ .pending ms) ∧ run.listening = false

/-- The promise has settled with the first event that ends the run. -/
structure OutcomeInv (options : Options) (events : List Event) (run : Run) : Prop where
  unsettled : run.settled = false → run.outcomes = [] ∧ ∀ e ∈ events, ¬ e.Ends
  settled : run.settled = true → ∃ result before e after, run.outcomes = [.resolved result] ∧
    events = before ++ e :: after ∧ e.Ends ∧ (∀ e' ∈ before, ¬ e'.Ends) ∧ Reports options before result

structure RunInv (options : Options) (events : List Event) (run : Run) : Prop where
  attached : run.attached = true
  history : HistoryInv options events run
  timers : TimerInv options run
  outcome : OutcomeInv options events run

section Invariant
variable {options : Options} {spawned : Bool} {events : List Event} {e : Event} {run run' : Run}

theorem timedOut_concat : TimedOut (events ++ [e]) ↔ TimedOut events ∨ ∃ result, e = .timeout result := by
  simp only [TimedOut, List.mem_append, List.mem_singleton, exists_or, eq_comm]

theorem aborted_concat : Aborted options (events ++ [e]) ↔ Aborted options events ∨ ∃ result, e = .abort result := by
  simp only [Aborted, List.mem_append, List.mem_singleton, exists_or, eq_comm, or_assoc]

theorem HistoryInv.reports (h : HistoryInv options events run) (code : ExitCode) :
    Reports options events (run.result code) where
  timedOut := h.timedOut
  aborted := h.aborted
  truncated := by
    refine ⟨h.texts.overflows, fun hoverflows => ?_⟩
    by_contra hfalse
    exact h.texts.not_overflows (Bool.eq_false_of_not_eq_true hfalse) hoverflows
  stdout := h.texts.withinCap .stdout
  stderr := h.texts.withinCap .stderr

/-- An event that neither writes nor stops adds nothing to the history. -/
theorem HistoryInv.extend (h : HistoryInv options events run) (hchunk : ∀ stream, e.chunk stream = none)
    (htimeout : ∀ result, e ≠ .timeout result) (habort : ∀ result, e ≠ .abort result) :
    HistoryInv options (events ++ [e]) run where
  texts := h.texts.extend hchunk
  timedOut := by
    rw [timedOut_concat, or_iff_left fun ⟨result, heq⟩ => htimeout result heq]
    exact h.timedOut
  aborted := by
    rw [aborted_concat, or_iff_left fun ⟨result, heq⟩ => habort result heq]
    exact h.aborted

/-- The history does not depend on the timers, the signals and the promise. -/
theorem HistoryInv.congr (h : HistoryInv options events run) (hsame : SameTexts run run')
    (htimedOut : run'.timedOut = run.timedOut) (haborted : run'.aborted = run.aborted) :
    HistoryInv options events run' where
  texts := h.texts.congr hsame
  timedOut := htimedOut ▸ h.timedOut
  aborted := haborted ▸ h.aborted

/-! ### Termination -/

/-- SIGTERM is sent to a process that runs, and the kill timer is set unless it was before. -/
theorem terminate_sent (run : Run) : run.terminate .sent = run ∧ run.exited = true ∨
    run.exited = false ∧ ∃ signals killTimer,
      run.terminate .sent = { run with signals := signals, killTimer := killTimer } ∧
      signals = (if run.spawned then run.signals ++ [.sigterm] else run.signals) ∧
      killTimer = if run.killTimer = .unset then .pending run.options.killGrace else run.killTimer := by
  by_cases hexited : run.exited = true
  · exact Or.inl ⟨if_pos hexited, hexited⟩
  · refine Or.inr ⟨Bool.eq_false_of_not_eq_true hexited, _, _, ?_, rfl, rfl⟩
    have hkill : run.kill .sigterm .sent =
        { run with signals := if run.spawned then run.signals ++ [.sigterm] else run.signals } := by
      unfold Run.kill
      split_ifs <;> rfl
    unfold Run.terminate
    rw [if_neg hexited, hkill]
    dsimp only
    split_ifs <;> rfl

theorem HistoryInv.terminate (h : HistoryInv options events run) : HistoryInv options events (run.terminate .sent) := by
  rcases terminate_sent run with ⟨heq, -⟩ | ⟨-, signals, killTimer, heq, -, -⟩
  · rwa [heq]
  · rw [heq]
    exact h.congr ⟨rfl, rfl, rfl⟩ rfl rfl

theorem OutcomeInv.terminate (h : OutcomeInv options events run) : OutcomeInv options events (run.terminate .sent) := by
  rcases terminate_sent run with ⟨heq, -⟩ | ⟨-, signals, killTimer, heq, -, -⟩
  · rwa [heq]
  · rw [heq]
    exact ⟨h.unsettled, h.settled⟩

theorem TimerInv.terminate (h : TimerInv options run) (hoptions : run.options = options) :
    TimerInv options (run.terminate .sent) := by
  rcases terminate_sent run with ⟨heq, -⟩ | ⟨hexited, signals, killTimer, heq, hsignals, hkillTimer⟩
  · rwa [heq]
  · rw [heq]
    refine ⟨fun hne => ?_, fun ms hms => ?_, fun hlive => ⟨fun _ hunset => ?_, fun hdone => ?_⟩, fun hsettled => ?_⟩
    · by_contra hspawned
      rw [if_neg hspawned] at hsignals
      exact hspawned (h.spawned (hsignals ▸ hne))
    · have hpending : killTimer = .pending ms := hms
      rw [hkillTimer] at hpending
      split_ifs at hpending
      · rw [← hoptions]
        exact (Timer.pending.inj hpending).symm
      · exact h.grace ms hpending
    · have hunset : killTimer = .unset := hunset
      rw [hkillTimer] at hunset
      split_ifs at hunset with hbefore
      exact hbefore hunset
    · have hdone : killTimer = .done := hdone
      rw [hkillTimer] at hdone
      split_ifs at hdone
      have hkilled := (h.stopping ⟨hlive.1, hexited⟩).2 hdone
      have hlive : run.spawned = true := hlive.1
      rw [if_pos hlive] at hsignals
      rw [hsignals]
      exact List.mem_append_left _ hkilled
    · -- a settled run has exited
      have hdone := (h.quiet hsettled).1
      rw [hexited] at hdone
      cases hdone

theorem attached_terminate (run : Run) : (run.terminate .sent).attached = run.attached := by
  rcases terminate_sent run with ⟨heq, -⟩ | ⟨-, signals, killTimer, heq, -, -⟩ <;> rw [heq]

theorem RunInv.terminate (h : RunInv options events run) : RunInv options events (run.terminate .sent) where
  attached := (attached_terminate run).trans h.attached
  history := h.history.terminate
  timers := h.timers.terminate h.history.texts.configured
  outcome := h.outcome.terminate

/-! ### Settlement -/

/-- An event that does not end the run leaves the outcome as it is. -/
theorem OutcomeInv.extend (h : OutcomeInv options events run) (hends : ¬ e.Ends) :
    OutcomeInv options (events ++ [e]) run := by
  refine ⟨fun hsettled => ?_, fun hsettled => ?_⟩
  · obtain ⟨hnone, hall⟩ := h.unsettled hsettled
    refine ⟨hnone, fun e' he' => ?_⟩
    rcases List.mem_append.mp he' with he' | he'
    · exact hall e' he'
    · exact List.mem_singleton.mp he' ▸ hends
  · obtain ⟨result, before, e', after, houtcomes, heq, hends', hfirst, hreports⟩ := h.settled hsettled
    exact ⟨result, before, e', after ++ [e], houtcomes, by simp [heq], hends', hfirst, hreports⟩

/-- The event that ends the run settles the promise, unless it was settled before. -/
theorem RunInv.settle (h : RunInv options events run) (hexited : run.exited = true) (hends : e.Ends)
    (hchunk : ∀ stream, e.chunk stream = none) (htimeout : ∀ result, e ≠ .timeout result)
    (habort : ∀ result, e ≠ .abort result) (code : ExitCode) : RunInv options (events ++ [e]) (run.settle code) := by
  have hhistory := h.history.extend hchunk htimeout habort
  cases hsettled : run.settled with
  | true =>
      have hsame : run.settle code = run := if_pos hsettled
      rw [hsame]
      refine ⟨h.attached, hhistory, h.timers, fun hfalse => ?_, fun _ => ?_⟩
      · rw [hsettled] at hfalse
        cases hfalse
      · obtain ⟨result, before, e', after, houtcomes, heq, hends', hfirst, hreports⟩ := h.outcome.settled hsettled
        exact ⟨result, before, e', after ++ [e], houtcomes, by simp [heq], hends', hfirst, hreports⟩
  | false =>
      have hsettle : run.settle code =
          { run with
            settled := true
            killTimer := run.killTimer.clear
            timeoutTimer := run.timeoutTimer.clear
            listening := false
            outcomes := run.outcomes ++ [.resolved (run.result code)] } := if_neg (by simp [hsettled])
      have hclear : ∀ (timer : Timer) ms, timer.clear ≠ .pending ms := by
        intro timer ms
        cases timer <;> exact nofun
      obtain ⟨hnone, hall⟩ := h.outcome.unsettled hsettled
      rw [hsettle]
      refine ⟨h.attached, hhistory.congr ⟨rfl, rfl, rfl⟩ rfl rfl, ⟨h.timers.spawned, ?_, ?_, ?_⟩, nofun, fun _ => ?_⟩
      · exact fun ms hms => absurd hms (hclear _ ms)
      · intro hlive
        have hfalse : run.exited = false := hlive.2
        rw [hexited] at hfalse
        cases hfalse
      · exact fun _ => ⟨hexited, hclear _, hclear _, rfl⟩
      · refine ⟨run.result code, events, e, [], ?_, rfl, hends, hall, h.history.reports code⟩
        show run.outcomes ++ [_] = _
        rw [hnone]
        rfl

/-! ### Every event -/

/-- What the handler of the data changes besides the texts, the counters and the truncation. -/
theorem onData_cases (run : Run) (stream : OutputStream) (bytes : List Byte) :
    ∃ stdout stderr truncated,
      run.onData stream bytes .sent = { run with stdout := stdout, stderr := stderr, truncated := truncated } ∨
      run.onData stream bytes .sent =
        { run with stdout := stdout, stderr := stderr, truncated := truncated }.terminate .sent := by
  unfold Run.onData
  by_cases htruncated : run.truncated = true
  · rw [if_pos htruncated]
    exact ⟨_, _, _, Or.inl rfl⟩
  · rw [if_neg htruncated]
    dsimp only
    by_cases hover : run.options.maxOutput < ((run.collected stream).bytes + bytes.length : ℕ)
    · rw [if_pos hover]
      obtain ⟨stdout, stderr, hset⟩ := setCollected_eq run stream
        ⟨(run.collected stream).text, (run.collected stream).bytes + bytes.length⟩
      rw [hset]
      exact ⟨stdout, stderr, true, Or.inr rfl⟩
    · rw [if_neg hover]
      obtain ⟨stdout, stderr, hset⟩ := setCollected_eq run stream
        ⟨(run.collected stream).text ++ decodeUtf8 bytes, (run.collected stream).bytes + bytes.length⟩
      rw [hset]
      exact ⟨stdout, stderr, run.truncated, Or.inl rfl⟩

theorem HistoryInv.data (h : HistoryInv options events run) (stream : OutputStream) (bytes : List Byte) :
    HistoryInv options (events ++ [.data stream bytes .sent]) (run.onData stream bytes .sent) := by
  have hsame : (run.onData stream bytes .sent).timedOut = run.timedOut ∧
      (run.onData stream bytes .sent).aborted = run.aborted := by
    obtain ⟨stdout, stderr, truncated, heq | heq⟩ := onData_cases run stream bytes
    · rw [heq]
      exact ⟨rfl, rfl⟩
    · rw [heq]
      rcases terminate_sent { run with stdout := stdout, stderr := stderr, truncated := truncated } with
        ⟨hterminate, -⟩ | ⟨-, signals, killTimer, hterminate, -, -⟩ <;> rw [hterminate] <;> exact ⟨rfl, rfl⟩
  refine ⟨h.texts.data stream bytes .sent, ?_, ?_⟩
  · rw [hsame.1, timedOut_concat, or_iff_left nofun]
    exact h.timedOut
  · rw [hsame.2, aborted_concat, or_iff_left nofun]
    exact h.aborted

theorem RunInv.data (h : RunInv options events run) (stream : OutputStream) (bytes : List Byte) :
    RunInv options (events ++ [.data stream bytes .sent]) (run.onData stream bytes .sent) := by
  have houtcome := h.outcome.extend (e := .data stream bytes .sent) id
  have hhistory := h.history.data stream bytes
  obtain ⟨stdout, stderr, truncated, heq | heq⟩ := onData_cases run stream bytes
  · rw [heq] at hhistory ⊢
    exact ⟨h.attached, hhistory, ⟨h.timers.spawned, h.timers.grace, h.timers.stopping, h.timers.quiet⟩,
      ⟨houtcome.unsettled, houtcome.settled⟩⟩
  · have htimers : TimerInv options { run with stdout := stdout, stderr := stderr, truncated := truncated } :=
      ⟨h.timers.spawned, h.timers.grace, h.timers.stopping, h.timers.quiet⟩
    rw [heq] at hhistory ⊢
    refine ⟨(attached_terminate _).trans h.attached, hhistory, htimers.terminate h.history.texts.configured, ?_⟩
    exact OutcomeInv.terminate ⟨houtcome.unsettled, houtcome.settled⟩

theorem RunInv.abort (h : RunInv options events run) :
    RunInv options (events ++ [.abort .sent]) ({ run with listening := false }.onAbort .sent) := by
  have houtcome := h.outcome.extend (e := .abort .sent) id
  have htexts := h.history.texts.extend (e := .abort .sent) fun _ => rfl
  refine RunInv.terminate ⟨h.attached, ⟨htexts.congr ⟨rfl, rfl, rfl⟩, ?_, ?_⟩, ⟨h.timers.spawned, h.timers.grace,
    h.timers.stopping, ?_⟩, houtcome.unsettled, houtcome.settled⟩
  · rw [timedOut_concat, or_iff_left nofun]
    exact h.history.timedOut
  · exact iff_of_true rfl (aborted_concat.mpr (Or.inr ⟨_, rfl⟩))
  · intro hsettled
    obtain ⟨hexited, hkill, htimeout, -⟩ := h.timers.quiet hsettled
    exact ⟨hexited, hkill, htimeout, rfl⟩

theorem RunInv.timeout (h : RunInv options events run) : RunInv options (events ++ [.timeout .sent])
    ({ run with timeoutTimer := .done, timedOut := true }.terminate .sent) := by
  have houtcome := h.outcome.extend (e := .timeout .sent) id
  have htexts := h.history.texts.extend (e := .timeout .sent) fun _ => rfl
  refine RunInv.terminate ⟨h.attached, ⟨htexts.congr ⟨rfl, rfl, rfl⟩, ?_, ?_⟩, ⟨h.timers.spawned, h.timers.grace,
    h.timers.stopping, ?_⟩, houtcome.unsettled, houtcome.settled⟩
  · exact iff_of_true rfl (timedOut_concat.mpr (Or.inr ⟨_, rfl⟩))
  · rw [aborted_concat, or_iff_left nofun]
    exact h.history.aborted
  · intro hsettled
    obtain ⟨hexited, hkill, -, hlistening⟩ := h.timers.quiet hsettled
    exact ⟨hexited, hkill, nofun, hlistening⟩

/-- The kill timer fires: SIGKILL goes to a process that still runs. -/
theorem RunInv.killGrace (h : RunInv options events run) : RunInv options (events ++ [.killGrace .sent])
    (if run.exited then { run with killTimer := .done } else { run with killTimer := .done }.kill .sigkill .sent) := by
  have hhistory := h.history.extend (e := .killGrace .sent) (fun _ => rfl) nofun nofun
  have houtcome := h.outcome.extend (e := .killGrace .sent) id
  have hquiet : run.settled = true → run.exited = true ∧ (∀ ms, Timer.done ≠ .pending ms) ∧
      (∀ ms, run.timeoutTimer ≠ .pending ms) ∧ run.listening = false := by
    intro hsettled
    obtain ⟨hexited, -, htimeout, hlistening⟩ := h.timers.quiet hsettled
    exact ⟨hexited, nofun, htimeout, hlistening⟩
  split_ifs with hexited
  · refine ⟨h.attached, hhistory.congr ⟨rfl, rfl, rfl⟩ rfl rfl, ⟨h.timers.spawned, nofun, fun hlive => ?_, hquiet⟩,
      houtcome.unsettled, houtcome.settled⟩
    have hfalse : run.exited = false := hlive.2
    rw [hexited] at hfalse
    cases hfalse
  · unfold Run.kill
    dsimp only
    split_ifs with hspawned
    · exact ⟨h.attached, hhistory.congr ⟨rfl, rfl, rfl⟩ rfl rfl, ⟨fun _ => hspawned, nofun,
        fun _ => ⟨fun _ => nofun, fun _ => List.mem_append_right _ (List.mem_singleton.mpr rfl)⟩, hquiet⟩,
        houtcome.unsettled, houtcome.settled⟩
    · refine ⟨h.attached, hhistory.congr ⟨rfl, rfl, rfl⟩ rfl rfl, ⟨h.timers.spawned, nofun, fun hlive => ?_, hquiet⟩,
        houtcome.unsettled, houtcome.settled⟩
      exact absurd hlive.1 hspawned

/-- The child gets its exit code. -/
theorem RunInv.exited (h : RunInv options events run) : RunInv options events { run with exited := true } := by
  refine ⟨h.attached, h.history.congr ⟨rfl, rfl, rfl⟩ rfl rfl, ⟨h.timers.spawned, h.timers.grace, ?_, ?_⟩,
    h.outcome.unsettled, h.outcome.settled⟩
  · exact fun hlive => absurd hlive.2 nofun
  · intro hsettled
    exact ⟨rfl, (h.timers.quiet hsettled).2⟩

theorem runInv_step (h : RunInv options events run) (hsent : e.KillsSent) (hstep : run.step e = some run') :
    RunInv options (events ++ [e]) run' := by
  cases e with
  | data stream bytes result =>
      obtain rfl : result = .sent := hsent
      obtain ⟨-, ⟨⟩⟩ := Option.ite_none_right_eq_some.mp hstep
      exact h.data stream bytes
  | abort result =>
      obtain rfl : result = .sent := hsent
      obtain ⟨-, ⟨⟩⟩ := Option.ite_none_right_eq_some.mp hstep
      exact h.abort
  | timeout result =>
      obtain rfl : result = .sent := hsent
      obtain ⟨ms, -, rfl⟩ := step_timeout hstep
      exact h.timeout
  | killGrace result =>
      obtain rfl : result = .sent := hsent
      obtain ⟨ms, -, rfl⟩ := step_killGrace hstep
      exact h.killGrace
  | spawnError code =>
      obtain ⟨-, ⟨⟩⟩ := Option.ite_none_right_eq_some.mp hstep
      exact h.exited.settle (e := .spawnError code) rfl trivial (fun _ => rfl) nofun nofun code
  | exit =>
      obtain ⟨-, ⟨⟩⟩ := Option.ite_none_right_eq_some.mp hstep
      have hhistory := h.exited.history.extend (e := .exit) (fun _ => rfl) nofun nofun
      exact ⟨h.attached, hhistory, h.exited.timers, h.exited.outcome.extend id⟩
  | close code signalled =>
      obtain ⟨⟨-, hexited⟩, ⟨⟩⟩ := Option.ite_none_right_eq_some.mp hstep
      exact h.settle (e := .close code signalled) hexited trivial (fun _ => rfl) nofun nofun _

/-! ### Runs -/

theorem runInv_start (options : Options) (spawned : Bool) : RunInv options [] (start options spawned .sent) := by
  have hinit : ∀ (aborted listening : Bool) (timer : Timer), (aborted = true ↔ options.signal = some true) →
      RunInv options [] { created options spawned with
        aborted := aborted, timeoutTimer := timer, listening := listening } := by
    intro aborted listening timer haborted
    refine ⟨rfl, ⟨(textInv_created options spawned).congr ⟨rfl, rfl, rfl⟩, ?_, ?_⟩,
      ⟨fun hne => absurd rfl hne, nofun, fun _ => ⟨nofun, nofun⟩, nofun⟩, fun _ => ⟨rfl, nofun⟩, nofun⟩
    · exact iff_of_false nofun fun ⟨_, hmem⟩ => List.not_mem_nil hmem
    · rw [Aborted, or_iff_left fun ⟨_, hmem⟩ => List.not_mem_nil hmem]
      exact haborted
  unfold start
  cases hsignal : options.signal with
  | none => exact hinit false false (timeoutTimerAtStart options) (by simp [hsignal])
  | some fired =>
      cases fired with
      | false => exact hinit false true (timeoutTimerAtStart options) (by simp [hsignal])
      | true =>
          have habort := (hinit true false (timeoutTimerAtStart options) (by simp [hsignal])).terminate
          cases spawned <;> exact habort

theorem runInv_run (h : Machine.run Run.step (start options spawned .sent) events = some run)
    (hsent : ∀ e ∈ events, e.KillsSent) : RunInv options events run := by
  have hinv : (∀ e ∈ events, e.KillsSent) → RunInv options events run := by
    refine run_history (I := fun events run => (∀ e ∈ events, e.KillsSent) → RunInv options events run)
      (fun _ hinv hstep hall => ?_) h fun _ => runInv_start options spawned
    exact runInv_step (hinv fun e he => hall e (List.mem_append_left _ he))
      (hall _ (List.mem_append_right _ (List.mem_singleton.mpr rfl))) hstep
  exact hinv hsent

/-! ### Stopping -/

theorem terminate_live (hlive : run.Live) : (run.terminate .sent).signals = run.signals ++ [.sigterm] ∧
    (run.terminate .sent).killTimer =
      if run.killTimer = .unset then .pending run.options.killGrace else run.killTimer := by
  rcases terminate_sent run with ⟨-, hexited⟩ | ⟨-, signals, killTimer, heq, hsignals, hkillTimer⟩
  · rw [hlive.2] at hexited
    cases hexited
  · rw [if_pos hlive.1] at hsignals
    rw [heq]
    exact ⟨hsignals, hkillTimer⟩

theorem terminate_spared (hlive : ¬ run.Live) : (run.terminate .sent).signals = run.signals := by
  rcases terminate_sent run with ⟨heq, -⟩ | ⟨hexited, signals, killTimer, heq, hsignals, -⟩
  · rw [heq]
  · rw [if_neg fun hspawned => hlive ⟨hspawned, hexited⟩] at hsignals
    rw [heq]
    exact hsignals

/-- The kill timer of a run that was asked to stop is set, unless SIGKILL was sent. -/
theorem terminated (hlive : run.Live) (hoptions : run.options = options)
    (hgrace : ∀ ms, run.killTimer = .pending ms → ms = options.killGrace)
    (hdone : run.killTimer = .done → .sigkill ∈ run.signals) :
    (run.terminate .sent).signals = run.signals ++ [.sigterm] ∧
      ((run.terminate .sent).killTimer = .pending options.killGrace ∨ .sigkill ∈ (run.terminate .sent).signals) := by
  obtain ⟨hsignals, hkillTimer⟩ := terminate_live hlive
  refine ⟨hsignals, ?_⟩
  rw [hkillTimer, hsignals, hoptions]
  cases htimer : run.killTimer with
  | unset => exact Or.inl (if_pos rfl)
  | pending ms => exact Or.inl (by rw [if_neg nofun, hgrace ms htimer])
  | done => exact Or.inr (List.mem_append_left _ (hdone htimer))

theorem RunInv.stopRequest (h : RunInv options events run) (hsent : e.KillsSent) (hstep : run.step e = some run')
    (hlive : run.Live) (hstop : StopRequest run e) : run'.signals = run.signals ++ [.sigterm] ∧
      (run'.killTimer = .pending options.killGrace ∨ .sigkill ∈ run'.signals) := by
  have hdone := (h.timers.stopping hlive).2
  cases e with
  | data stream bytes result =>
      obtain rfl : result = .sent := hsent
      obtain ⟨-, ⟨⟩⟩ := Option.ite_none_right_eq_some.mp hstep
      obtain ⟨htruncated, hover⟩ := hstop
      obtain ⟨stdout, stderr, hset⟩ := setCollected_eq run stream
        ⟨(run.collected stream).text, (run.collected stream).bytes + bytes.length⟩
      have heq : run.onData stream bytes .sent =
          { run with stdout := stdout, stderr := stderr, truncated := true }.terminate .sent := by
        unfold Run.onData
        rw [if_neg (by simp [htruncated])]
        dsimp only
        rw [if_pos (by exact_mod_cast hover), hset]
      rw [heq]
      exact terminated hlive h.history.texts.configured h.timers.grace hdone
  | abort result =>
      obtain rfl : result = .sent := hsent
      obtain ⟨-, ⟨⟩⟩ := Option.ite_none_right_eq_some.mp hstep
      exact terminated hlive h.history.texts.configured h.timers.grace hdone
  | timeout result =>
      obtain rfl : result = .sent := hsent
      obtain ⟨ms, -, rfl⟩ := step_timeout hstep
      exact terminated hlive h.history.texts.configured h.timers.grace hdone
  | killGrace | spawnError | exit | close => exact hstop.elim

theorem signals_settle (run : Run) (code : ExitCode) : (run.settle code).signals = run.signals := by
  unfold Run.settle
  split_ifs <;> rfl

theorem step_spared (hsent : e.KillsSent) (hstep : run.step e = some run') (hlive : ¬ run.Live) :
    run'.signals = run.signals := by
  cases e with
  | data stream bytes result =>
      obtain rfl : result = .sent := hsent
      obtain ⟨-, ⟨⟩⟩ := Option.ite_none_right_eq_some.mp hstep
      obtain ⟨stdout, stderr, truncated, heq | heq⟩ := onData_cases run stream bytes <;> rw [heq]
      exact terminate_spared hlive
  | abort result =>
      obtain rfl : result = .sent := hsent
      obtain ⟨-, ⟨⟩⟩ := Option.ite_none_right_eq_some.mp hstep
      exact terminate_spared hlive
  | timeout result =>
      obtain rfl : result = .sent := hsent
      obtain ⟨ms, -, rfl⟩ := step_timeout hstep
      exact terminate_spared hlive
  | killGrace result =>
      obtain rfl : result = .sent := hsent
      obtain ⟨ms, -, rfl⟩ := step_killGrace hstep
      split_ifs with hexited
      · rfl
      · have hspawned : ¬ run.spawned = true := fun h => hlive ⟨h, Bool.eq_false_of_not_eq_true hexited⟩
        have hkill : Run.kill { run with killTimer := .done } .sigkill .sent = { run with killTimer := .done } :=
          if_neg hspawned
        rw [hkill]
  | spawnError code =>
      obtain ⟨-, ⟨⟩⟩ := Option.ite_none_right_eq_some.mp hstep
      exact signals_settle _ code
  | exit =>
      obtain ⟨-, ⟨⟩⟩ := Option.ite_none_right_eq_some.mp hstep
      rfl
  | close code signalled =>
      obtain ⟨-, ⟨⟩⟩ := Option.ite_none_right_eq_some.mp hstep
      exact signals_settle _ _

theorem step_killed (hstep : run.step (.killGrace .sent) = some run') (hlive : run.Live) :
    run'.signals = run.signals ++ [.sigkill] := by
  obtain ⟨ms, -, rfl⟩ := step_killGrace hstep
  rw [if_neg (by simp [hlive.2])]
  exact congrArg Run.signals (if_pos hlive.1)

theorem RunInv.stopped (h : RunInv options events run) (hsigterm : .sigterm ∈ run.signals) :
    run.exited = true ∨ run.killTimer = .pending options.killGrace ∨ .sigkill ∈ run.signals := by
  by_cases hexited : run.exited = true
  · exact Or.inl hexited
  · have hlive : run.Live :=
      ⟨h.timers.spawned (List.ne_nil_of_mem hsigterm), Bool.eq_false_of_not_eq_true hexited⟩
    obtain ⟨hset, hdone⟩ := h.timers.stopping hlive
    cases htimer : run.killTimer with
    | unset => exact absurd htimer (hset hsigterm)
    | pending ms => exact Or.inr (Or.inl (by rw [h.timers.grace ms htimer]))
    | done => exact Or.inr (Or.inr (hdone htimer))

theorem started_run (h : Machine.run Run.step (start options spawned .sent) events = some run)
    (hsent : ∀ e ∈ events, e.KillsSent) (hsignal : options.signal = some true) (hspawned : run.spawned = true) :
    .sigterm ∈ run.signals := by
  have hinv : (∀ e ∈ events, e.KillsSent) → run.spawned = true → .sigterm ∈ run.signals := by
    refine run_history
      (I := fun events run => (∀ e ∈ events, e.KillsSent) → run.spawned = true → .sigterm ∈ run.signals)
      (fun _ hinv hstep hall hspawned => ?_) h fun _ => ?_
    · have hkeeps := keeps_step hstep
      exact hkeeps.signals (hinv (fun e he => hall e (List.mem_append_left _ he)) (hkeeps.spawned ▸ hspawned))
    · unfold start
      rw [hsignal]
      cases spawned with
      | false => exact nofun
      | true => exact fun _ => List.mem_singleton.mpr rfl
  exact hinv hsent hspawned

/-! ### Supervision -/

/-- The promise is settled exactly if an event has ended the run. -/
theorem OutcomeInv.once (h : OutcomeInv options events run) :
    run.outcomes.length ≤ 1 ∧ ((∃ e ∈ events, e.Ends) ↔ run.outcomes.length = 1) := by
  cases hsettled : run.settled with
  | false =>
      obtain ⟨hnone, hall⟩ := h.unsettled hsettled
      rw [hnone]
      exact ⟨Nat.zero_le _, iff_of_false (fun ⟨e, he, hends⟩ => hall e he hends) nofun⟩
  | true =>
      obtain ⟨result, before, e, after, houtcomes, heq, hends, -, -⟩ := h.settled hsettled
      rw [houtcomes]
      exact ⟨le_rfl, iff_of_true ⟨e, by simp [heq], hends⟩ rfl⟩

theorem OutcomeInv.settled_of_ne_nil (h : OutcomeInv options events run) (hne : run.outcomes ≠ []) :
    run.settled = true := by
  by_contra hsettled
  exact hne (h.unsettled (Bool.eq_false_of_not_eq_true hsettled)).1

theorem RunInv.supervised (h : RunInv options events run)
    (hstarted : options.signal = some true → run.spawned = true → .sigterm ∈ run.signals) :
    Supervised options events run where
  once := h.outcome.once
  reported := fun outcome houtcome => by
    obtain ⟨result, before, e, after, houtcomes, hrest⟩ :=
      h.outcome.settled (h.outcome.settled_of_ne_nil (List.ne_nil_of_mem houtcome))
    rw [houtcomes, List.mem_singleton] at houtcome
    exact ⟨result, before, e, after, houtcome, hrest⟩
  terminated := fun _ _ hsent hstep => h.stopRequest hsent hstep
  started := hstarted
  stopping := h.stopped
  killed := fun _ => step_killed
  spared := fun _ _ hsent hstep => step_spared hsent hstep
  capped := h.history.texts.withinCap
  quiet := fun hne => by
    obtain ⟨hexited, hrest⟩ := h.timers.quiet (h.outcome.settled_of_ne_nil hne)
    refine ⟨fun hlive => ?_, hrest⟩
    rw [hlive.2] at hexited
    cases hexited

/-- Whatever happens in whatever order, a run in which no kill fails is stopped and settled as it should be. -/
theorem supervised_of_killsSent (options : Options) (spawned : Bool) (events : List Event) (run : Run)
    (h : Machine.run Run.step (start options spawned .sent) events = some run) (hsent : ∀ e ∈ events, e.KillsSent) :
    Supervised options events run :=
  (runInv_run h hsent).supervised (started_run h hsent)

end Invariant

theorem supervised_of_killsSent_timedOut :
    ∃ run, Machine.run Run.step (start ⟨some 1000, none, some false, none⟩ true .sent)
        [.data .stdout [123] .sent, .timeout .sent, .killGrace .sent, .exit, .close none true] = some run ∧
      Supervised ⟨some 1000, none, some false, none⟩
        [.data .stdout [123] .sent, .timeout .sent, .killGrace .sent, .exit, .close none true] run :=
  ⟨_, rfl, supervised_of_killsSent _ true _ _ rfl (by simp [Event.KillsSent])⟩

/-- The error of a failed kill settles the promise before the kill timer is set, which then stays. -/
theorem not_supervised_killFailed :
    ∃ run, Machine.run Run.step (start ⟨some 1000, none, none, none⟩ true .sent)
        [.timeout (.failed (.name (js "EPERM"))), .exit, .close (some 0) false] = some run ∧
      ¬ Supervised ⟨some 1000, none, none, none⟩
        [.timeout (.failed (.name (js "EPERM"))), .exit, .close (some 0) false] run :=
  ⟨_, rfl, fun h => (h.quiet nofun).2.1 5000 rfl⟩

end SecretsManager.ResticRunner
