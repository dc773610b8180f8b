import SecretsManager.Js.Utf8
import SecretsManager.Library.Machine
import SecretsManager.Restic.ResticResult

/-!
# The restic process

One call of the runner: the child process, its output, the timers of the time-out and of the kill grace, the signal
that aborts it, and the promise. Whatever comes next is an event, in any order. A kill may fail: then the child
emits its error at once, inside the call of `kill`, and the promise settles while the process lives.
-/

namespace SecretsManager.ResticRunner

open Js Machine

/-! ## The state -/

/-- `signal` is whether the signal, if there is one, has fired before the start. -/
structure Options where
  timeoutMs : Option Int
  killGraceMs : Option Int
  signal : Option Bool
  maxOutputBytes : Option Int
  deriving DecidableEq

def Options.maxOutput (options : Options) : Int :=
  match options.maxOutputBytes with
  | some n => if 0 < n then n else 50 * 1024 * 1024
  | none => 50 * 1024 * 1024

def Options.killGrace (options : Options) : Int := options.killGraceMs.getD 5000

inductive Signal where
  | sigterm
  | sigkill
  deriving DecidableEq

/-- What a call of `kill` on a spawned child does; `failed` emits an error with the code. -/
inductive KillResult where
  | sent
  | failed (code : ExitCode)
  deriving DecidableEq

/-- A timer that was never set, one that will fire after its delay, and one that has fired or was cleared. -/
inductive Timer where
  | unset
  | pending (ms : Int)
  | done
  deriving DecidableEq

def Timer.clear : Timer → Timer
  | pending _ => done
  | unset => unset
  | done => done

inductive OutputStream where
  | stdout
  | stderr
  deriving DecidableEq

/-- The text of a stream and the bytes that were counted. -/
structure Collected where
  text : JsString
  bytes : Nat
  deriving DecidableEq

/-- How the promise has settled. -/
inductive Outcome where
  | resolved (result : ResticCommandResult)
  | rejected (code : ExitCode)
  deriving DecidableEq

/-- `exited` tells that the child has an exit code or a signal code, `attached` that its events are listened to and
`listening` that the abort listener is registered. The signals that were sent and the settlements of the promise are
kept in their order. -/
structure Run where
  options : Options
  spawned : Bool
  exited : Bool
  attached : Bool
  stdout : Collected
  stderr : Collected
  timedOut : Bool
  aborted : Bool
  truncated : Bool
  settled : Bool
  killTimer : Timer
  timeoutTimer : Timer
  listening : Bool
  signals : List Signal
  outcomes : List Outcome
  deriving DecidableEq

namespace Run

def collected (run : Run) : OutputStream → Collected
  | .stdout => run.stdout
  | .stderr => run.stderr

def setCollected (run : Run) (stream : OutputStream) (c : Collected) : Run :=
  match stream with
  | .stdout => { run with stdout := c }
  | .stderr => { run with stderr := c }

/-- What the promise would be resolved with. -/
def result (run : Run) (code : ExitCode) : ResticCommandResult :=
  ⟨code, run.stdout.text, run.stderr.text, run.timedOut, run.aborted, run.truncated⟩

/-! ## The functions of the runner -/

def settle (run : Run) (code : ExitCode) : Run :=
  if run.settled then run
  else
    { run with
      settled := true
      killTimer := run.killTimer.clear
      timeoutTimer := run.timeoutTimer.clear
      listening := false
      outcomes := run.outcomes ++ [.resolved (run.result code)] }

/-- `child.kill(signal)`. It does nothing for a child that could not be spawned. -/
def kill (run : Run) (signal : Signal) (result : KillResult) : Run :=
  if run.spawned then
    match result with
    | .sent => { run with signals := run.signals ++ [signal] }
    | .failed code => run.settle code
  else run

def terminate (run : Run) (result : KillResult) : Run :=
  if run.exited then run
  else
    let killed := run.kill .sigterm result
    if killed.killTimer = .unset then { killed with killTimer := .pending run.options.killGrace } else killed

def onAbort (run : Run) (result : KillResult) : Run := { run with aborted := true }.terminate result

/-- The handler of the data of either stream. -/
def onData (run : Run) (stream : OutputStream) (chunk : List Byte) (result : KillResult) : Run :=
  if run.truncated then run
  else
    let bytes := (run.collected stream).bytes + chunk.length
    if run.options.maxOutput < bytes then
      { run.setCollected stream ⟨(run.collected stream).text, bytes⟩ with truncated := true }.terminate result
    else run.setCollected stream ⟨(run.collected stream).text ++ decodeUtf8 chunk, bytes⟩

end Run

def timeoutTimerAtStart (options : Options) : Timer :=
  match options.timeoutMs with
  | some ms => if 0 < ms then .pending ms else .unset
  | none => .unset

def created (options : Options) (spawned : Bool) : Run where
  options := options
  spawned := spawned
  exited := false
  attached := true
  stdout := ⟨[], 0⟩
  stderr := ⟨[], 0⟩
  timedOut := false
  aborted := false
  truncated := false
  settled := false
  killTimer := .unset
  timeoutTimer := .unset
  listening := false
  signals := []
  outcomes := []

/-- The run after `defaultResticRunner` was called. A kill that fails here throws, because nothing listens to the
child yet. -/
def start (options : Options) (spawned : Bool) (result : KillResult) : Run :=
  match options.signal with
  | none => { created options spawned with timeoutTimer := timeoutTimerAtStart options }
  | some false => { created options spawned with timeoutTimer := timeoutTimerAtStart options, listening := true }
  | some true =>
      match spawned, result with
      | true, .failed code =>
          { created options spawned with aborted := true, attached := false, outcomes := [.rejected code] }
      | _, _ => { (created options spawned).onAbort result with timeoutTimer := timeoutTimerAtStart options }

/-! ## Events -/

/-- What a run can see. The events in which the runner may kill the child carry what the kill does. An error of the
child that is no failed kill means that it was not spawned; `exit` sets its exit code, and is not listened to. -/
inductive Event where
  | data (stream : OutputStream) (chunk : List Byte) (result : KillResult)
  | abort (result : KillResult)
  | timeout (result : KillResult)
  | killGrace (result : KillResult)
  | spawnError (code : ExitCode)
  | exit
  | close (code : Option Int) (signalled : Bool)
  deriving DecidableEq

namespace Run

def step (run : Run) : Event → Option Run
  | .data stream chunk result => if run.attached ∧ run.spawned then some (run.onData stream chunk result) else none
  | .abort result => if run.listening then some ({ run with listening := false }.onAbort result) else none
  | .timeout result =>
      match run.timeoutTimer with
      | .pending _ => some ({ run with timeoutTimer := .done, timedOut := true }.terminate result)
      | .unset | .done => none
  | .killGrace result =>
      match run.killTimer with
      | .pending _ =>
          let fired := { run with killTimer := .done }
          some (if run.exited then fired else fired.kill .sigkill result)
      | .unset | .done => none
  | .spawnError code =>
      if run.attached ∧ run.spawned = false ∧ run.exited = false then some ({ run with exited := true }.settle code)
      else none
  | .exit => if run.spawned ∧ run.exited = false then some { run with exited := true } else none
  | .close code signalled =>
      if run.attached ∧ run.exited then some (run.settle (.number (code.getD (if signalled then 1 else 0)))) else none

end Run

/-! ## The collected text -/

def Event.chunk (stream : OutputStream) : Event → Option (List Byte)
  | .data stream' bytes _ => if stream' = stream then some bytes else none
  | .abort _ | .timeout _ | .killGrace _ | .spawnError _ | .exit | .close _ _ => none

/-- What was written to the stream, event by event. -/
def chunks (stream : OutputStream) (events : List Event) : List (List Byte) := events.filterMap (Event.chunk stream)

/-- A stream has written more than the cap. -/
def Overflows (options : Options) (events : List Event) : Prop :=
  ∃ stream, options.maxOutput < (chunks stream events).flatten.length

/-- The text is that of the first chunks, as many as are within the cap. -/
def WithinCap (options : Options) (parts : List (List Byte)) (text : JsString) : Prop :=
  ∃ kept, kept <+: parts ∧ kept.flatten.length ≤ options.maxOutput ∧ text = kept.flatMap decodeUtf8

/-- The text of a stream in the result. -/
def textOf (result : ResticCommandResult) : OutputStream → JsString
  | .stdout => result.stdout
  | .stderr => result.stderr

/-- The counters and texts of a stream; nothing is left out as long as nothing was truncated. -/
def Collects (options : Options) (truncated : Bool) (parts : List (List Byte)) (c : Collected) : Prop :=
  ∃ kept, kept <+: parts ∧ kept.flatten.length ≤ options.maxOutput ∧ c.text = kept.flatMap decodeUtf8 ∧
    (truncated = false → kept = parts ∧ c.bytes = kept.flatten.length)

/-- The truncation and the texts of the run are those of the events. -/
structure TextInv (options : Options) (events : List Event) (run : Run) : Prop where
  configured : run.options = options
  overflows : run.truncated = true → Overflows options events
  collected : ∀ stream, Collects options run.truncated (chunks stream events) (run.collected stream)

/-- The options, the truncation and what was collected are the same. -/
def SameTexts (run run' : Run) : Prop :=
  run'.options = run.options ∧ run'.truncated = run.truncated ∧ run'.collected = run.collected

section Text
variable {options : Options} {spawned : Bool} {events : List Event} {e : Event} {run run' : Run} {stream : OutputStream}
  {killed : KillResult}

theorem maxOutput_pos (options : Options) : 0 < options.maxOutput := by
  unfold Options.maxOutput
  cases options.maxOutputBytes with
  | none => decide
  | some n =>
      dsimp only
      split_ifs with h
      · exact h
      · decide

theorem chunks_concat (stream : OutputStream) (events : List Event) (e : Event) :
    chunks stream (events ++ [e]) = chunks stream events ++ (e.chunk stream).toList := by
  rw [chunks, List.filterMap_append, ← chunks]
  cases h : e.chunk stream with
  | none => rw [List.filterMap_cons_none h, List.filterMap_nil]; rfl
  | some bytes => rw [List.filterMap_cons_some h, List.filterMap_nil]; rfl

theorem chunk_data (stream stream' : OutputStream) (bytes : List Byte) (result : KillResult) :
    Event.chunk stream' (.data stream bytes result) = if stream = stream' then some bytes else none := rfl

theorem Overflows.concat (h : Overflows options events) (e : Event) : Overflows options (events ++ [e]) := by
  obtain ⟨stream, hlt⟩ := h
  refine ⟨stream, hlt.trans_le ?_⟩
  rw [chunks_concat, List.flatten_append, List.length_append]
  omega

/-- What was truncated stays so when more is written. -/
theorem Collects.append {parts : List (List Byte)} {c : Collected} (h : Collects options true parts c) (bytes : Nat)
    (more : List (List Byte)) : Collects options true (parts ++ more) ⟨c.text, bytes⟩ := by
  obtain ⟨kept, hfirst, hcap, htext, -⟩ := h
  exact ⟨kept, hfirst.trans (List.prefix_append _ _), hcap, htext, nofun⟩

theorem Collects.truncate {truncated : Bool} {parts : List (List Byte)} {c : Collected}
    (h : Collects options truncated parts c) : Collects options true parts c := by
  obtain ⟨kept, hfirst, hcap, htext, -⟩ := h
  exact ⟨kept, hfirst, hcap, htext, nofun⟩

/-- Without truncation everything is within the cap. -/
theorem TextInv.not_overflows (h : TextInv options events run) (htruncated : run.truncated = false) :
    ¬ Overflows options events := by
  rintro ⟨stream, hlt⟩
  obtain ⟨kept, -, hcap, -, hall⟩ := h.collected stream
  rw [(hall htruncated).1] at hcap
  exact absurd hlt (not_lt.mpr hcap)

theorem TextInv.withinCap (h : TextInv options events run) (stream : OutputStream) :
    WithinCap options (chunks stream events) (run.collected stream).text := by
  obtain ⟨kept, hfirst, hcap, htext, -⟩ := h.collected stream
  exact ⟨kept, hfirst, hcap, htext⟩

/-- An event that does not write adds nothing to the texts. -/
theorem TextInv.extend (h : TextInv options events run) (hchunk : ∀ stream, e.chunk stream = none) :
    TextInv options (events ++ [e]) run where
  configured := h.configured
  overflows := fun htruncated => (h.overflows htruncated).concat e
  collected := fun stream => by
    rw [chunks_concat, hchunk, Option.toList_none, List.append_nil]
    exact h.collected stream

theorem TextInv.congr (h : TextInv options events run) (hsame : SameTexts run run') : TextInv options events run' where
  configured := hsame.1.trans h.configured
  overflows := hsame.2.1 ▸ h.overflows
  collected := by
    rw [hsame.2.1, hsame.2.2]
    exact h.collected

/-! ### Output -/

@[simp] theorem collected_setCollected (run : Run) (stream stream' : OutputStream) (c : Collected) :
    (run.setCollected stream c).collected stream' = if stream = stream' then c else run.collected stream' := by
  cases stream <;> cases stream' <;> rfl

theorem setCollected_eq (run : Run) (stream : OutputStream) (c : Collected) :
    ∃ stdout stderr, run.setCollected stream c = { run with stdout := stdout, stderr := stderr } := by
  cases stream <;> exact ⟨_, _, rfl⟩

theorem sameTexts_settle (run : Run) (code : ExitCode) : SameTexts run (run.settle code) := by
  unfold Run.settle
  split_ifs <;> exact ⟨rfl, rfl, rfl⟩

theorem sameTexts_kill (run : Run) (signal : Signal) (result : KillResult) :
    SameTexts run (run.kill signal result) := by
  unfold Run.kill
  split_ifs
  · cases result with
    | sent => exact ⟨rfl, rfl, rfl⟩
    | failed code => exact sameTexts_settle run code
  · exact ⟨rfl, rfl, rfl⟩

theorem sameTexts_terminate (run : Run) (result : KillResult) : SameTexts run (run.terminate result) := by
  have hkill := sameTexts_kill run .sigterm result
  unfold Run.terminate
  dsimp only
  split_ifs
  · exact ⟨rfl, rfl, rfl⟩
  · exact hkill
  · exact hkill

/-- The data is appended, counted as too much, or left out. -/
theorem TextInv.data (h : TextInv options events run) (stream : OutputStream) (bytes : List Byte)
    (result : KillResult) :
    TextInv options (events ++ [.data stream bytes result]) (run.onData stream bytes result) := by
  have hother : ∀ stream', stream ≠ stream' →
      chunks stream' (events ++ [.data stream bytes result]) = chunks stream' events := by
    intro stream' hne
    rw [chunks_concat, chunk_data, if_neg hne, Option.toList_none, List.append_nil]
  have hself : chunks stream (events ++ [.data stream bytes result]) = chunks stream events ++ [bytes] := by
    rw [chunks_concat, chunk_data, if_pos rfl]
    rfl
  unfold Run.onData
  by_cases htruncated : run.truncated = true
  · rw [if_pos htruncated]
    refine ⟨h.configured, fun _ => (h.overflows htruncated).concat _, fun stream' => ?_⟩
    have hcollected := h.collected stream'
    rw [htruncated] at hcollected ⊢
    rw [chunks_concat]
    exact hcollected.append _ _
  · obtain ⟨kept, -, hcap, htext, hall⟩ := h.collected stream
    obtain ⟨hkept, hbytes⟩ := hall (Bool.eq_false_of_not_eq_true htruncated)
    rw [if_neg htruncated]
    dsimp only
    by_cases hover : run.options.maxOutput < (run.collected stream).bytes + bytes.length
    · rw [if_pos (by exact_mod_cast hover)]
      refine TextInv.congr ?_ (sameTexts_terminate _ _)
      obtain ⟨stdout, stderr, hset⟩ := setCollected_eq run stream
        ⟨(run.collected stream).text, (run.collected stream).bytes + bytes.length⟩
      refine ⟨?_, fun _ => ⟨stream, ?_⟩, fun stream' => ?_⟩
      · rw [hset]
        exact h.configured
      · rw [hself, ← h.configured, List.flatten_append, List.length_append, ← hkept, ← hbytes]
        simpa using hover
      · show Collects options true _ ((run.setCollected stream _).collected stream')
        rw [collected_setCollected]
        split_ifs with hstream
        · rw [← hstream, hself]
          exact (h.collected stream).truncate.append _ _
        · rw [hother stream' hstream]
          exact (h.collected stream').truncate
    · rw [if_neg (by exact_mod_cast hover)]
      obtain ⟨stdout, stderr, hset⟩ := setCollected_eq run stream
        ⟨(run.collected stream).text ++ decodeUtf8 bytes, (run.collected stream).bytes + bytes.length⟩
      refine ⟨?_, ?_, fun stream' => ?_⟩
      · rw [hset]
        exact h.configured
      · rw [hset]
        exact fun htrue => absurd htrue htruncated
      · have hsame : (run.setCollected stream ⟨(run.collected stream).text ++ decodeUtf8 bytes,
            (run.collected stream).bytes + bytes.length⟩).truncated = run.truncated := by rw [hset]
        rw [hsame, collected_setCollected]
        split_ifs with hstream
        · rw [← hstream, hself]
          refine ⟨kept ++ [bytes], hkept ▸ List.prefix_rfl, ?_, ?_, fun _ => ⟨by rw [hkept], ?_⟩⟩
          · rw [List.flatten_append, List.length_append, ← hbytes, ← h.configured]
            simpa using hover
          · rw [List.flatMap_append, ← htext]
            simp
          · rw [List.flatten_append, List.length_append, ← hbytes]
            simp
        · rw [hother stream' hstream]
          exact h.collected stream'

/-! ### Every event -/

theorem step_timeout {result : KillResult} (h : run.step (.timeout result) = some run') :
    ∃ ms, run.timeoutTimer = .pending ms ∧
      run' = { run with timeoutTimer := .done, timedOut := true }.terminate result := by
  unfold Run.step at h
  dsimp only at h
  split at h
  next ms hms => exact ⟨ms, hms, (Option.some.inj h).symm⟩
  all_goals cases h

theorem step_killGrace {result : KillResult} (h : run.step (.killGrace result) = some run') :
    ∃ ms, run.killTimer = .pending ms ∧
      run' = if run.exited then { run with killTimer := .done }
        else { run with killTimer := .done }.kill .sigkill result := by
  unfold Run.step at h
  dsimp only at h
  split at h
  next ms hms => exact ⟨ms, hms, (Option.some.inj h).symm⟩
  all_goals cases h

theorem textInv_created (options : Options) (spawned : Bool) : TextInv options [] (created options spawned) where
  configured := rfl
  overflows := nofun
  collected := fun stream => by
    refine ⟨[], List.nil_prefix, (maxOutput_pos options).le, ?_⟩
    cases stream <;> exact ⟨rfl, fun _ => ⟨rfl, rfl⟩⟩

theorem textInv_start (options : Options) (spawned : Bool) (killed : KillResult) :
    TextInv options [] (start options spawned killed) := by
  have hcreated := textInv_created options spawned
  have habort : TextInv options [] ((created options spawned).onAbort killed) :=
    hcreated.congr (sameTexts_terminate { created options spawned with aborted := true } killed)
  unfold start
  cases options.signal with
  | none => exact hcreated.congr ⟨rfl, rfl, rfl⟩
  | some fired =>
      cases fired with
      | false => exact hcreated.congr ⟨rfl, rfl, rfl⟩
      | true =>
          cases spawned with
          | false => exact habort.congr ⟨rfl, rfl, rfl⟩
          | true =>
              cases killed with
              | sent => exact habort.congr ⟨rfl, rfl, rfl⟩
              | failed code => exact hcreated.congr ⟨rfl, rfl, rfl⟩

/-- Whether the kills fail or not, the texts are those of the data. -/
theorem textInv_step (h : TextInv options events run) (hstep : run.step e = some run') :
    TextInv options (events ++ [e]) run' := by
  cases e with
  | data stream bytes result =>
      obtain ⟨-, ⟨⟩⟩ := Option.ite_none_right_eq_some.mp hstep
      exact h.data stream bytes result
  | abort result =>
      obtain ⟨-, ⟨⟩⟩ := Option.ite_none_right_eq_some.mp hstep
      exact (h.extend fun _ => rfl).congr (sameTexts_terminate { run with listening := false, aborted := true } result)
  | timeout result =>
      obtain ⟨ms, -, rfl⟩ := step_timeout hstep
      exact (h.extend fun _ => rfl).congr
        (sameTexts_terminate { run with timeoutTimer := .done, timedOut := true } result)
  | killGrace result =>
      obtain ⟨ms, -, rfl⟩ := step_killGrace hstep
      split_ifs
      · exact (h.extend fun _ => rfl).congr ⟨rfl, rfl, rfl⟩
      · exact (h.extend fun _ => rfl).congr (sameTexts_kill { run with killTimer := .done } .sigkill result)
  | spawnError code =>
      obtain ⟨-, ⟨⟩⟩ := Option.ite_none_right_eq_some.mp hstep
      exact (h.extend fun _ => rfl).congr (sameTexts_settle { run with exited := true } code)
  | exit =>
      obtain ⟨-, ⟨⟩⟩ := Option.ite_none_right_eq_some.mp hstep
      exact (h.extend fun _ => rfl).congr ⟨rfl, rfl, rfl⟩
  | close code signalled =>
      obtain ⟨-, ⟨⟩⟩ := Option.ite_none_right_eq_some.mp hstep
      exact (h.extend fun _ => rfl).congr (sameTexts_settle run _)

theorem textInv_run (h : Machine.run Run.step (start options spawned killed) events = some run) :
    TextInv options events run :=
  run_history (fun _ hinv hstep => textInv_step hinv hstep) h (textInv_start options spawned killed)

/-- No signal is forgotten, and the promise is resolved with the texts that were collected. -/
structure Keeps (run run' : Run) : Prop where
  spawned : run'.spawned = run.spawned
  signals : run.signals ⊆ run'.signals
  resolved : ∀ result, .resolved result ∈ run'.outcomes →
    .resolved result ∈ run.outcomes ∨ ∀ stream, textOf result stream = (run.collected stream).text

theorem Keeps.refl (run : Run) : Keeps run run := ⟨rfl, List.Subset.refl _, fun _ => Or.inl⟩

/-- Flags and timers do not count. -/
theorem Keeps.flags {timedOut aborted exited listening : Bool} {killTimer timeoutTimer : Timer}
    (h : Keeps
      { run with
        timedOut := timedOut
        aborted := aborted
        exited := exited
        listening := listening
        killTimer := killTimer
        timeoutTimer := timeoutTimer } run') : Keeps run run' :=
  ⟨h.spawned, h.signals, h.resolved⟩

theorem keeps_settle (run : Run) (code : ExitCode) : Keeps run (run.settle code) := by
  unfold Run.settle
  split_ifs
  · exact Keeps.refl run
  · refine ⟨rfl, List.Subset.refl _, fun result hresult => ?_⟩
    rcases List.mem_append.mp hresult with hresult | hresult
    · exact Or.inl hresult
    · cases List.mem_singleton.mp hresult
      refine Or.inr fun stream => ?_
      cases stream <;> rfl

theorem keeps_kill (run : Run) (signal : Signal) (result : KillResult) : Keeps run (run.kill signal result) := by
  unfold Run.kill
  split_ifs
  · cases result with
    | sent => exact ⟨rfl, List.subset_append_left _ _, fun _ => Or.inl⟩
    | failed code => exact keeps_settle run code
  · exact Keeps.refl run

theorem keeps_terminate (run : Run) (result : KillResult) : Keeps run (run.terminate result) := by
  have hkill := keeps_kill run .sigterm result
  unfold Run.terminate
  dsimp only
  split_ifs
  · exact Keeps.refl run
  · exact ⟨hkill.spawned, hkill.signals, hkill.resolved⟩
  · exact hkill

/-- What was collected too much is no text. -/
theorem keeps_data (run : Run) (stream : OutputStream) (bytes : List Byte) (result : KillResult) :
    Keeps run (run.onData stream bytes result) := by
  have hset : ∀ c truncated, Keeps run { run.setCollected stream c with truncated := truncated } := by
    intro c truncated
    cases stream <;> exact ⟨rfl, List.Subset.refl _, fun _ => Or.inl⟩
  have htext : ∀ bytes stream',
      ((run.setCollected stream ⟨(run.collected stream).text, bytes⟩).collected stream').text =
        (run.collected stream').text := by
    intro bytes stream'
    rw [collected_setCollected]
    split_ifs with hstream
    · rw [hstream]
    · rfl
  unfold Run.onData
  dsimp only
  split_ifs
  · exact Keeps.refl run
  · have hbefore := hset ⟨(run.collected stream).text, (run.collected stream).bytes + bytes.length⟩ true
    have hterminate := keeps_terminate { run.setCollected stream
      ⟨(run.collected stream).text, (run.collected stream).bytes + bytes.length⟩ with truncated := true } result
    refine ⟨hterminate.spawned.trans hbefore.spawned, List.Subset.trans hbefore.signals hterminate.signals,
      fun r hr => ?_⟩
    rcases hterminate.resolved r hr with hold | hnew
    · exact hbefore.resolved r hold
    · exact Or.inr fun stream' => (hnew stream').trans (htext _ stream')
  · have hafter := hset ⟨(run.collected stream).text ++ decodeUtf8 bytes, (run.collected stream).bytes + bytes.length⟩
      run.truncated
    obtain ⟨stdout, stderr, heq⟩ := setCollected_eq run stream
      ⟨(run.collected stream).text ++ decodeUtf8 bytes, (run.collected stream).bytes + bytes.length⟩
    rw [heq] at hafter ⊢
    exact hafter

theorem keeps_step (hstep : run.step e = some run') : Keeps run run' := by
  cases e with
  | data stream bytes result =>
      obtain ⟨-, ⟨⟩⟩ := Option.ite_none_right_eq_some.mp hstep
      exact keeps_data run stream bytes result
  | abort result =>
      obtain ⟨-, ⟨⟩⟩ := Option.ite_none_right_eq_some.mp hstep
      exact (keeps_terminate { run with listening := false, aborted := true } result).flags
  | timeout result =>
      obtain ⟨ms, -, rfl⟩ := step_timeout hstep
      exact (keeps_terminate { run with timeoutTimer := .done, timedOut := true } result).flags
  | killGrace result =>
      obtain ⟨ms, -, rfl⟩ := step_killGrace hstep
      split_ifs
      · exact (Keeps.refl { run with killTimer := .done }).flags
      · exact (keeps_kill { run with killTimer := .done } .sigkill result).flags
  | spawnError code =>
      obtain ⟨-, ⟨⟩⟩ := Option.ite_none_right_eq_some.mp hstep
      exact (keeps_settle { run with exited := true } code).flags
  | exit =>
      obtain ⟨-, ⟨⟩⟩ := Option.ite_none_right_eq_some.mp hstep
      exact (Keeps.refl { run with exited := true }).flags
  | close code signalled =>
      obtain ⟨-, ⟨⟩⟩ := Option.ite_none_right_eq_some.mp hstep
      exact keeps_settle run _

/-! ### Chunks -/

/-- Within the cap each text is that of the chunks, one after the other. -/
theorem TextInv.collected_eq (h : TextInv options events run) (hcap : ¬ Overflows options events)
    (stream : OutputStream) : (run.collected stream).text = (chunks stream events).flatMap decodeUtf8 := by
  obtain ⟨kept, -, -, htext, hall⟩ := h.collected stream
  have htruncated : run.truncated = false := by
    by_contra htruncated
    exact hcap (h.overflows (Bool.eq_true_of_not_eq_false htruncated))
  rw [htext, (hall htruncated).1]

/-- The text that the promise is resolved with is the decoded output exactly when no chunk cuts a character. -/
theorem resolvedText_eq_decodeUtf8_iff (options : Options) (spawned : Bool) (killed : KillResult) (events : List Event)
    (h : Machine.run Run.step (start options spawned killed) events = some run)
    (hstep : run.step e = some run') (hpending : run.outcomes = []) {result : ResticCommandResult}
    (hresolved : .resolved result ∈ run'.outcomes) (hcap : ¬ Overflows options events) (stream : OutputStream) :
    textOf result stream = decodeUtf8 (chunks stream events).flatten ↔ WholeSequences (chunks stream events) := by
  have htexts : ∀ stream, textOf result stream = (run.collected stream).text := by
    rcases (keeps_step hstep).resolved result hresolved with hbefore | htexts
    · rw [hpending] at hbefore
      cases hbefore
    · exact htexts
  rw [htexts stream, (textInv_run h).collected_eq hcap stream]
  exact flatMap_decodeUtf8_eq_iff _

end Text

theorem not_overflows_of_le {options : Options} {events : List Event}
    (h : ∀ stream, (chunks stream events).flatten.length ≤ options.maxOutput) : ¬ Overflows options events :=
  fun ⟨stream, hlt⟩ => absurd hlt (not_lt.mpr (h stream))

/-- An `é` in one chunk, after another one. -/
theorem resolvedText_eq_decodeUtf8_iff_wholeCharacter :
    ∃ run run' result, Machine.run Run.step (start ⟨none, none, none, none⟩ true .sent)
        [.data .stdout [0x63, 0x61, 0x66] .sent, .data .stdout [0xc3, 0xa9] .sent, .exit] = some run ∧
      run.step (.close (some 0) false) = some run' ∧ .resolved result ∈ run'.outcomes ∧
      textOf result .stdout = decodeUtf8 [0x63, 0x61, 0x66, 0xc3, 0xa9] := by
  let before : Run := { ((start ⟨none, none, none, none⟩ true .sent).onData .stdout [0x63, 0x61, 0x66] .sent).onData
    .stdout [0xc3, 0xa9] .sent with exited := true }
  have hstep : before.step (.close (some 0) false) = some (before.settle (.number 0)) := rfl
  have hresolved : .resolved (before.result (.number 0)) ∈ (before.settle (.number 0)).outcomes := .head _
  have hwhole : WholeSequences [[0x63, 0x61, 0x66], [0xc3, 0xa9]] := by
    refine ⟨?_, ?_, trivial⟩ <;> rintro ⟨p, b, rest, hpending, -, -⟩ <;> cases hpending
  refine ⟨before, _, _, rfl, hstep, hresolved, ?_⟩
  exact (resolvedText_eq_decodeUtf8_iff ⟨none, none, none, none⟩ true .sent
    [.data .stdout [0x63, 0x61, 0x66] .sent, .data .stdout [0xc3, 0xa9] .sent, .exit] rfl hstep rfl hresolved
    (not_overflows_of_le fun stream => by cases stream <;> decide) .stdout).mpr hwhole

/-- The two bytes of an `é` in two chunks are collected as two replacement characters. -/
theorem resolvedText_splitCharacter :
    ∃ run run' result, Machine.run Run.step (start ⟨none, none, none, none⟩ true .sent)
        [.data .stdout [0xc3] .sent, .data .stdout [0xa9] .sent, .exit] = some run ∧
      run.step (.close (some 0) false) = some run' ∧ .resolved result ∈ run'.outcomes ∧
      ¬ Overflows ⟨none, none, none, none⟩ [.data .stdout [0xc3] .sent, .data .stdout [0xa9] .sent, .exit] ∧
      result.stdout = [replacement, replacement] ∧ decodeUtf8 [0xc3, 0xa9] = js "é" ∧
      result.stdout ≠
        decodeUtf8 (chunks .stdout [.data .stdout [0xc3] .sent, .data .stdout [0xa9] .sent, .exit]).flatten :=
  ⟨_, _, _, rfl, rfl, List.mem_singleton.mpr rfl, not_overflows_of_le fun stream => by cases stream <;> decide,
    by decide, by decide, by decide⟩

end SecretsManager.ResticRunner
