import SecretsManager.Restic.SnapshotFiles

/-!
# Results of restic invocations

Each operation of the client runs restic once and interprets the exit code and the output. A missing
repository is recognized by the exit code 10 or by the text of the error, and a repository that exists
already by its text alone.
-/

namespace SecretsManager

open Js

/-- What an operation throws: a synchronization error, a violated unique constraint of the database,
or any other error. -/
inductive Failure where
  | sync (e : ResticSyncError)
  | uniqueViolation
  | other (message : JsString)
  deriving DecidableEq

/-- The exit code of a process, or the code of the error that kept it from starting. -/
inductive ExitCode where
  | number (n : Int)
  | name (code : JsString)
  deriving DecidableEq

structure ResticCommandResult where
  code : ExitCode
  stdout : JsString
  stderr : JsString
  timedOut : Bool
  aborted : Bool
  truncated : Bool
  deriving DecidableEq

structure ResticTimeouts where
  snapshotsMs : Nat
  initMs : Nat
  backupMs : Nat
  restoreMs : Nat

/-! ## Snapshots -/

/-- A missing `time` is empty. -/
structure ResticSnapshot where
  id : JsString
  time : JsString
  deriving DecidableEq

/-- The string property `key` of an object. -/
def stringProperty (o : JsObject JsValue) (key : JsString) : JsString :=
  match o.get? key with
  | some (.str s) => s
  | _ => []

def ResticSnapshot.ofJson (item : Option (JsObject JsValue)) : ResticSnapshot :=
  match item with
  | some o => ⟨stringProperty o (js "id"), stringProperty o (js "time")⟩
  | none => ⟨[], []⟩

def compareIds (a b : JsString) : Int := if a < b then -1 else if b < a then 1 else 0

section Platform
variable (P : Platform)

def parseSnapshotTime (time : JsString) : Option Int := if time.length = 0 then none else P.dateParse time

def compareSnapshots (a b : ResticSnapshot) : Int :=
  match parseSnapshotTime P a.time, parseSnapshotTime P b.time with
  | none, none => compareIds a.id b.id
  | none, some _ => -1
  | some _, none => 1
  | some timeA, some timeB =>
      if timeA ≠ timeB then (if timeA < timeB then -1 else 1) else compareIds a.id b.id

def latestSnapshot : List ResticSnapshot → Option ResticSnapshot
  | [] => none
  | snapshot :: snapshots =>
      some (snapshots.foldl
        (fun latest current => if 0 < compareSnapshots P current latest then current else latest) snapshot)

/-- `JSON.parse(stdout) as ResticSnapshot[]`; what is no array fails at its first use. -/
def parseSnapshotsOutput (stdout : JsString) : Except Failure (List ResticSnapshot) :=
  match P.jsonParse stdout with
  | .error _ => .error (.other (js "Unable to parse restic snapshots output"))
  | .ok (.array items) => .ok (items.map .ofJson)
  | .ok (.scalar _) | .ok (.object _) => .error (.other (js "TypeError"))

/-- The id in a line of the output of `restic backup --json`. -/
def summarySnapshotId (line : JsString) : Option JsString :=
  let trimmed := trim line
  if startsWith trimmed (js "\x7b") = false then none
  else
    match P.jsonParse trimmed with
    | .ok (.object message) =>
        if message.get? (js "message_type") = some (.str (js "summary")) ∧
            0 < (stringProperty message (js "snapshot_id")).length then
          some (stringProperty message (js "snapshot_id"))
        else none
    | _ => none

def parseBackupSnapshotId (stdout : JsString) : Option JsString :=
  (stdout.splitOn (unit '\n')).findSome? (summarySnapshotId P)

/-! ## Classification -/

/-- `${result.stderr}\n${result.stdout}` -/
def ResticCommandResult.output (result : ResticCommandResult) : JsString :=
  result.stderr ++ js "\n" ++ result.stdout

def isRepoNotInitialized (result : ResticCommandResult) : Bool :=
  if result.code = .number 10 then true
  else
    let output := P.toLowerCase result.output
    includes output (js "unable to open config file") ||
      includes output (js "is there a repository at the following location") ||
      includes output (js "does not exist")

def isRepoAlreadyInitialized (result : ResticCommandResult) : Bool :=
  let output := P.toLowerCase result.output
  includes output (js "already initialized") || includes output (js "already exists")

def ExitCode.text : ExitCode → JsString
  | number n => js (toString n)
  | name code => code

def sanitizeResticError (result : ResticCommandResult) : JsString :=
  let output := trim result.output
  if output.length = 0 then js "restic exited with code " ++ result.code.text
  else
    let lines := (output.splitOn (unit '\n')).filter fun l => trim l ≠ []
    ((js " ").intercalate (lines.drop (lines.length - 10))).take 1000

/-! ## The operations of the client -/

/-- `runOperation`, after the process has ended. -/
def runOperation (timeoutMs : Nat) (label : JsString) (result : ResticCommandResult) :
    Except Failure ResticCommandResult :=
  if result.timedOut then
    .error (.sync
      ⟨js "The restic " ++ label ++ js " timed out after " ++ js (toString ((timeoutMs + 500) / 1000)) ++
        js " seconds: the repository endpoint may be unreachable", 504, none⟩)
  else if result.aborted then
    .error (.sync
      ⟨js "The restic " ++ label ++ js " was cancelled because the client disconnected", 499, none⟩)
  else .ok result

def snapshotOutputLimitError : Failure :=
  .other (js "restic snapshot listing output exceeded the 10 MB limit; reduce the repository history or raise MAX_SNAPSHOTS_OUTPUT_BYTES")

variable (timeouts : ResticTimeouts)

def repoInitializedResult (result : ResticCommandResult) : Except Failure Bool := do
  let result ← runOperation timeouts.snapshotsMs (js "repository check") result
  if result.truncated then throw snapshotOutputLimitError
  else if result.code = .number 0 then pure true
  else if isRepoNotInitialized P result then pure false
  else throw (.other (js "Unable to access the restic repository: " ++ sanitizeResticError result))

def initResult (result : ResticCommandResult) : Except Failure Unit := do
  let result ← runOperation timeouts.initMs (js "repository initialization") result
  if result.code ≠ .number 0 ∧ isRepoAlreadyInitialized P result = false then
    throw (.other (js "Unable to initialize the restic repository: " ++ sanitizeResticError result))
  else pure ()

def snapshotsResult (result : ResticCommandResult) : Except Failure (List ResticSnapshot) := do
  let result ← runOperation timeouts.snapshotsMs (js "snapshot listing") result
  if result.truncated then throw snapshotOutputLimitError
  else if result.code ≠ .number 0 then
    if isRepoNotInitialized P result then pure []
    else throw (.other (js "Unable to list restic snapshots: " ++ sanitizeResticError result))
  else parseSnapshotsOutput P result.stdout

def snapshotResult (id : JsString) (result : ResticCommandResult) :
    Except Failure (Option ResticSnapshot) := do
  let result ← runOperation timeouts.snapshotsMs (js "snapshot lookup") result
  if result.truncated then throw snapshotOutputLimitError
  else if result.code ≠ .number 0 then pure none
  else
    let snapshots ← parseSnapshotsOutput P result.stdout
    pure (snapshots.find? fun snapshot => snapshot.id = id)

def backupResult (result : ResticCommandResult) : Except Failure (Option JsString) := do
  let result ← runOperation timeouts.backupMs (js "backup") result
  if result.code ≠ .number 0 then
    throw (.other (js "Unable to push secrets to the restic repository: " ++ sanitizeResticError result))
  else pure (parseBackupSnapshotId P result.stdout)

def restoreResult (result : ResticCommandResult) : Except Failure Unit := do
  let result ← runOperation timeouts.restoreMs (js "restore") result
  if result.code ≠ .number 0 then
    throw (.other (js "Unable to restore secrets from the restic repository: " ++ sanitizeResticError result))
  else pure ()

/-! ## What a success says -/

variable {P timeouts}

theorem runOperation_ok {timeoutMs : Nat} {label : JsString} {result result' : ResticCommandResult}
    (h : runOperation timeoutMs label result = .ok result') : result' = result := by
  unfold runOperation at h
  split_ifs at h
  exact (Except.ok.inj h).symm

/-- A listing that succeeds has exited 0, or was taken for that of a missing repository. -/
theorem snapshotsResult_ok {result : ResticCommandResult} {snapshots : List ResticSnapshot}
    (h : snapshotsResult P timeouts result = .ok snapshots) :
    result.code = .number 0 ∧ parseSnapshotsOutput P result.stdout = .ok snapshots ∨
      result.code ≠ .number 0 ∧ snapshots = [] := by
  unfold snapshotsResult at h
  cases hrun : runOperation timeouts.snapshotsMs (js "snapshot listing") result with
  | error e => rw [hrun] at h; cases h
  | ok result' =>
      rw [hrun, runOperation_ok hrun] at h
      simp only [bind, Except.bind] at h
      split_ifs at h with htruncated hcode hmissing
      · exact Or.inr ⟨hcode, (Except.ok.inj h).symm⟩
      · exact Or.inl ⟨by simpa using hcode, h⟩

theorem backupResult_ok {result : ResticCommandResult} {createdId : Option JsString}
    (h : backupResult P timeouts result = .ok createdId) :
    createdId = parseBackupSnapshotId P result.stdout := by
  unfold backupResult at h
  cases hrun : runOperation timeouts.backupMs (js "backup") result with
  | error e => rw [hrun] at h; cases h
  | ok result' =>
      rw [hrun, runOperation_ok hrun] at h
      simp only [bind, Except.bind] at h
      split_ifs at h
      exact (Except.ok.inj h).symm

theorem snapshotResult_id {id : JsString} {result : ResticCommandResult} {s : ResticSnapshot}
    (h : snapshotResult P timeouts id result = .ok (some s)) : s.id = id := by
  unfold snapshotResult at h
  cases hrun : runOperation timeouts.snapshotsMs (js "snapshot lookup") result with
  | error e => rw [hrun] at h; cases h
  | ok result' =>
      rw [hrun] at h
      simp only [bind, Except.bind] at h
      split_ifs at h
      · cases h
      · cases hparse : parseSnapshotsOutput P result'.stdout with
        | error e => rw [hparse] at h; cases h
        | ok snapshots =>
            rw [hparse] at h
            have hfind := Except.ok.inj h
            simpa using List.find?_some hfind

theorem restoreResult_ok {result : ResticCommandResult} (h : restoreResult timeouts result = .ok ()) : result.code = .number 0 := by
  unfold restoreResult at h
  cases hrun : runOperation timeouts.restoreMs (js "restore") result with
  | error e => rw [hrun] at h; cases h
  | ok result' =>
      rw [hrun, runOperation_ok hrun] at h
      simp only [bind, Except.bind] at h
      split_ifs at h with hcode
      simpa using hcode

end Platform

end SecretsManager
