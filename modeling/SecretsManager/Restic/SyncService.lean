import SecretsManager.Secrets.SecretsRoutes

/-!
# The synchronization service

Pull, push, restore and discard. The runs of restic are outside the write section of the project; only
the comparison with the content hash, the replacement and the writes of the synchronization state are
inside.
-/

namespace SecretsManager

open Js Interleaving

/-- The client of the repository of a project. -/
structure ResticClient where
  project : Project
  timeouts : ResticTimeouts

section Platform
variable (P : Platform)

/-! ## The client -/

namespace ResticClient

def run (client : ResticClient) (op : ResticOp) : Op ResticAnswer := .lift (Cmd.restic client.project.id op)

def repoInitialized (client : ResticClient) : Op Bool := do
  let answer ← client.run .repositoryCheck
  Prog.ofExcept (repoInitializedResult P client.timeouts answer.result)

def init (client : ResticClient) : Op Unit := do
  let answer ← client.run .init
  Prog.ofExcept (initResult P client.timeouts answer.result)

def snapshots (client : ResticClient) : Op (List ResticSnapshot) := do
  let answer ← client.run .snapshots
  Prog.ofExcept (snapshotsResult P client.timeouts answer.result)

def snapshot (client : ResticClient) (id : JsString) : Op (Option ResticSnapshot) := do
  let answer ← client.run (.snapshot id)
  Prog.ofExcept (snapshotResult P client.timeouts id answer.result)

def backup (client : ResticClient) (dir : Dir) (pushedBy : Option JsString) : Op (Option JsString) := do
  let answer ← client.run (.backup dir pushedBy)
  Prog.ofExcept (backupResult P client.timeouts answer.result)

/-- Restores into an empty directory and gives its listing. -/
def restore (client : ResticClient) (snapshotId : JsString) : Op (List (JsString × FsNode)) := do
  let answer ← client.run (.restore snapshotId)
  Prog.ofExcept (restoreResult client.timeouts answer.result)
  pure answer.restored

end ResticClient

/-! ## Pull and restore -/

def syncPreviewStale : Failure :=
  .sync ⟨js "Project secrets changed since the preview. Preview again and confirm the new changes.", 409,
    some (js "SYNC_PREVIEW_STALE")⟩

/-- The token of the request, or the hash of the secrets now. -/
def resolveExpectedContentHash (project : Project) (expectedContentHash : Option JsString) :
    Op JsString := do
  match expectedContentHash with
  | some hash => pure hash
  | none =>
      let secrets ← secretsDataListForProject project.id
      pure (rowsHash P secrets)

/-- Each file of the snapshot becomes a new secret of the project. -/
def secretsOfContents (projectId : JsString) : List SecretContent → Op (List Secret)
  | [] => pure []
  | content :: rest => do
      let secret ← newSecret projectId content
      let secrets ← secretsOfContents projectId rest
      pure (secret :: secrets)

def readSnapshotSecretsForProject (project : Project) (listing : List (JsString × FsNode)) :
    Op (List Secret) := do
  Op.fs .readDirectory
  match readSnapshotSecrets P listing with
  | .error e => Op.throw (.sync e)
  | .ok read => secretsOfContents project.id read

def countSecretKeys (secrets : List Secret) : Nat := (secrets.map fun secret => secret.data.keys.length).sum

def applySnapshotSection (projectId expectedContentHash : JsString) (secrets : List Secret)
    (snapshotId snapshotTime : JsString) : Op Unit := do
  match ← projectsDataGet projectId with
  | none => Op.throwSync (js "Project not found: " ++ projectId) 404 none
  | some _ =>
      let current ← secretsDataListForProject projectId
      if rowsHash P current ≠ expectedContentHash then Op.throw syncPreviewStale
      else
        let _ ← Op.transact (.secretsDataReplaceForProject projectId secrets
          ⟨snapshotId, snapshotTime, rowsHash P secrets⟩)
        pure ()

/-- The comparison and the replacement, in the write section of the project. -/
def applySnapshotSecrets (projectId expectedContentHash : JsString) (secrets : List Secret)
    (snapshot : ResticSnapshot) : Op Unit :=
  projectWriteLocksRun projectId
    (applySnapshotSection P projectId expectedContentHash secrets snapshot.id snapshot.time)

/-- Restores the snapshot and replaces the secrets by its content. -/
def restoreAndApply (client : ResticClient) (expected : JsString) (snapshot : ResticSnapshot) :
    Op RestoreSnapshotResult := do
  let listing ← client.restore snapshot.id
  Op.fs .restrictTreePermissions
  let secrets ← readSnapshotSecretsForProject P client.project listing
  applySnapshotSecrets P client.project.id expected secrets snapshot
  pure ⟨snapshot.id, snapshot.time, secrets.length, countSecretKeys secrets⟩

/-- The project row now, or the one at hand when it is gone. -/
def rereadProject (project : Project) : Op Project := do
  let fresh ← projectsDataGet project.id
  pure (fresh.getD project)

/-- Runs the task between the creation and the removal of a working directory. -/
def withWorkDir {α : Type} (task : Op α) : Op α := do
  Op.fs .createTemporaryWorkDir
  Prog.tryFinally (do Op.fs .ensurePrivateDir; task) Op.removeWorkDir

variable (timeouts : ResticTimeouts)

def pullSnapshot (client : ResticClient) (expected snapshotId : JsString) : Op RestoreSnapshotResult := do
  let snapshots ← client.snapshots P
  match latestSnapshot P snapshots with
  | none => Op.throwSync (js "Repository is empty: no snapshot to pull") 404 none
  | some latest =>
      if latest.id ≠ snapshotId then
        Op.throwSync (js "The repository changed since the preview (latest snapshot is now " ++ latest.id ++
          js "). Preview the pull again.") 409 none
      else restoreAndApply P client expected latest

def resticSyncPullUnlocked (project : Project) (snapshotId : JsString)
    (expectedContentHash : Option JsString) : Op RestoreSnapshotResult := do
  if (trim snapshotId).length = 0 then
    Op.throwSync (js "snapshotId is required: preview the pull and send the previewed snapshot id") 400 none
  else
    let project ← rereadProject project
    let expected ← resolveExpectedContentHash P project expectedContentHash
    withWorkDir (pullSnapshot P ⟨project, timeouts⟩ expected snapshotId)

def resticSyncPull (project : Project) (snapshotId : JsString) (expectedContentHash : Option JsString) :
    Op RestoreSnapshotResult :=
  syncQueueRun project.id (resticSyncPullUnlocked P timeouts project snapshotId expectedContentHash)

def snapshotNotFound {α : Type} (snapshotId : JsString) : Op α :=
  Op.throwSync (js "Snapshot not found in the repository: " ++ snapshotId) 404 none

def restoreSnapshot (client : ResticClient) (expected snapshotId : JsString) :
    Op RestoreSnapshotResult := do
  let snapshots ← client.snapshots P
  match snapshots.find? fun snapshot => snapshot.id = snapshotId with
  | none => snapshotNotFound snapshotId
  | some target => restoreAndApply P client expected target

def resticSyncRestoreSnapshotUnlocked (project : Project) (snapshotId : JsString)
    (expectedContentHash : Option JsString) : Op RestoreSnapshotResult := do
  let project ← rereadProject project
  let expected ← resolveExpectedContentHash P project expectedContentHash
  withWorkDir (restoreSnapshot P ⟨project, timeouts⟩ expected snapshotId)

def resticSyncRestoreSnapshot (project : Project) (snapshotId : JsString)
    (expectedContentHash : Option JsString) : Op RestoreSnapshotResult :=
  syncQueueRun project.id
    (resticSyncRestoreSnapshotUnlocked P timeouts project snapshotId expectedContentHash)

def neverSynchronized {α : Type} : Op α :=
  Op.throwSync (js "Project was never synchronized: there are no local changes to discard") 409 none

def resticSyncDiscardLocalChangesUnlocked (project : Project) (expectedContentHash : Option JsString) :
    Op RestoreSnapshotResult := do
  let project ← rereadProject project
  if project.lastSyncSnapshotId = [] then neverSynchronized
  else
    resticSyncRestoreSnapshotUnlocked P timeouts project project.lastSyncSnapshotId expectedContentHash

def resticSyncDiscardLocalChanges (project : Project) (expectedContentHash : Option JsString) :
    Op RestoreSnapshotResult :=
  syncQueueRun project.id (resticSyncDiscardLocalChangesUnlocked P timeouts project expectedContentHash)

/-! ## Push -/

/-- Writes the file of one secret. -/
def exportSecret (dir : Dir) (secret : Secret) : Op Dir := do
  Op.fs (.writePrivateJson (fileName secret.name))
  match writePrivateJson dir (fileName secret.name) secret.data with
  | some dir => pure dir
  | none => Op.throw (.other (js "ENAMETOOLONG"))

/-- The push is refused when the latest snapshot is not the last synchronized one. -/
def ensureNoNewerSnapshot (project : Project) (repoLatest : ResticSnapshot) : Op Unit :=
  if project.lastSyncSnapshotId = [] then
    Op.throwSync (js "The repository already contains snapshots. Pull first before pushing.") 409 none
  else if repoLatest.id ≠ project.lastSyncSnapshotId then
    Op.throwSync (js "A more recent snapshot exists in the repository. Pull first before pushing.") 409 none
  else pure ()

/-- The lookups of a created snapshot that are left; the waiting between them is left out. -/
def lookupCreated (client : ResticClient) (createdId : JsString) : Nat → Op (Option ResticSnapshot)
  | 0 => pure none
  | attempts + 1 => do
      match ← client.snapshot P createdId with
      | some created => pure (some created)
      | none => lookupCreated client createdId attempts

def notIdentified {α : Type} : Op α :=
  Op.throwSync
    (js "The push created a snapshot but it could not be identified; pull before pushing again") 500 none

/-- The single snapshot of the listing that was not known before. -/
def onlyNewSnapshot (knownIds : List JsString) (snapshotsAfter : List ResticSnapshot) :
    Op ResticSnapshot :=
  match snapshotsAfter.filter fun snapshot => snapshot.id ∉ knownIds with
  | [snapshot] => pure snapshot
  | _ => notIdentified

def createdLookupAttempts : Nat := 3

/-- An empty id counts as none. -/
def resolveCreatedSnapshot (client : ResticClient) (createdId : Option JsString)
    (knownIds : List JsString) : Op ResticSnapshot := do
  match createdId.filter fun id => id ≠ [] with
  | some createdId =>
      match ← lookupCreated P client createdId createdLookupAttempts with
      | some created => pure created
      | none =>
          let snapshotsAfter ← client.snapshots P
          match snapshotsAfter.find? fun snapshot => snapshot.id = createdId with
          | some exact => pure exact
          | none => onlyNewSnapshot knownIds snapshotsAfter
  | none =>
      let snapshotsAfter ← client.snapshots P
      onlyNewSnapshot knownIds snapshotsAfter

def finalizePushSection (projectId observedLastSyncSnapshotId pushedHash : JsString)
    (created : ResticSnapshot) : Op Unit := do
  match ← projectsDataGet projectId with
  | none => Op.throwSync (js "Project not found: " ++ projectId) 404 none
  | some fresh =>
      if fresh.lastSyncSnapshotId ≠ observedLastSyncSnapshotId then
        Op.throwSync (js "Another synchronization completed while pushing. Pull and push again.") 409 none
      else
        let freshSecrets ← secretsDataListForProject projectId
        let _ ← Op.transact (.projectsDataUpdateSyncState projectId created.id created.time pushedHash
          (rowsHash P freshSecrets))
        pure ()

/-- Initializes the repository when needed, and lists its snapshots for the conflict check. -/
def prepareRepository (client : ResticClient) : Op (List ResticSnapshot) := do
  let initialized ← client.repoInitialized P
  if initialized = false then client.init P
  client.snapshots P

def checkNoConflict (project : Project) (snapshots : List ResticSnapshot) : Op Unit :=
  match latestSnapshot P snapshots with
  | some latest => ensureNoNewerSnapshot project latest
  | none => pure ()

/-- The conflict check lets the listing pass, or fails. -/
theorem meets_checkNoConflict {S : Type} {M : Monitor Cmd Cmd.Answer S} {state : S} {project : Project}
    {snapshots : List ResticSnapshot} {Q : Except Failure Unit → S → Prop}
    (hok : (∀ latest ∈ latestSnapshot P snapshots, latest.id = project.lastSyncSnapshotId) → Q (.ok ()) state)
    (herror : ∀ e, Q (.error e) state) : (checkNoConflict P project snapshots).Meets M state Q := by
  unfold checkNoConflict ensureNoNewerSnapshot
  split
  · rename_i latest hlatest
    split_ifs with hnever hnewer
    · exact herror _
    · exact herror _
    · refine hok fun latest' h => ?_
      rw [Option.mem_unique h hlatest]
      exact not_not.mp hnewer
  · rename_i hnone
    refine hok fun latest h => ?_
    rw [hnone] at h
    cases h

/-- The part of a push with a working directory. -/
def pushSecrets (client : ResticClient) (pushedBy : Option JsString) : Op PushResult := do
  let project := client.project
  let secrets ← secretsDataListForProject project.id
  let dir ← secrets.foldlM exportSecret Dir.empty
  let snapshots ← prepareRepository P client
  checkNoConflict P project snapshots
  let createdId ← client.backup P dir pushedBy
  let created ← resolveCreatedSnapshot P client createdId (snapshots.map ResticSnapshot.id)
  projectWriteLocksRun project.id
    (finalizePushSection P project.id project.lastSyncSnapshotId (rowsHash P secrets) created)
  pure ⟨created.id, created.time⟩

def resticSyncPushUnlocked (project : Project) (pushedBy : Option JsString) : Op PushResult := do
  let project ← rereadProject project
  withWorkDir (pushSecrets P ⟨project, timeouts⟩ pushedBy)

def resticSyncPush (project : Project) (pushedBy : Option JsString) : Op PushResult :=
  syncQueueRun project.id (resticSyncPushUnlocked P timeouts project pushedBy)

end Platform

/-! ## The commands of the parts -/

section Only
variable {P : Platform} {client : ResticClient} {p : Cmd → Prop}

theorem only_fs {op : FsOp} (h : p (.fs op)) : (Op.fs op).Only p := only_query h

theorem only_run {α : Type} {op : ResticOp} {result : ResticAnswer → Except Failure α}
    (h : p (.restic client.project.id op)) : (client.run op >>= fun a => Prog.ofExcept (result a) : Op α).Only p :=
  only_query h

theorem only_snapshots (h : p (.restic client.project.id .snapshots)) : (client.snapshots P).Only p := only_run h

theorem only_backup {dir : Dir} {pushedBy : Option JsString} (h : p (.restic client.project.id (.backup dir pushedBy))) :
    (client.backup P dir pushedBy).Only p := only_run h

theorem only_restore {id : JsString} (h : p (.restic client.project.id (.restore id))) : (client.restore id).Only p :=
  Prog.Only.bind (only_lift.mpr h) fun _ => Prog.Only.bind only_ofExcept fun _ => only_pure

theorem only_exportSecret (h : ∀ name, p (.fs (.writePrivateJson name))) (dir : Dir) (secret : Secret) :
    (exportSecret dir secret).Only p := by
  refine (only_fs (h _)).bind fun _ => ?_
  cases writePrivateJson dir (fileName secret.name) secret.data <;> trivial

theorem only_prepareRepository (hcheck : p (.restic client.project.id .repositoryCheck))
    (hinit : p (.restic client.project.id .init)) (hsnapshots : p (.restic client.project.id .snapshots)) :
    (prepareRepository P client).Only p := by
  refine (only_run hcheck).bind fun initialized => only_ite ?_ (only_snapshots hsnapshots)
  exact (only_run hinit).bind fun _ => only_snapshots hsnapshots

theorem only_checkNoConflict {project : Project} {snapshots : List ResticSnapshot} :
    (checkNoConflict P project snapshots).Only p := by
  unfold checkNoConflict ensureNoNewerSnapshot
  split
  · exact only_ite only_fail (only_ite only_fail only_pure)
  · exact only_pure

theorem only_lookupCreated {createdId : JsString} (h : ∀ id, p (.restic client.project.id (.snapshot id)))
    (attempts : Nat) : (lookupCreated P client createdId attempts).Only p := by
  induction attempts with
  | zero => exact only_pure
  | succ attempts ih =>
      refine (only_run (h createdId)).bind fun found => ?_
      cases found with
      | none => exact ih
      | some created => exact only_pure

theorem only_onlyNewSnapshot {knownIds : List JsString} {snapshots : List ResticSnapshot} :
    (onlyNewSnapshot knownIds snapshots).Only p := by
  unfold onlyNewSnapshot
  split
  · exact only_pure
  · exact only_fail

theorem only_resolveCreatedSnapshot {createdId : Option JsString} {knownIds : List JsString}
    (hsnapshot : ∀ id, p (.restic client.project.id (.snapshot id)))
    (hsnapshots : p (.restic client.project.id .snapshots)) :
    (resolveCreatedSnapshot P client createdId knownIds).Only p := by
  unfold resolveCreatedSnapshot
  split
  · refine (only_lookupCreated hsnapshot _).bind fun found => ?_
    cases found with
    | some created => exact only_pure
    | none =>
        refine (only_snapshots hsnapshots).bind fun snapshots => ?_
        split
        · exact only_pure
        · exact only_onlyNewSnapshot
  · exact (only_snapshots hsnapshots).bind fun _ => only_onlyNewSnapshot

end Only

end SecretsManager
