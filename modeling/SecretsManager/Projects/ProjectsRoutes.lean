import SecretsManager.Restic.SyncPreview

/-!
# The project routes and the operations of the server

Creation and deletion of a project and its synchronization routes, each after the access check, and the
backfill of the content hashes when a replica starts. Together with the secret routes these are the
operations whose programs run interleaved. Notifications, the status cache and the list of scopes, which
touch no project and no secret, are left out.
-/

namespace SecretsManager

open Js Interleaving

def projectNotFound : Response := .error 404 (js "Project Not Found")

section Platform
variable (P : Platform)

/-! ## The stored content hash -/

def secretsHashRefreshForProject (projectId : JsString) : Op Unit := do
  let secrets ← secretsDataListForProject projectId
  let _ ← Op.transact (.projectsDataUpdateCurrentContentHash projectId (rowsHash P secrets))

/-- One turn of the loop of `SecretsHashBackfillAll`. -/
def backfillProject (project : Project) : Op Unit := do
  if project.currentContentHash ≠ [] then pure ()
  else
    let secrets ← secretsDataListForProject project.id
    let canonical := rowsHash P secrets
    let _ ← Op.transact (.projectsDataUpdateCurrentContentHash project.id canonical)
    if project.lastSyncContentHash ≠ [] ∧ project.lastSyncContentHash ≠ canonical ∧
        project.lastSyncContentHash = computeSecretsHashLegacy P (contents secrets) then
      let _ ← Op.transact (.projectsDataUpdateLastSyncContentHash project.id canonical)

def secretsHashBackfillAll : Op Unit := do
  let projects ← projectsDataList
  projects.forM (backfillProject P)

/-! ## Creation and deletion -/

inductive CreateOutcome where
  | nameConflict
  | targetConflict (existingName : JsString)
  | created

/-- `project.repoTargetKey()`. A prefix that is truthy and no string is kept as it is and has no `trim`. -/
def ProjectBody.repoTargetKey (body : ProjectBody) (project : Project) : Except Failure JsString :=
  match orEmpty body.repoPrefix with
  | .str _ => .ok (project.repoTargetKey P)
  | _ => .error (.other (js "this.repoPrefix.trim is not a function"))

/-- The section under the lock `project_create`, for the project of the body. -/
def createProjectSection (body : ProjectBody) (project : Project) : Op CreateOutcome := do
  match ← projectsDataGetByName project.name with
  | some _ => pure .nameConflict
  | none =>
      let targetKey ← Prog.ofExcept (body.repoTargetKey P project)
      match ← projectsDataGetByRepoTarget P targetKey with
      | some existing => pure (.targetConflict existing.name)
      | none =>
          projectsDataAdd P project
          pure .created

def createLockName : JsString := js "project_create"

/-- `POST /` -/
def createProject (body : ProjectBody) : Op Response := do
  let errors := Project.validateNew P body
  if 0 < errors.length then pure (.error 400 ((js " ").intercalate errors))
  else
    let newId ← Op.uuid
    let now ← Op.now
    let project := Project.fromJson body newId now
    match ← dbUtilsWithLock createLockName (createProjectSection P body project) with
    | .nameConflict =>
        pure ⟨409, .error (js "A project with this name already exists") (some (js "PROJECT_NAME_CONFLICT"))⟩
    | .targetConflict existingName =>
        pure
          ⟨409, .error (js "A project already uses this repository target (project '" ++ existingName ++
            js "'). Change the repository prefix.") (some (js "PROJECT_TARGET_CONFLICT"))⟩
    | .created =>
        secretsHashRefreshForProject P project.id
        pure ⟨201, .project project⟩

def deleteProjectSection (projectId : JsString) : Op Bool := do
  match ← projectsDataGet projectId with
  | none => pure false
  | some fresh =>
      let _ ← Op.transact (.projectsDataDeleteCascade fresh.id)
      pure true

/-- `DELETE /:id` -/
def deleteProject (id : JsString) : Op Response := do
  match ← projectsDataGet id with
  | none => pure projectNotFound
  | some project =>
      let deleted ← projectWriteLocksRun project.id (deleteProjectSection project.id)
      if deleted then pure ⟨200, .empty⟩ else pure projectNotFound

/-! ## Synchronization -/

/-- The generic error carries a correlation id, which is left out. -/
def sendSyncError : Failure → Response
  | .sync e => ⟨e.statusCode, .error e.message e.code⟩
  | _ => ⟨500, .error (js "Internal Server Error") (some (js "INTERNAL_ERROR"))⟩

def readContentHash : Option JsValue → Option JsString
  | some (.str s) => if s = [] then none else some s
  | _ => none

/-- What the synchronization routes have in common: the project is looked up, and an error of the
synchronization becomes the response. -/
def syncRoute {α : Type} (id : JsString) (task : Project → Op α) (body : α → ResponseBody) :
    Op Response := do
  match ← projectsDataGet id with
  | none => pure projectNotFound
  | some project =>
      Prog.tryCatch
        (do
          let result ← task project
          pure ⟨200, body result⟩)
        fun e => pure (sendSyncError e)

variable (timeouts : ResticTimeouts)

/-- `POST /:id/pull` -/
def pull (id : JsString) (snapshotId contentHash : Option JsValue) : Op Response := do
  match ← projectsDataGet id with
  | none => pure projectNotFound
  | some project =>
      if (trim (stringOf (snapshotId.getD .null))).length = 0 then
        pure (.error 400 (js "snapshotId is required: preview the pull and send the previewed snapshot id"))
      else
        Prog.tryCatch
          (do
            let result ← resticSyncPull P timeouts project (stringOf (snapshotId.getD .null))
              (readContentHash contentHash)
            pure ⟨200, .restored result⟩)
          fun e => pure (sendSyncError e)

/-- `POST /:id/push` -/
def push (id : JsString) (pushedBy : Option JsString) : Op Response :=
  syncRoute id (fun project => resticSyncPush P timeouts project pushedBy) .pushed

/-- `POST /:id/snapshots/:snapshotId/restore` -/
def restoreSnapshotRoute (id snapshotId : JsString) (contentHash : Option JsValue) : Op Response :=
  syncRoute id (fun project =>
    resticSyncRestoreSnapshot P timeouts project snapshotId (readContentHash contentHash)) .restored

/-- `POST /:id/discard` -/
def discard (id : JsString) (contentHash : Option JsValue) : Op Response :=
  syncRoute id (fun project =>
    resticSyncDiscardLocalChanges P timeouts project (readContentHash contentHash)) .restored

/-- `GET /:id/preview/pull` -/
def previewPull (id : JsString) : Op Response :=
  syncRoute id (fun project => resticSyncPreviewPull P timeouts project) .preview

/-- `GET /:id/preview/discard` -/
def previewDiscard (id : JsString) : Op Response :=
  syncRoute id (fun project => resticSyncPreviewDiscardLocalChanges P timeouts project) .preview

/-- `GET /:id/preview/snapshots/:snapshotId` -/
def previewRestore (id snapshotId : JsString) : Op Response :=
  syncRoute id (fun project => resticSyncPreviewRestoreSnapshot P timeouts project snapshotId) .preview

end Platform

/-! ## The operations -/

/-- What a replica can be asked to do, by a request or by its start. -/
inductive Operation where
  | startUp
  | createProject (body : ProjectBody)
  | deleteProject (id : JsString)
  | createSecret (projectId : JsString) (body : SecretBody)
  | updateSecret (projectId secretId : JsString) (body : SecretBody)
  | updateSecretKey (projectId secretId : JsString) (body : SecretBody)
  | deleteSecret (projectId secretId : JsString)
  | push (projectId : JsString) (pushedBy : Option JsString)
  | pull (projectId : JsString) (snapshotId contentHash : Option JsValue)
  | restore (projectId snapshotId : JsString) (contentHash : Option JsValue)
  | discard (projectId : JsString) (contentHash : Option JsValue)
  | previewPull (projectId : JsString)
  | previewRestore (projectId snapshotId : JsString)
  | previewDiscard (projectId : JsString)

/-- The program of an operation. -/
def serve (P : Platform) (timeouts : ResticTimeouts) : Operation → Op Response
  | .startUp => do
      secretsHashBackfillAll P
      pure ⟨200, .empty⟩
  | .createProject body => SecretsManager.createProject P body
  | .deleteProject id => SecretsManager.deleteProject id
  | .createSecret projectId body => SecretsManager.createSecret P projectId body
  | .updateSecret projectId secretId body => SecretsManager.updateSecret P projectId secretId body
  | .updateSecretKey projectId secretId body => SecretsManager.updateSecretKey P projectId secretId body
  | .deleteSecret projectId secretId => SecretsManager.deleteSecret P projectId secretId
  | .push projectId pushedBy => SecretsManager.push P timeouts projectId pushedBy
  | .pull projectId snapshotId contentHash => SecretsManager.pull P timeouts projectId snapshotId contentHash
  | .restore projectId snapshotId contentHash => restoreSnapshotRoute P timeouts projectId snapshotId contentHash
  | .discard projectId contentHash => SecretsManager.discard P timeouts projectId contentHash
  | .previewPull projectId => SecretsManager.previewPull P timeouts projectId
  | .previewRestore projectId snapshotId => SecretsManager.previewRestore P timeouts projectId snapshotId
  | .previewDiscard projectId => SecretsManager.previewDiscard P timeouts projectId

/-- The operations that replace the secrets of a project by a snapshot, with the project and the token
that the request carries. -/
def Operation.confirms : Operation → Option (JsString × Option JsString)
  | .pull projectId _ contentHash | .restore projectId _ contentHash | .discard projectId contentHash =>
      some (projectId, readContentHash contentHash)
  | _ => none

/-- All programs of the server, against repositories that behave like `restic`. -/
def server {R : Type} (P : Platform) (timeouts : ResticTimeouts) (restic : Restic R)
    (admits : Operation → Prop) : System (World R) Cmd Cmd.Answer Failure Response Operation where
  admits := admits
  body := serve P timeouts
  exec := fun t _ _ => Exec restic t
  environment := Outside restic

end SecretsManager
