import SecretsManager.Restic.SnapshotHistory
import SecretsManager.Secrets.SecretEnv
import SecretsManager.Users.ProjectAccess

/-!
# The routes

Every route with the id of a project, and the two lists of the projects of a user. A handler first asks for
access and then runs the operation of the route or its queries. Headers, notifications and the list of known
scopes are left out.
-/

namespace SecretsManager

open Js Interleaving

/-! ## Responses -/

/-- The fields of a project that are sent: no credential and no current hash. -/
structure TransportProject where
  id : JsString
  name : JsString
  description : JsString
  s3Endpoint : JsString
  s3Bucket : JsString
  repoPrefix : JsString
  s3Region : JsString
  s3BucketLookup : JsString
  repositoryUrl : JsString
  lastSyncSnapshotId : JsString
  lastSyncSnapshotTime : JsString
  lastSyncContentHash : JsString
  dateCreated : JsString
  deriving DecidableEq

structure ProjectView extends TransportProject where
  secretCount : Nat
  hasLocalChanges : Bool
  deriving DecidableEq

inductive RouteBody where
  | plain (body : ResponseBody)
  | projects (projects : List ProjectView)
  | project (project : ProjectView)
  | statuses (statuses : List (JsString × Option SyncStatusResult))
  | status (status : SyncStatusResult)
  | snapshots (page : SnapshotPage)
  | secrets (secrets : List Secret)
  | text (contentType content : JsString)
  deriving DecidableEq

structure RouteResponse where
  status : Nat
  body : RouteBody
  deriving DecidableEq

def Response.sent (response : Response) : RouteResponse := ⟨response.status, .plain response.body⟩

def Project.toTransportJson (P : Platform) (project : Project) : TransportProject where
  id := project.id
  name := project.name
  description := project.description
  s3Endpoint := project.s3Endpoint
  s3Bucket := project.s3Bucket
  repoPrefix := project.effectiveRepoPrefix P
  s3Region := project.s3Region
  s3BucketLookup := project.s3BucketLookup
  repositoryUrl := project.repositoryUrl P
  lastSyncSnapshotId := project.lastSyncSnapshotId
  lastSyncSnapshotTime := project.lastSyncSnapshotTime
  lastSyncContentHash := project.lastSyncContentHash
  dateCreated := project.dateCreated

def projectView (P : Platform) (project : Project) (secretCount : Nat) : ProjectView where
  toTransportProject := project.toTransportJson P
  secretCount := secretCount
  hasLocalChanges := computeHasLocalChanges project secretCount

/-! ## The handlers -/

/-- A handler after the access check. -/
def withAccess (projectId : JsString) (task : User → RouteOp RouteResponse) : RouteOp RouteResponse := do
  match ← projectAccessEnsure projectId with
  | .error response => pure response.sent
  | .ok user => task user

/-- `counts.get(projectId) ?? 0` -/
def countOf (counts : List SecretCount) (projectId : JsString) : Nat :=
  ((counts.find? fun count => count.1 = projectId).map Prod.snd).getD 0

section Platform
variable (P : Platform) (timeouts : ResticTimeouts)

/-- `GET /` -/
def listProjects : RouteOp RouteResponse := do
  match ← projectAccessGetUser with
  | .error response => pure response.sent
  | .ok user =>
      let projects ← projectsDataList.route
      let counts ← Prog.lift RouteCmd.secretsCountsAll >>= .ofExcept
      let visibleIds := projectAccessCanAccessMany user (projects.map Project.id)
      let visible := projects.filter fun project => visibleIds.contains project.id
      pure ⟨200, .projects (visible.map fun project => projectView P project (countOf counts project.id))⟩

/-- `GET /status` -/
def listStatuses : RouteOp RouteResponse := do
  match ← projectAccessGetUser with
  | .error response => pure response.sent
  | .ok user =>
      let projects ← projectsDataList.route
      let visibleIds := projectAccessCanAccessMany user (projects.map Project.id)
      let visible := projects.filter fun project => visibleIds.contains project.id
      let statuses ← Prog.lift (RouteCmd.syncStatuses visible)
      pure ⟨200, .statuses statuses⟩

/-- `GET /:id` -/
def getProject (id : JsString) : RouteOp RouteResponse :=
  withAccess id fun _ => do
    match ← (projectsDataGet id).route with
    | none => pure projectNotFound.sent
    | some project =>
        let secretCount ← Prog.lift (RouteCmd.secretsCountForProject project.id) >>= .ofExcept
        pure ⟨200, .project (projectView P project secretCount)⟩

/-- The section of a deletion, with what it drops from the status cache. -/
def deleteProjectRouteSection (projectId : JsString) : RouteOp Bool := do
  match ← (projectsDataGet projectId).route with
  | none => pure false
  | some fresh =>
      let _ ← (Op.transact (.projectsDataDeleteCascade fresh.id)).route
      Prog.lift (RouteCmd.syncStatusCacheInvalidate fresh.id)
      pure true

/-- `DELETE /:id`, for administrators. -/
def deleteProjectRoute (id : JsString) : RouteOp RouteResponse := do
  match ← Prog.lift RouteCmd.mustBeAdmin with
  | some response => pure response.sent
  | none =>
      match ← (projectsDataGet id).route with
      | none => pure projectNotFound.sent
      | some project =>
          let held ← Prog.lift (RouteCmd.server (.acquire (projectWriteLockName project.id)))
          Prog.ofExcept held
          let deleted ← (deleteProjectRouteSection project.id).tryFinally
            (Prog.lift (RouteCmd.server (.release (projectWriteLockName project.id))))
          if deleted then pure ⟨200, .plain .empty⟩ else pure projectNotFound.sent

/-- A synchronization drops the cached status of the project when it has succeeded. -/
def synchronize (id : JsString) (task : Op Response) : RouteOp RouteResponse := do
  let response ← task.route
  if response.status = 200 then
    Prog.lift (RouteCmd.syncStatusCacheInvalidate id)
  pure response.sent

/-- `POST /:id/pull` -/
def pullRoute (id : JsString) (snapshotId contentHash : Option JsValue) : RouteOp RouteResponse :=
  withAccess id fun _ => synchronize id (pull P timeouts id snapshotId contentHash)

/-- `POST /:id/push`: the snapshot is tagged with the name of the user. -/
def pushRoute (id : JsString) : RouteOp RouteResponse :=
  withAccess id fun user => synchronize id (push P timeouts id user.name)

/-- `GET /:id/status` -/
def statusRoute (id : JsString) : RouteOp RouteResponse :=
  withAccess id fun _ => do
    match ← (projectsDataGet id).route with
    | none => pure projectNotFound.sent
    | some project =>
        match ← Prog.lift (RouteCmd.syncStatusCacheGet project) with
        | .ok result => pure ⟨200, .status result⟩
        | .error e => pure (sendSyncError e).sent

/-- `GET /:id/snapshots` -/
def snapshotsRoute (id : JsString) (query : SnapshotPageQuery) : RouteOp RouteResponse :=
  withAccess id fun _ => do
    match ← (projectsDataGet id).route with
    | none => pure projectNotFound.sent
    | some project =>
        match parseSnapshotPageQuery query with
        | .error e => pure (sendSyncError e).sent
        | .ok request =>
            Prog.tryCatch
              (do
                let snapshots ← (resticSyncListSnapshots P timeouts project).route
                let page ← Prog.ofExcept (paginateSnapshotHistory snapshots request.limit request.before)
                pure ⟨200, .snapshots page⟩)
              fun e => pure (sendSyncError e).sent

/-- `POST /:id/snapshots/:snapshotId/restore` -/
def restoreRoute (id snapshotId : JsString) (contentHash : Option JsValue) : RouteOp RouteResponse :=
  withAccess id fun _ => synchronize id (restoreSnapshotRoute P timeouts id snapshotId contentHash)

/-- `POST /:id/discard` -/
def discardRoute (id : JsString) (contentHash : Option JsValue) : RouteOp RouteResponse :=
  withAccess id fun _ => synchronize id (discard P timeouts id contentHash)

/-- A route that is one operation, after the access check. -/
def operationRoute (id : JsString) (task : Op Response) : RouteOp RouteResponse :=
  withAccess id fun _ => do
    let response ← task.route
    pure response.sent

/-- `GET /:id/preview/pull` -/
def previewPullRoute (id : JsString) : RouteOp RouteResponse := operationRoute id (previewPull P timeouts id)

/-- `GET /:id/preview/discard` -/
def previewDiscardRoute (id : JsString) : RouteOp RouteResponse := operationRoute id (previewDiscard P timeouts id)

/-- `GET /:id/preview/snapshots/:snapshotId` -/
def previewRestoreRoute (id snapshotId : JsString) : RouteOp RouteResponse :=
  operationRoute id (previewRestore P timeouts id snapshotId)

/-- `GET /:id/secrets` -/
def listSecrets (id : JsString) : RouteOp RouteResponse :=
  withAccess id fun _ => do
    let secrets ← (secretsDataListForProject id).route
    pure ⟨200, .secrets secrets⟩

def secretNotFound : Response := .error 404 (js "Secret Not Found")

/-- `(format || "env").toLowerCase()` -/
def exportFormat (format : Option JsString) : JsString :=
  P.toLowerCase (match format with
    | none | some [] => js "env"
    | some format => format)

def secretDataToJsonContent (data : SecretData) : JsString := stringifyIndented data

/-- `GET /:id/secrets/by-name/:name/export` -/
def exportSecretByName (id name : JsString) (format : Option JsString) : RouteOp RouteResponse :=
  withAccess id fun _ => do
    match ← Prog.lift (RouteCmd.secretsGetByName id name) >>= .ofExcept with
    | none => pure secretNotFound.sent
    | some secret =>
        if exportFormat P format ≠ js "env" ∧ exportFormat P format ≠ js "json" then
          pure (Response.error 400 (js "Invalid format: env or json expected")).sent
        else if exportFormat P format = js "json" then
          pure ⟨200, .text (js "application/json") (secretDataToJsonContent secret.data)⟩
        else
          match secretDataToEnvContent secret.data with
          | .error message => pure (Response.error 400 message).sent
          | .ok content => pure ⟨200, .text (js "text/plain; charset=utf-8") content⟩

/-- `POST /:id/secrets` -/
def createSecretRoute (id : JsString) (body : SecretBody) : RouteOp RouteResponse :=
  operationRoute id (createSecret P id body)

/-- `PUT /:id/secrets/:secretId` -/
def updateSecretRoute (id secretId : JsString) (body : SecretBody) : RouteOp RouteResponse :=
  operationRoute id (updateSecret P id secretId body)

/-- `PUT /:id/secrets/:secretId/keys` -/
def updateSecretKeyRoute (id secretId : JsString) (body : SecretBody) : RouteOp RouteResponse :=
  operationRoute id (updateSecretKey P id secretId body)

/-- `DELETE /:id/secrets/:secretId` -/
def deleteSecretRoute (id secretId : JsString) : RouteOp RouteResponse := operationRoute id (deleteSecret P id secretId)

/-! ## The routes of a project -/

/-- The routes with the id of a project. -/
inductive Route where
  | getProject
  | deleteProject
  | pull (snapshotId contentHash : Option JsValue)
  | push
  | status
  | snapshots (query : SnapshotPageQuery)
  | restore (snapshotId : JsString) (contentHash : Option JsValue)
  | discard (contentHash : Option JsValue)
  | previewPull
  | previewDiscard
  | previewRestore (snapshotId : JsString)
  | listSecrets
  | exportSecret (name : JsString) (format : Option JsString)
  | createSecret (body : SecretBody)
  | updateSecret (secretId : JsString) (body : SecretBody)
  | updateSecretKey (secretId : JsString) (body : SecretBody)
  | deleteSecret (secretId : JsString)

/-- The handler of the route for the project. -/
def Route.handle (id : JsString) : Route → RouteOp RouteResponse
  | .getProject => SecretsManager.getProject P id
  | .deleteProject => deleteProjectRoute id
  | .pull snapshotId contentHash => pullRoute P timeouts id snapshotId contentHash
  | .push => pushRoute P timeouts id
  | .status => statusRoute id
  | .snapshots query => snapshotsRoute P timeouts id query
  | .restore snapshotId contentHash => restoreRoute P timeouts id snapshotId contentHash
  | .discard contentHash => discardRoute P timeouts id contentHash
  | .previewPull => previewPullRoute P timeouts id
  | .previewDiscard => previewDiscardRoute P timeouts id
  | .previewRestore snapshotId => previewRestoreRoute P timeouts id snapshotId
  | .listSecrets => SecretsManager.listSecrets id
  | .exportSecret name format => exportSecretByName P id name format
  | .createSecret body => createSecretRoute P id body
  | .updateSecret secretId body => updateSecretRoute P id secretId body
  | .updateSecretKey secretId body => updateSecretKeyRoute P id secretId body
  | .deleteSecret secretId => deleteSecretRoute P id secretId

end Platform

end SecretsManager
