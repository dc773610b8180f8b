import SecretsManager.Server
import SecretsManager.Secrets.SecretsDiff

/-!
# The secret routes

Creation, full update, update of a single key and deletion of a secret, after the access check. Each
reads the list of secrets inside the write section of the project, applies its change to the list and
stores the change together with the hash of the changed list.
-/

namespace SecretsManager

open Js Interleaving

/-! ## Responses -/

/-- A preview: the diff, and what its confirmation has to echo. -/
structure SyncPreviewResult extends SecretsDiffResult where
  snapshotId : JsString
  snapshotTime : JsString
  contentHash : JsString
  deriving DecidableEq

/-- What a pull or a restore reports. -/
structure RestoreSnapshotResult where
  snapshotId : JsString
  snapshotTime : JsString
  secrets : Nat
  keys : Nat
  deriving DecidableEq

structure PushResult where
  snapshotId : JsString
  snapshotTime : JsString
  deriving DecidableEq

inductive ResponseBody where
  | empty
  | error (message : JsString) (code : Option JsString)
  | secret (secret : Secret)
  | project (project : Project)
  | preview (preview : SyncPreviewResult)
  | restored (result : RestoreSnapshotResult)
  | pushed (result : PushResult)
  deriving DecidableEq

structure Response where
  status : Nat
  body : ResponseBody
  deriving DecidableEq

def Response.error (status : Nat) (message : JsString) : Response := ⟨status, .error message none⟩

/-! ## Request bodies -/

/-- The body of a secret request; a missing field is `none`. -/
structure SecretBody where
  name : Option JsValue
  data : Option Json
  version : Option JsValue
  key : Option JsValue
  value : Option JsValue

/-- `v || ""` -/
def orEmpty (v : Option JsValue) : JsValue :=
  match v with
  | none | some .null | some (.bool false) => .str []
  | some (.num n) => if n.text = js "0" ∨ n.text = js "NaN" then .str [] else .num n
  | some v => v

def stringOf : JsValue → JsString
  | .str s => s
  | _ => []

/-- `Secret.normalizeData(body.data)`, for data that was validated. -/
def normalizedData : Option Json → SecretData
  | some (.object props) => Secret.normalizeData props
  | _ => .empty

def parseVersion (value : Option JsValue) : Option Nat :=
  match value with
  | some (.num ⟨_, some n⟩) => if 1 ≤ n then some n.toNat else none
  | _ => none

/-! ## Outcomes -/

inductive SecretOutcome where
  | projectNotFound
  | secretNotFound
  | invalid (errors : List JsString)
  | conflict
  | versionConflict
  | created (secret : Secret)
  | updated (secret : Secret)
  | deleted

def secretNameConflict : Response :=
  ⟨409, .error (js "A secret with this name already exists") (some (js "SECRET_NAME_CONFLICT"))⟩

def secretVersionConflict : Response :=
  ⟨409, .error (js "Secret was modified by another user: reload and re-apply your changes")
    (some (js "SECRET_VERSION_CONFLICT"))⟩

def invalidSecret (errors : List JsString) : Response := .error 400 ((js " ").intercalate errors)

def versionRequired : Response :=
  .error 400 (js "Invalid secret: version is required (read the secret again)")

def SecretOutcome.response : SecretOutcome → Response
  | projectNotFound => .error 404 (js "Project Not Found")
  | secretNotFound => .error 404 (js "Secret Not Found")
  | invalid errors => invalidSecret errors
  | conflict => secretNameConflict
  | versionConflict => secretVersionConflict
  | created secret => ⟨201, .secret secret⟩
  | updated secret => ⟨200, .secret secret⟩
  | deleted => ⟨200, .empty⟩

/-- A violated unique constraint is a name conflict; any other error goes on. -/
def onUniqueViolation (e : Failure) : Op Response :=
  match e with
  | .uniqueViolation => pure secretNameConflict
  | e => Op.throw e

section Platform
variable (P : Platform)

/-- The hash of the rows of a project. -/
abbrev rowsHash (rows : List Secret) : JsString := computeSecretsHash P (contents rows)

/-! ## The routes -/

def createSecretSection (projectId name : JsString) (data : Option Json) : Op SecretOutcome := do
  match ← projectsDataGet projectId with
  | none => pure .projectNotFound
  | some _ =>
      let secrets ← secretsDataListForProject projectId
      if secrets.any fun secret => secret.name = name then pure .conflict
      else
        let secret ← newSecret projectId ⟨name, normalizedData data⟩
        let _ ← Op.transact (.secretsDataAdd secret (rowsHash P (secrets ++ [secret])))
        pure (.created secret)

/-- `POST /:id/secrets` -/
def createSecret (projectId : JsString) (body : SecretBody) : Op Response := do
  let name := orEmpty body.name
  let errors := Secret.validate name body.data
  if 0 < errors.length then pure (invalidSecret errors)
  else
    Prog.tryCatch
      (do
        let outcome ← projectWriteLocksRun projectId (createSecretSection P projectId (stringOf name) body.data)
        pure outcome.response)
      onUniqueViolation

/-- The list after one of its secrets was changed in place. -/
def changeSecret (secrets : List Secret) (secret : Secret) : List Secret :=
  secrets.map fun s => if s.id = secret.id then secret else s

/-- The answer to the status of an update. -/
def SecretsUpdateStatus.outcome : SecretsUpdateStatus → SecretOutcome
  | updated secret => .updated secret
  | notFound => .secretNotFound
  | versionConflict => .versionConflict

def updateSecretSection (projectId secretId : JsString) (version : Nat) (body : SecretBody) :
    Op SecretOutcome := do
  match ← projectsDataGet projectId with
  | none => pure .projectNotFound
  | some _ =>
      let secrets ← secretsDataListForProject projectId
      match secrets.find? fun candidate => candidate.id = secretId with
      | none => pure .secretNotFound
      | some secret =>
          let newName := if body.name.isSome then orEmpty body.name else .str secret.name
          let errors := Secret.validate newName (if body.data.isSome then body.data else some secret.data.toJson)
          if 0 < errors.length then pure (.invalid errors)
          else if stringOf newName ≠ secret.name ∧
              secrets.any fun candidate => candidate.id ≠ secret.id ∧ candidate.name = stringOf newName then
            pure .conflict
          else
            let data := if body.data.isSome then normalizedData body.data else secret.data
            let changed := { secret with name := stringOf newName, data := data }
            let status ← secretsDataUpdate changed version (rowsHash P (changeSecret secrets changed))
            pure status.outcome

/-- `PUT /:id/secrets/:secretId` -/
def updateSecret (projectId secretId : JsString) (body : SecretBody) : Op Response := do
  match parseVersion body.version with
  | none => pure versionRequired
  | some version =>
      if body.name.isNone ∧ body.data.isNone then
        pure (.error 400 (js "Invalid secret: name or data is required"))
      else
        Prog.tryCatch
          (do
            let outcome ← projectWriteLocksRun projectId (updateSecretSection P projectId secretId version body)
            pure outcome.response)
          onUniqueViolation

/-- The attempts of a partial update that are left. -/
def updateKeyAttempts (projectId secretId key value : JsString) : Nat → Op SecretOutcome
  | 0 => pure .versionConflict
  | attempts + 1 => do
      let secrets ← secretsDataListForProject projectId
      match secrets.find? fun candidate => candidate.id = secretId with
      | none => pure .secretNotFound
      | some secret =>
          let changed := { secret with data := secret.data.define key value }
          match ← secretsDataUpdate changed secret.version (rowsHash P (changeSecret secrets changed)) with
          | .updated secret => pure (.updated secret)
          | .notFound => pure .secretNotFound
          | .versionConflict => updateKeyAttempts projectId secretId key value attempts

def partialUpdateAttempts : Nat := 3

def updateSecretKeySection (projectId secretId key value : JsString) : Op SecretOutcome := do
  match ← projectsDataGet projectId with
  | none => pure .projectNotFound
  | some _ => updateKeyAttempts P projectId secretId key value partialUpdateAttempts

/-- `typeof body.key === "string" ? body.key.trim() : ""` -/
def requestedKey (body : SecretBody) : JsString :=
  match body.key with
  | some (.str key) => trim key
  | _ => []

/-- `PUT /:id/secrets/:secretId/keys` -/
def updateSecretKey (projectId secretId : JsString) (body : SecretBody) : Op Response := do
  let key := requestedKey body
  if key.length = 0 then pure (.error 400 (js "Invalid secret: key is required"))
  else
    match body.value.filter JsValue.isScalar with
    | none =>
        pure (.error 400 (js "Invalid secret: value for key '" ++ key ++ js "' must be a scalar"))
    | some value =>
        if (parseVersion body.version).isNone then pure versionRequired
        else
          Prog.tryCatch
            (do
              let outcome ← projectWriteLocksRun projectId
                (updateSecretKeySection P projectId secretId key value.toJsString)
              pure outcome.response)
            onUniqueViolation

def deleteSecretSection (projectId secretId : JsString) : Op SecretOutcome := do
  match ← projectsDataGet projectId with
  | none => pure .projectNotFound
  | some _ =>
      let secrets ← secretsDataListForProject projectId
      match secrets.find? fun candidate => candidate.id = secretId with
      | none => pure .secretNotFound
      | some secret =>
          let remaining := secrets.filter fun candidate => candidate.id ≠ secret.id
          let _ ← Op.transact (.secretsDataDelete secret.id projectId (rowsHash P remaining))
          pure .deleted

/-- `DELETE /:id/secrets/:secretId` -/
def deleteSecret (projectId secretId : JsString) : Op Response := do
  let outcome ← projectWriteLocksRun projectId (deleteSecretSection P projectId secretId)
  pure outcome.response

end Platform

end SecretsManager
