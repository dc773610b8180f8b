import SecretsManager.Restic.SyncService

/-!
# Previews

A preview resolves the snapshot as its confirmation would, restores it into a temporary directory and
compares its content with the secrets now. It writes nothing to the database, and it holds no lock.
-/

namespace SecretsManager

open Js Interleaving

section Platform
variable (P : Platform) (timeouts : ResticTimeouts)

/-- The secrets are read after the snapshot, and the content hash is that of the diffed secrets. -/
def previewRestored (client : ResticClient) (target : ResticSnapshot) : Op SyncPreviewResult := do
  let listing ← client.restore target.id
  Op.fs .restrictTreePermissions
  Op.fs .readDirectory
  match readSnapshotSecrets P listing with
  | .error e => Op.throw (.sync e)
  | .ok incoming =>
      let current ← secretsDataListForProject client.project.id
      pure
        { computeSecretsDiff (contents current) incoming with
          snapshotId := target.id
          snapshotTime := target.time
          contentHash := rowsHash P current }

def previewSnapshotContent (client : ResticClient) (target : ResticSnapshot) : Op SyncPreviewResult :=
  withWorkDir (previewRestored P client target)

def resticSyncPreviewPullUnlocked (project : Project) : Op SyncPreviewResult := do
  let project ← rereadProject project
  let client : ResticClient := ⟨project, timeouts⟩
  let snapshots ← client.snapshots P
  match latestSnapshot P snapshots with
  | none => Op.throwSync (js "Repository is empty: no snapshot to pull") 404 none
  | some latest => previewSnapshotContent P client latest

def resticSyncPreviewPull (project : Project) : Op SyncPreviewResult :=
  syncQueueRun project.id (resticSyncPreviewPullUnlocked P timeouts project)

/-- The preview of the snapshot with the id. -/
def previewSnapshot (client : ResticClient) (snapshotId : JsString) : Op SyncPreviewResult := do
  let snapshots ← client.snapshots P
  match snapshots.find? fun snapshot => snapshot.id = snapshotId with
  | none => snapshotNotFound snapshotId
  | some target => previewSnapshotContent P client target

def resticSyncPreviewRestoreSnapshotUnlocked (project : Project) (snapshotId : JsString) :
    Op SyncPreviewResult := do
  let project ← rereadProject project
  previewSnapshot P ⟨project, timeouts⟩ snapshotId

def resticSyncPreviewRestoreSnapshot (project : Project) (snapshotId : JsString) : Op SyncPreviewResult :=
  syncQueueRun project.id (resticSyncPreviewRestoreSnapshotUnlocked P timeouts project snapshotId)

def resticSyncPreviewDiscardLocalChangesUnlocked (project : Project) : Op SyncPreviewResult := do
  let project ← rereadProject project
  if project.lastSyncSnapshotId = [] then neverSynchronized
  else previewSnapshot P ⟨project, timeouts⟩ project.lastSyncSnapshotId

def resticSyncPreviewDiscardLocalChanges (project : Project) : Op SyncPreviewResult :=
  syncQueueRun project.id (resticSyncPreviewDiscardLocalChangesUnlocked P timeouts project)

end Platform

end SecretsManager
