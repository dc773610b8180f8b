import SecretsManager.Restic.CompareAndSwap
import SecretsManager.Restic.PushHistory
import SecretsManager.IdColumns
import SecretsManager.Spelling
import SecretsManager.Secrets.LocalChanges
import SecretsManager.Secrets.SecretVersions
import SecretsManager.Secrets.SecretsDiff
import SecretsManager.Web.ConfirmedPreview
import SecretsManager.Web.SecretImport
import SecretsManager.Restic.FailedSync
import SecretsManager.Projects.RepositoryTargets
import SecretsManager.Restic.SharedRepository
import SecretsManager.IssuedTransactions
import SecretsManager.Secrets.StoreConsistency
import SecretsManager.Secrets.SavedBack
import SecretsManager.Library.Machine
import SecretsManager.Restic.SyncStatusCache
import SecretsManager.Restic.StatusInvalidation
import SecretsManager.Restic.StatusDisconnects
import SecretsManager.Restic.StatusFreshness
import SecretsManager.Library.Sequential
import SecretsManager.Users.ProjectAccess
import SecretsManager.Restic.SnapshotHistory
import SecretsManager.Routes
import SecretsManager.Users.ProjectIsolation
import SecretsManager.Web.SecretEditor
import SecretsManager.Web.UnseenChanges
import SecretsManager.Library.RowNumber
import SecretsManager.Migrations
import SecretsManager.Library.Semaphore
import SecretsManager.Restic.StatusSlots
import SecretsManager.Js.Promise
import SecretsManager.Library.TailChain
import SecretsManager.Restic.SyncLocks
import SecretsManager.Restic.LockStages
import SecretsManager.Restic.LockChains
import SecretsManager.Restic.SnapshotOrder
import SecretsManager.Library.CursorPages
import SecretsManager.Web.SnapshotHistoryModal
import SecretsManager.Secrets.KeyMerge
import SecretsManager.Restic.SnapshotTrees
import SecretsManager.Secrets.DiffNoninterference
import SecretsManager.Secrets.HashBackfill
import SecretsManager.Web.SecretForm
import SecretsManager.Restic.TempWorkDir
import SecretsManager.Projects.ProjectScopes
import SecretsManager.Restic.ResticRunner
import SecretsManager.Web.Clipboard
import SecretsManager.Restic.ResticSupervision
import SecretsManager.Library.Components
import SecretsManager.Restic.OwnSnapshots
import SecretsManager.Restic.FleetAgreement
import SecretsManager.Library.Linearization
import SecretsManager.Vault
import SecretsManager.VaultSteps
import SecretsManager.VaultAnswers
import SecretsManager.Linearizability
import SecretsManager.Accountability
import SecretsManager.Library.LockFreedom
import SecretsManager.LockDiscipline
import SecretsManager.DeadlockFreedom
import SecretsManager.Library.Crashes
import SecretsManager.KilledReplicas
import SecretsManager.Web.DraftHandover
import SecretsManager.Js.JsonParse
import SecretsManager.Web.JsonCopies
import SecretsManager.Restic.ResticInvocation
import SecretsManager.Restic.SnapshotAttribution
import SecretsManager.Restic.RestoredPushes
import SecretsManager.Restic.SyncNotifications
