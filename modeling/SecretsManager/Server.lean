import SecretsManager.Database
import SecretsManager.Library.Interleaving

/-!
# The server as a system of interleaved operations

Each request is served by a program whose commands are the queries and transactions of the data layer,
the locks, the runs of restic, the file system and the two sources of fresh values. Replicas are not
told apart: the programs of all of them run against one database, one set of advisory locks and one
repository for each project, whose settings never change. Ids are compared as they are stored; requests that
spell one in another way are those of `Spelling`.

A temporary working directory is private to its operation, so its content is a value of the operation
and not a part of the world.
-/

namespace SecretsManager

open Js Interleaving

/-! ## Commands -/

/-- A run of restic: `repositoryCheck` and `snapshots` run it with the same arguments. -/
inductive ResticOp where
  | repositoryCheck
  | init
  | snapshots
  | snapshot (id : JsString)
  | backup (dir : Dir) (pushedBy : Option JsString)
  | restore (snapshotId : JsString)

/-- The result of the process, and the listing of the target directory after a restore. -/
structure ResticAnswer where
  result : ResticCommandResult
  restored : List (JsString × FsNode)
  deriving DecidableEq

inductive FsOp where
  | createTemporaryWorkDir
  | ensurePrivateDir
  | writePrivateJson (name : JsString)
  | restrictTreePermissions
  | readDirectory
  | remove

inductive Cmd where
  | projectsGet (id : JsString)
  | projectsGetByName (name : JsString)
  | projectsList
  | secretsList (projectId : JsString)
  | secretsGet (id : JsString)
  | transact (tx : Transaction)
  | acquire (lock : JsString)
  | release (lock : JsString)
  | uuid
  | now
  | restic (projectId : JsString) (op : ResticOp)
  | fs (op : FsOp)

/-- A query, a transaction, a lock or a file operation can fail; a process has a result in any case. -/
abbrev Cmd.Answer : Cmd → Type
  | projectsGet _ | projectsGetByName _ => Except Failure (Option Project)
  | projectsList => Except Failure (List Project)
  | secretsList _ => Except Failure (List Secret)
  | secretsGet _ => Except Failure (Option Secret)
  | transact _ => Except Failure Nat
  | acquire _ | fs _ => Except Failure Unit
  | release _ => Unit
  | uuid | now => JsString
  | restic _ _ => ResticAnswer

/-- An operation of the server. -/
abbrev Op : Type → Type := Prog Cmd Cmd.Answer Failure

namespace Op

def throw {α : Type} (e : Failure) : Op α := .fail e

/-- Throws a `ResticSyncError`. -/
def throwSync {α : Type} (message : JsString) (statusCode : Nat) (code : Option JsString) : Op α :=
  .fail (.sync ⟨message, statusCode, code⟩)

def uuid : Op JsString := .lift Cmd.uuid

/-- `new Date().toISOString()` -/
def now : Op JsString := .lift Cmd.now

def transact (tx : Transaction) : Op Nat := Prog.lift (Cmd.transact tx) >>= .ofExcept

def fs (op : FsOp) : Op Unit := Prog.lift (Cmd.fs op) >>= .ofExcept

/-- `await fse.remove(workDir)` -/
def removeWorkDir : Op Unit := fs .remove

end Op

/-! ## The data layer -/

def projectsDataGet (id : JsString) : Op (Option Project) :=
  Prog.lift (Cmd.projectsGet id) >>= .ofExcept

/-- The parameter is sent as UTF-8. -/
def projectsDataGetByName (name : JsString) : Op (Option Project) :=
  Prog.lift (Cmd.projectsGetByName (toWellFormed name)) >>= .ofExcept

def projectsDataList : Op (List Project) := Prog.lift Cmd.projectsList >>= .ofExcept

def projectsDataGetByRepoTarget (P : Platform) (targetKey : JsString) : Op (Option Project) := do
  let projects ← projectsDataList
  pure (projects.find? fun project => project.repoTargetKey P = targetKey)

/-- The row that a creation inserts: the effective prefix, and every text as UTF-8 keeps it. What an id column makes
of the id is left to the database. -/
def Project.created (P : Platform) (project : Project) : Project :=
  { project with
    name := toWellFormed project.name
    description := toWellFormed project.description
    s3Endpoint := toWellFormed project.s3Endpoint
    s3Bucket := toWellFormed project.s3Bucket
    repoPrefix := toWellFormed (project.effectiveRepoPrefix P)
    s3Region := toWellFormed project.s3Region
    s3BucketLookup := toWellFormed project.s3BucketLookup
    s3AccessKeyId := toWellFormed project.s3AccessKeyId
    s3SecretAccessKey := toWellFormed project.s3SecretAccessKey
    resticPassword := toWellFormed project.resticPassword
    dateCreated := toWellFormed project.dateCreated }

def projectsDataAdd (P : Platform) (project : Project) : Op Unit := do
  let _ ← Op.transact (.projectsDataAdd (project.created P))

def secretsDataListForProject (projectId : JsString) : Op (List Secret) :=
  Prog.lift (Cmd.secretsList projectId) >>= .ofExcept

def secretsDataGet (id : JsString) : Op (Option Secret) := Prog.lift (Cmd.secretsGet id) >>= .ofExcept

inductive SecretsUpdateStatus where
  | updated (secret : Secret)
  | notFound
  | versionConflict

/-- The affected-row count tells success from failure, and a second query tells the two failures
apart. -/
def secretsDataUpdate (secret : Secret) (expectedVersion : Nat) (currentContentHash : JsString) :
    Op SecretsUpdateStatus := do
  let dateUpdated ← Op.now
  let affected ← Op.transact (.secretsDataUpdate secret.id secret.projectId secret.toSecretContent dateUpdated
    expectedVersion currentContentHash)
  if affected = 1 then
    pure (.updated { secret with dateUpdated := dateUpdated, version := expectedVersion + 1 })
  else
    match ← secretsDataGet secret.id with
    | none => pure .notFound
    | some current =>
        if current.projectId ≠ secret.projectId then pure .notFound else pure .versionConflict

/-- `new Secret()` with its name, data and project. -/
def newSecret (projectId : JsString) (content : SecretContent) : Op Secret := do
  let id ← Op.uuid
  let now ← Op.now
  pure
    { toSecretContent := content, id := id, projectId := projectId, dateCreated := now, dateUpdated := now,
      version := 1 }

/-! ## Locks -/

/-- `DbUtilsWithLock`, which the server imports. Assumed of it, as of an advisory lock of PostgreSQL: the task runs
while no other operation holds a lock of this name, an error to take the lock is thrown, and the lock is released
with any result. With SQLite it runs the task directly, and the lock of a write section is the chain around it. -/
def dbUtilsWithLock {α : Type} (name : JsString) (task : Op α) : Op α := do
  let held ← Prog.lift (Cmd.acquire name)
  Prog.ofExcept held
  task.tryFinally (Prog.lift (Cmd.release name))

def projectWriteLockName (projectId : JsString) : JsString :=
  js "restic-secrets-manager:project-write:" ++ projectId

/-- The in-process chain orders the sections of one replica, the advisory lock those of all. -/
def projectWriteLocksRun {α : Type} (projectId : JsString) (task : Op α) : Op α :=
  dbUtilsWithLock (projectWriteLockName projectId) task

/-- The queue orders the synchronizations of one replica and nothing across replicas, which are not told apart
here: what holds of every interleaving without it holds of those that it leaves. Its chains are in
`LockChains`. -/
def syncQueueRun {α : Type} (_projectId : JsString) (task : Op α) : Op α := task

/-! ## The world -/

/-- The repositories in a state `R`: what a run of restic for a project answers and changes, what other
writers of a repository can change, and the files of a snapshot. -/
structure Restic (R : Type) where
  run : R → JsString → ResticOp → ResticAnswer → R → Prop
  outside : R → R → Prop
  snapshot? : R → JsString → JsString → Option Dir

/-- `issued` are the generated ids with the operations that got them, `stored` the ids of the secrets
that were ever inserted. -/
structure World (R : Type) where
  db : Db
  locks : List (JsString × Nat)
  issued : List (JsString × Nat)
  stored : List JsString
  repository : R

/-- What a command of the operation `t` answers and changes. A lock is granted when no operation holds it, its
release does not fail, and a generated id is new. Two things are taken for granted: a query or transaction that
fails has changed nothing, so no acknowledgement of a `COMMIT` is lost, and the removal of a temporary directory
succeeds, also when there is nothing to remove. `StatementExec` does without them, and `Smooth` states them. -/
def Exec {R : Type} (restic : Restic R) (t : Nat) (w : World R) : (c : Cmd) → c.Answer → World R → Prop
  | .projectsGet id, a, w' => w' = w ∧ (a = .ok (w.db.project? id) ∨ ∃ m, a = .error (.other m))
  | .projectsGetByName name, a, w' =>
      w' = w ∧ (a = .ok (w.db.projects.find? fun p => p.name = name) ∨ ∃ m, a = .error (.other m))
  | .projectsList, a, w' =>
      w' = w ∧ ((∃ l, a = .ok l ∧ l.Perm w.db.projects) ∨ ∃ m, a = .error (.other m))
  | .secretsList projectId, a, w' =>
      w' = w ∧ ((∃ l, a = .ok l ∧ l.Perm (w.db.rows projectId)) ∨ ∃ m, a = .error (.other m))
  | .secretsGet id, a, w' => w' = w ∧ (a = .ok (w.db.secret? id) ∨ ∃ m, a = .error (.other m))
  | .transact tx, a, w' =>
      (∃ m, a = .error (.other m) ∧ w' = w) ∨
        (∃ e, tx.commit w.db = .error e ∧ a = .error e ∧ w' = w) ∨
          ∃ db n, tx.commit w.db = .ok (db, n) ∧ a = .ok n ∧
            w' = { w with db := db, stored := tx.insertedIds ++ w.stored }
  | .acquire lock, a, w' =>
      (∃ m, a = .error (.other m) ∧ w' = w) ∨
        a = .ok () ∧ (∀ t', (lock, t') ∉ w.locks) ∧ w' = { w with locks := (lock, t) :: w.locks }
  | .release lock, _, w' => w' = { w with locks := w.locks.filter fun l => l ≠ (lock, t) }
  | .uuid, id, w' => (∀ t', (id, t') ∉ w.issued) ∧ w' = { w with issued := (id, t) :: w.issued }
  | .now, _, w' => w' = w
  | .restic projectId op, a, w' =>
      ∃ r, restic.run w.repository projectId op a r ∧ w' = { w with repository := r }
  | .fs op, a, w' => w' = w ∧ (a = .ok () ∨ op ≠ .remove ∧ ∃ m, a = .error (.other m))

/-- Other writers change the repositories only. -/
def Outside {R : Type} (restic : Restic R) (w w' : World R) : Prop :=
  ∃ r, restic.outside w.repository r ∧ w' = { w with repository := r }

end SecretsManager
