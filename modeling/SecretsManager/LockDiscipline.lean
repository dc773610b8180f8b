import Mathlib.Algebra.Group.Pi.Basic
import Mathlib.Order.Basic
import SecretsManager.Restic.FailedSync

/-!
# What an operation may use

Advisory locks are held only around database work: an operation that holds one queries, transacts and takes fresh
values until it releases it, and never waits for another lock, runs restic or touches a file meanwhile. The runs of
restic of an operation are bounded: a push makes one backup, a pull, a restore, a discard or a preview one listing
and one restore, and all other requests run no restic.
-/

namespace SecretsManager

open Js Interleaving

/-! ## Runs of restic -/

inductive ResticKind where
  | read
  | init
  | backup
  | restore
  deriving DecidableEq

def ResticOp.kind : ResticOp → ResticKind
  | .repositoryCheck | .snapshots | .snapshot _ => .read
  | .init => .init
  | .backup _ _ => .backup
  | .restore _ => .restore

/-- A push checks the repository, lists it before the backup, looks three times for the snapshot that it created and
lists the repository once more. -/
def pushRuns : ResticKind → Nat
  | .read => 6
  | .init | .backup => 1
  | .restore => 0

/-- A confirmation and a preview resolve the snapshot and restore it. -/
def restoreRuns : ResticKind → Nat
  | .read | .restore => 1
  | .init | .backup => 0

/-- The runs of each kind that an operation can need. -/
def Operation.budget : Operation → ResticKind → Nat
  | .push _ _ => pushRuns
  | .pull _ _ _ | .restore _ _ _ | .discard _ _ | .previewPull _ | .previewRestore _ _ | .previewDiscard _ => restoreRuns
  | _ => 0

/-! ## The monitor -/

/-- Queries, transactions and fresh values. -/
def Cmd.Database : Cmd → Prop
  | .acquire _ | .release _ | .restic _ _ | .fs _ => False
  | _ => True

/-- The lock that an operation holds, and its runs of restic. -/
structure Usage where
  held : Option JsString
  runs : ResticKind → Nat

namespace Usage

def start : Usage := ⟨none, 0⟩

def step (u : Usage) : (c : Cmd) → c.Answer → Usage
  | .acquire lock, .ok () => { u with held := some lock }
  | .release _, _ => { u with held := none }
  | .restic _ op, _ => { u with runs := u.runs + Pi.single op.kind 1 }
  | _, _ => u

/-- A lock is released by the operation that holds it, everything but database work is done without a lock, and a
run of restic stays in the budget. -/
def Allows (limit : ResticKind → Nat) (u : Usage) : Cmd → Prop
  | .acquire _ | .fs _ => u.held = none
  | .release lock => u.held = some lock
  | .restic _ op => u.held = none ∧ u.runs op.kind < limit op.kind
  | _ => True

end Usage

def usage (limit : ResticKind → Nat) : Monitor Cmd Cmd.Answer Usage where
  step := Usage.step
  allows := Usage.Allows limit
  expects _ _ _ := True

section Costs
variable {α β : Type} {limit m n : ResticKind → Nat} {task : Op α} {f : α → Op β} {P : Platform}
  {timeouts : ResticTimeouts} {client : ResticClient}

/-- The task starts and ends without a lock, and needs at most these runs. -/
def Costs (limit n : ResticKind → Nat) (task : Op α) : Prop :=
  ∀ runs, runs + n ≤ limit → task.Meets (usage limit) ⟨none, runs⟩ fun _ u => u.held = none ∧ u.runs ≤ runs + n

theorem database_usage {c : Cmd} (hc : c.Database) {u : Usage} :
    (usage limit).allows u c ∧ ∀ a, (usage limit).step u c a = u := by
  cases c with
  | acquire _ | release _ | restic _ _ | fs _ => exact hc.elim
  | _ => exact ⟨trivial, fun _ => rfl⟩

theorem costs_database (h : task.Only Cmd.Database) : Costs limit 0 task := by
  refine fun runs _ => h.meets (fun _ hc => database_usage hc) fun _ => ⟨rfl, ?_⟩
  rw [add_zero]

theorem Costs.mono (h : Costs limit m task) (hle : m ≤ n) : Costs limit n task := fun runs hroom =>
  have hsum : runs + m ≤ runs + n := fun kind => Nat.add_le_add_left (hle kind) _
  (h runs (hsum.trans hroom)).mono fun _ _ hu => ⟨hu.1, hu.2.trans hsum⟩

theorem costs_pure {a : α} : Costs limit n (pure a : Op α) := fun _ _ => ⟨rfl, fun _ => Nat.le_add_right _ _⟩

theorem costs_fail {e : Failure} : Costs limit n (.fail e : Op α) := fun _ _ => ⟨rfl, fun _ => Nat.le_add_right _ _⟩

theorem Costs.bind (h : Costs limit m task) (hf : ∀ a, Costs limit n (f a)) : Costs limit (m + n) (task >>= f) := by
  intro runs hroom
  rw [← add_assoc] at hroom ⊢
  have hroom' : runs + m ≤ limit := le_trans (fun _ => Nat.le_add_right _ _) hroom
  rw [meets_bind]
  refine (h runs hroom').mono fun r u hu => ?_
  obtain ⟨held, runs'⟩ := u
  obtain ⟨rfl, hruns⟩ : held = none ∧ runs' ≤ runs + m := hu
  have hle : runs' + n ≤ runs + m + n := fun kind => Nat.add_le_add_right (hruns kind) _
  cases r with
  | error e => exact ⟨rfl, hruns.trans fun _ => Nat.le_add_right _ _⟩
  | ok a => exact (hf a runs' (hle.trans hroom)).mono fun _ _ hu => ⟨hu.1, hu.2.trans hle⟩

/-- Database work before the task. -/
theorem Costs.after (h : task.Only Cmd.Database) (hf : ∀ a, Costs limit n (f a)) : Costs limit n (task >>= f) := by
  have hbind : Costs limit (0 + n) (task >>= f) := (costs_database h).bind hf
  rwa [zero_add] at hbind

/-- Database work after it. -/
theorem Costs.andThen (h : Costs limit n task) (hf : ∀ a, (f a).Only Cmd.Database) : Costs limit n (task >>= f) := by
  have hbind : Costs limit (n + 0) (task >>= f) := h.bind fun a => costs_database (hf a)
  rwa [add_zero] at hbind

theorem costs_ite {c : Prop} [Decidable c] {yes no : Op α} (hyes : Costs limit n yes) (hno : Costs limit n no) :
    Costs limit n (if c then yes else no) := by
  split
  · exact hyes
  · exact hno

theorem Costs.tryCatch {handler : Failure → Op α} (h : Costs limit n task) (hhandler : ∀ e, (handler e).Only Cmd.Database) :
    Costs limit n (task.tryCatch handler) := by
  intro runs hroom
  rw [meets_tryCatch]
  refine (h runs hroom).mono fun r u hu => ?_
  cases r with
  | ok a => exact hu
  | error e => exact (hhandler e).meets (fun _ hc => database_usage hc) fun _ => hu

theorem costs_fs (op : FsOp) : Costs limit 0 (Op.fs op) := by
  intro runs _
  rw [Op.fs, meets_bind, meets_lift]
  refine ⟨rfl, fun a _ => ?_⟩
  rw [then_ok, meets_ofExcept, add_zero]
  exact ⟨rfl, le_rfl⟩

/-- The working directory is removed without a lock as well. -/
theorem Costs.withWorkDir (h : Costs limit n task) : Costs limit n (withWorkDir task) := by
  have hcreated : ∀ created : Unit, Costs limit n
      (Prog.tryFinally (do Op.fs .ensurePrivateDir; task) Op.removeWorkDir) := by
    intro _ runs hroom
    have hdir : Costs limit (0 + n) (Op.fs .ensurePrivateDir >>= fun _ => task) := (costs_fs _).bind fun _ => h
    rw [zero_add] at hdir
    rw [meets_tryFinally]
    refine (hdir runs hroom).mono fun r u hu => ?_
    refine meets_bind.mpr (meets_lift.mpr ⟨hu.1, fun removed _ => ?_⟩)
    rw [then_ok, meets_ofExcept]
    cases removed with
    | error e => exact hu
    | ok =>
        rw [then_ok, meets_ofExcept]
        exact hu
  have hall := (costs_fs .createTemporaryWorkDir).bind hcreated
  rwa [zero_add] at hall

/-- The work under a lock is database work. -/
theorem costs_withLock {name : JsString} (h : task.Only Cmd.Database) : Costs limit 0 (dbUtilsWithLock name task) := by
  intro runs _
  have hruns : runs ≤ runs + 0 := by rw [add_zero]
  rw [dbUtilsWithLock, meets_bind, meets_lift]
  refine ⟨rfl, fun a _ => ?_⟩
  rw [then_ok, meets_bind, meets_ofExcept]
  cases a with
  | error e => exact ⟨rfl, hruns⟩
  | ok =>
      rw [then_ok, meets_tryFinally]
      refine h.meets (fun _ hc => database_usage hc) fun r => ?_
      refine meets_lift.mpr ⟨rfl, fun _ _ => ?_⟩
      rw [then_ok, meets_ofExcept]
      exact ⟨rfl, hruns⟩

theorem costs_run (op : ResticOp) : Costs limit (Pi.single op.kind 1) (client.run op) := by
  intro runs hroom
  refine meets_lift.mpr ⟨⟨rfl, ?_⟩, fun a _ => ⟨rfl, le_rfl⟩⟩
  have hkind := hroom op.kind
  rw [Pi.add_apply, Pi.single_eq_same] at hkind
  exact hkind

end Costs

/-! ## Database work -/

section Database
variable {α : Type} {P : Platform} {projectId secretId : JsString} {body : SecretBody}

theorem database_projectsDataGet (id : JsString) : (projectsDataGet id).Only Cmd.Database := only_query trivial

theorem database_secretsList (projectId : JsString) : (secretsDataListForProject projectId).Only Cmd.Database :=
  only_query trivial

theorem database_transact (tx : Transaction) : (Op.transact tx).Only Cmd.Database := only_query trivial

theorem database_newSecret (content : SecretContent) : (newSecret projectId content).Only Cmd.Database :=
  Prog.Only.bind (only_lift.mpr trivial) fun _ => Prog.Only.bind (only_lift.mpr trivial) fun _ => only_pure

theorem database_rereadProject (project : Project) : (rereadProject project).Only Cmd.Database :=
  (database_projectsDataGet _).bind fun _ => only_pure

theorem database_resolveExpectedContentHash (project : Project) (sent : Option JsString) :
    (resolveExpectedContentHash P project sent).Only Cmd.Database := by
  cases sent with
  | some token => exact only_pure
  | none => exact (database_secretsList _).bind fun _ => only_pure

theorem database_secretsOfContents (l : List SecretContent) : (secretsOfContents projectId l).Only Cmd.Database := by
  induction l with
  | nil => exact only_pure
  | cons content l ih => exact (database_newSecret content).bind fun _ => ih.bind fun _ => only_pure

/-! ### The sections -/

theorem database_secretsHashRefreshForProject : (secretsHashRefreshForProject P projectId).Only Cmd.Database :=
  (database_secretsList _).bind fun _ => (database_transact _).bind fun _ => only_pure

theorem database_backfillProject (project : Project) : (backfillProject P project).Only Cmd.Database := by
  refine only_ite only_pure ((database_secretsList _).bind fun rows => (database_transact _).bind fun _ => ?_)
  exact only_ite ((database_transact _).bind fun _ => only_pure) only_pure

theorem database_secretsHashBackfillAll : (secretsHashBackfillAll P).Only Cmd.Database := by
  have hall : ∀ projects : List Project, (projects.forM (backfillProject P)).Only Cmd.Database := by
    intro projects
    induction projects with
    | nil => exact only_pure
    | cons project projects ih => exact (database_backfillProject project).bind fun _ => ih
  have hlist : projectsDataList.Only Cmd.Database := only_query trivial
  exact hlist.bind hall

theorem database_createProjectSection (body : ProjectBody) (project : Project) :
    (createProjectSection P body project).Only Cmd.Database := by
  have hname : (projectsDataGetByName project.name).Only Cmd.Database := only_query trivial
  have hlist : projectsDataList.Only Cmd.Database := only_query trivial
  have hadd : (projectsDataAdd P project).Only Cmd.Database := (database_transact _).bind fun _ => only_pure
  refine hname.bind fun row => ?_
  cases row with
  | some row => exact only_pure
  | none =>
      refine only_ofExcept.bind fun targetKey => Prog.Only.bind (hlist.bind fun _ => only_pure) fun existing => ?_
      cases existing with
      | some existing => exact only_pure
      | none => exact hadd.bind fun _ => only_pure

theorem database_deleteProjectSection : (deleteProjectSection projectId).Only Cmd.Database := by
  refine (database_projectsDataGet _).bind fun row => ?_
  cases row with
  | none => exact only_pure
  | some fresh => exact (database_transact _).bind fun _ => only_pure

theorem database_createSecretSection {name : JsString} {data : Option Json} :
    (createSecretSection P projectId name data).Only Cmd.Database := by
  refine (database_projectsDataGet _).bind fun row => ?_
  cases row with
  | none => exact only_pure
  | some project =>
      refine (database_secretsList _).bind fun secrets => only_ite only_pure ?_
      exact (database_newSecret _).bind fun secret => (database_transact _).bind fun _ => only_pure

theorem database_secretsDataUpdate {secret : Secret} {version : Nat} {hash : JsString} :
    (secretsDataUpdate secret version hash).Only Cmd.Database := by
  refine Prog.Only.bind (only_lift.mpr trivial) fun date => (database_transact _).bind fun n => only_ite only_pure ?_
  have hget : (secretsDataGet secret.id).Only Cmd.Database := only_query trivial
  refine hget.bind fun current => ?_
  cases current with
  | none => exact only_pure
  | some current => exact only_ite only_pure only_pure

theorem database_updateSecretSection {version : Nat} : (updateSecretSection P projectId secretId version body).Only Cmd.Database := by
  refine (database_projectsDataGet _).bind fun row => ?_
  cases row with
  | none => exact only_pure
  | some project =>
      refine (database_secretsList _).bind fun secrets => ?_
      split
      · exact only_pure
      · exact only_ite only_pure (only_ite only_pure (database_secretsDataUpdate.bind fun _ => only_pure))

theorem database_updateSecretKeySection {key value : JsString} :
    (updateSecretKeySection P projectId secretId key value).Only Cmd.Database := by
  have hattempts : ∀ attempts, (updateKeyAttempts P projectId secretId key value attempts).Only Cmd.Database := by
    intro attempts
    induction attempts with
    | zero => exact only_pure
    | succ attempts ih =>
        refine (database_secretsList _).bind fun secrets => ?_
        split
        · exact only_pure
        · refine database_secretsDataUpdate.bind fun status => ?_
          cases status with
          | updated secret | notFound => exact only_pure
          | versionConflict => exact ih
  refine (database_projectsDataGet _).bind fun row => ?_
  cases row with
  | none => exact only_pure
  | some project => exact hattempts _

theorem database_deleteSecretSection : (deleteSecretSection P projectId secretId).Only Cmd.Database := by
  refine (database_projectsDataGet _).bind fun row => ?_
  cases row with
  | none => exact only_pure
  | some project =>
      refine (database_secretsList _).bind fun secrets => ?_
      split
      · exact only_pure
      · exact (database_transact _).bind fun _ => only_pure

theorem database_applySnapshotSection {expected snapshotId snapshotTime : JsString} {secrets : List Secret} :
    (applySnapshotSection P projectId expected secrets snapshotId snapshotTime).Only Cmd.Database := by
  refine (database_projectsDataGet _).bind fun row => ?_
  cases row with
  | none => exact only_fail
  | some project =>
      refine (database_secretsList _).bind fun current => only_ite only_fail ?_
      exact (database_transact _).bind fun _ => only_pure

theorem database_finalizePushSection {observed pushedHash : JsString} {created : ResticSnapshot} :
    (finalizePushSection P projectId observed pushedHash created).Only Cmd.Database := by
  refine (database_projectsDataGet _).bind fun row => ?_
  cases row with
  | none => exact only_fail
  | some fresh =>
      refine only_ite only_fail ((database_secretsList _).bind fun freshSecrets => ?_)
      exact (database_transact _).bind fun _ => only_pure

end Database

/-! ## The routes -/

section Routes
variable {α : Type} {P : Platform} {timeouts : ResticTimeouts} {limit n : ResticKind → Nat} {projectId secretId : JsString}
  {body : SecretBody} {client : ResticClient}

theorem costs_createProject {body : ProjectBody} : Costs limit 0 (createProject P body) := by
  refine costs_ite costs_pure ?_
  refine .after (only_lift.mpr trivial) fun newId => .after (only_lift.mpr trivial) fun now => ?_
  refine (costs_withLock (database_createProjectSection _ _)).andThen fun outcome => ?_
  cases outcome with
  | nameConflict | targetConflict existingName => exact only_pure
  | created => exact database_secretsHashRefreshForProject.bind fun _ => only_pure

theorem costs_deleteProject {id : JsString} : Costs limit 0 (deleteProject id) := by
  refine .after (database_projectsDataGet _) fun row => ?_
  cases row with
  | none => exact costs_pure
  | some project =>
      exact (costs_withLock database_deleteProjectSection).andThen fun deleted => only_ite only_pure only_pure

theorem costs_secretRoute {lock : JsString} {critical : Op SecretOutcome} (h : critical.Only Cmd.Database) :
    Costs limit 0 (Prog.tryCatch
      (do
        let outcome ← projectWriteLocksRun lock critical
        pure outcome.response)
      onUniqueViolation) := by
  refine ((costs_withLock h).andThen fun _ => only_pure).tryCatch fun e => ?_
  cases e <;> trivial

theorem costs_createSecret : Costs limit 0 (createSecret P projectId body) :=
  costs_ite costs_pure (costs_secretRoute database_createSecretSection)

theorem costs_updateSecret : Costs limit 0 (updateSecret P projectId secretId body) := by
  unfold updateSecret
  split
  · exact costs_pure
  · exact costs_ite costs_pure (costs_secretRoute database_updateSecretSection)

theorem costs_updateSecretKey : Costs limit 0 (updateSecretKey P projectId secretId body) := by
  refine costs_ite costs_pure ?_
  split
  · exact costs_pure
  · exact costs_ite costs_pure (costs_secretRoute database_updateSecretKeySection)

theorem costs_deleteSecret : Costs limit 0 (deleteSecret P projectId secretId) :=
  (costs_withLock database_deleteSecretSection).andThen fun _ => only_pure

theorem costs_syncRoute {id : JsString} {task : Project → Op α} {body : α → ResponseBody}
    (h : ∀ project, Costs limit n (task project)) : Costs limit n (syncRoute id task body) := by
  refine .after (database_projectsDataGet _) fun row => ?_
  cases row with
  | none => exact costs_pure
  | some project => exact ((h project).andThen fun _ => only_pure).tryCatch fun _ => only_pure

/-! ## One listing and one restore -/

theorem restoreRuns_eq : restoreRuns = Pi.single .read 1 + Pi.single .restore 1 := by
  funext kind
  cases kind <;> rfl

theorem costs_snapshots : Costs limit (Pi.single .read 1) (client.snapshots P) :=
  (costs_run .snapshots).andThen fun _ => only_ofExcept

theorem costs_restore {id : JsString} : Costs limit (Pi.single .restore 1) (client.restore id) :=
  (costs_run (.restore id)).andThen fun _ => only_ofExcept.bind fun _ => only_pure

theorem Costs.then_fs {op : FsOp} {β : Type} {task : Op β} (h : Costs limit n task) :
    Costs limit n (Op.fs op >>= fun _ => task) := by
  have hbind : Costs limit (0 + n) (Op.fs op >>= fun _ => task) := (costs_fs op).bind fun _ => h
  rwa [zero_add] at hbind

theorem costs_restoreAndApply {expected : JsString} {snapshot : ResticSnapshot} :
    Costs limit (Pi.single .restore 1) (restoreAndApply P client expected snapshot) := by
  have happly : ∀ listing, Costs limit 0 (do
      Op.fs .restrictTreePermissions
      let secrets ← readSnapshotSecretsForProject P client.project listing
      applySnapshotSecrets P client.project.id expected secrets snapshot
      pure (⟨snapshot.id, snapshot.time, secrets.length, countSecretKeys secrets⟩ : RestoreSnapshotResult)) := by
    intro listing
    have hread : Costs limit 0 (readSnapshotSecretsForProject P client.project listing) := by
      refine Costs.then_fs ?_
      split
      · exact costs_fail
      · exact costs_database (database_secretsOfContents _)
    exact Costs.then_fs (hread.bind fun secrets => (costs_withLock database_applySnapshotSection).andThen fun _ => only_pure)
  exact costs_restore.bind happly

theorem costs_pullSnapshot {expected snapshotId : JsString} :
    Costs limit restoreRuns (pullSnapshot P client expected snapshotId) := by
  rw [restoreRuns_eq]
  refine costs_snapshots.bind fun snapshots => ?_
  split
  · exact costs_fail
  · exact costs_ite costs_fail costs_restoreAndApply

theorem costs_restoreSnapshot {expected snapshotId : JsString} :
    Costs limit restoreRuns (restoreSnapshot P client expected snapshotId) := by
  rw [restoreRuns_eq]
  refine costs_snapshots.bind fun snapshots => ?_
  split
  · exact costs_fail
  · exact costs_restoreAndApply

theorem costs_restoreSnapshotUnlocked {project : Project} {snapshotId : JsString} {sent : Option JsString} :
    Costs limit restoreRuns (resticSyncRestoreSnapshotUnlocked P timeouts project snapshotId sent) :=
  .after (database_rereadProject _) fun _ => .after (database_resolveExpectedContentHash _ _) fun _ =>
    costs_restoreSnapshot.withWorkDir

theorem costs_pull {snapshotId contentHash : Option JsValue} :
    Costs limit restoreRuns (pull P timeouts projectId snapshotId contentHash) := by
  have hpull : ∀ project id sent, Costs limit restoreRuns (resticSyncPullUnlocked P timeouts project id sent) :=
    fun project id sent => costs_ite costs_fail (.after (database_rereadProject _) fun _ =>
      .after (database_resolveExpectedContentHash _ _) fun _ => costs_pullSnapshot.withWorkDir)
  refine .after (database_projectsDataGet _) fun row => ?_
  cases row with
  | none => exact costs_pure
  | some project =>
      exact costs_ite costs_pure (((hpull _ _ _).andThen fun _ => only_pure).tryCatch fun _ => only_pure)

theorem costs_previewSnapshotContent {target : ResticSnapshot} :
    Costs limit (Pi.single .restore 1) (previewSnapshotContent P client target) := by
  refine Costs.withWorkDir (costs_restore.bind (n := 0) fun listing => Costs.then_fs (Costs.then_fs ?_))
  split
  · exact costs_fail
  · exact costs_database ((database_secretsList _).bind fun _ => only_pure)

theorem costs_previewSnapshot {snapshotId : JsString} :
    Costs limit restoreRuns (previewSnapshot P client snapshotId) := by
  rw [restoreRuns_eq]
  refine costs_snapshots.bind fun snapshots => ?_
  split
  · exact costs_fail
  · exact costs_previewSnapshotContent

/-! ## The push -/

theorem costs_prepareRepository :
    Costs limit (Pi.single .read 1 + (Pi.single .init 1 + Pi.single .read 1)) (prepareRepository P client) := by
  have hinitialized : Costs limit (Pi.single .read 1) (client.repoInitialized P) :=
    (costs_run .repositoryCheck).andThen fun _ => only_ofExcept
  have hinit : Costs limit (Pi.single .init 1) (client.init P) := (costs_run .init).andThen fun _ => only_ofExcept
  refine hinitialized.bind fun initialized => costs_ite (hinit.bind fun _ => costs_snapshots) ?_
  exact costs_snapshots.mono fun _ => Nat.le_add_left _ _

theorem costs_lookupCreated {createdId : JsString} (attempts : Nat) :
    Costs limit (Pi.single .read attempts) (lookupCreated P client createdId attempts) := by
  induction attempts with
  | zero => exact costs_pure
  | succ attempts ih =>
      have hsnapshot : Costs limit (Pi.single .read 1) (client.snapshot P createdId) :=
        (costs_run (.snapshot createdId)).andThen fun _ => only_ofExcept
      have hsplit : (Pi.single .read (attempts + 1) : ResticKind → Nat) = Pi.single .read 1 + Pi.single .read attempts := by
        funext kind
        cases kind with
        | read => exact Nat.add_comm _ _
        | init | backup | restore => rfl
      rw [hsplit]
      refine hsnapshot.bind fun found => ?_
      cases found with
      | none => exact ih
      | some created => exact costs_pure

theorem costs_resolveCreatedSnapshot {createdId : Option JsString} {knownIds : List JsString} :
    Costs limit (Pi.single .read createdLookupAttempts + Pi.single .read 1)
      (resolveCreatedSnapshot P client createdId knownIds) := by
  unfold resolveCreatedSnapshot
  split
  · refine (costs_lookupCreated _).bind fun found => ?_
    cases found with
    | some created => exact costs_pure
    | none =>
        refine costs_snapshots.andThen fun snapshots => ?_
        split
        · exact only_pure
        · exact only_onlyNewSnapshot
  · exact (costs_snapshots.andThen fun snapshots => only_onlyNewSnapshot).mono fun _ => Nat.le_add_left _ _

theorem costs_pushSecrets {pushedBy : Option JsString} : Costs limit pushRuns (pushSecrets P client pushedBy) := by
  have hexport : ∀ (secrets : List Secret) (dir : Dir), Costs limit 0 (secrets.foldlM exportSecret dir) := by
    intro secrets
    induction secrets with
    | nil => exact fun dir => costs_pure
    | cons secret secrets ih =>
        intro dir
        have hfile : Costs limit 0 (exportSecret dir secret) := by
          refine Costs.then_fs ?_
          split
          · exact costs_pure
          · exact costs_fail
        exact hfile.bind ih
  have hbackup : ∀ dir, Costs limit (Pi.single .backup 1) (client.backup P dir pushedBy) := fun dir =>
    (costs_run (.backup dir pushedBy)).andThen fun _ => only_ofExcept
  have hall : Costs limit (0 + ((Pi.single .read 1 + (Pi.single .init 1 + Pi.single .read 1)) +
      (Pi.single .backup 1 + ((Pi.single .read createdLookupAttempts + Pi.single .read 1) + 0))))
      (pushSecrets P client pushedBy) := by
    refine .after (database_secretsList _) fun secrets => (hexport _ _).bind fun dir => ?_
    refine costs_prepareRepository.bind fun snapshots => .after only_checkNoConflict fun _ => ?_
    refine (hbackup dir).bind fun createdId => costs_resolveCreatedSnapshot.bind fun created => ?_
    exact (costs_withLock database_finalizePushSection).andThen fun _ => only_pure
  refine hall.mono fun kind => ?_
  cases kind <;> decide

/-- **Each operation keeps the discipline and its budget.** -/
theorem costs_serve (op : Operation) : Costs op.budget op.budget (serve P timeouts op) := by
  cases op with
  | startUp => exact costs_database (database_secretsHashBackfillAll.bind fun _ => only_pure)
  | createProject body => exact costs_createProject
  | deleteProject id => exact costs_deleteProject
  | createSecret projectId body => exact costs_createSecret
  | updateSecret projectId secretId body => exact costs_updateSecret
  | updateSecretKey projectId secretId body => exact costs_updateSecretKey
  | deleteSecret projectId secretId => exact costs_deleteSecret
  | push projectId pushedBy =>
      exact costs_syncRoute fun _ => .after (database_rereadProject _) fun _ => costs_pushSecrets.withWorkDir
  | pull projectId snapshotId contentHash => exact costs_pull
  | restore projectId snapshotId contentHash => exact costs_syncRoute fun _ => costs_restoreSnapshotUnlocked
  | discard projectId contentHash =>
      exact costs_syncRoute fun _ => .after (database_rereadProject _) fun _ =>
        costs_ite costs_fail costs_restoreSnapshotUnlocked
  | previewPull projectId =>
      refine costs_syncRoute fun _ => .after (database_rereadProject _) fun _ => ?_
      rw [Operation.budget, restoreRuns_eq]
      refine costs_snapshots.bind fun snapshots => ?_
      split
      · exact costs_fail
      · exact costs_previewSnapshotContent
  | previewRestore projectId snapshotId =>
      exact costs_syncRoute fun _ => .after (database_rereadProject _) fun _ => costs_previewSnapshot
  | previewDiscard projectId =>
      exact costs_syncRoute fun _ => .after (database_rereadProject _) fun _ =>
        costs_ite costs_fail costs_previewSnapshot

end Routes

end SecretsManager
