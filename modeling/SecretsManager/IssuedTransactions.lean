import SecretsManager.Restic.FailedSync

/-!
# The transactions of each operation

Whatever its commands answer, an operation issues transactions of its own kind only: a creation inserts a
secret, an update changes one, a confirmation replaces those of its project, and so on.
-/

namespace SecretsManager

open Js Interleaving

/-- The transactions that an operation can issue. -/
def Operation.Issues : Operation → Transaction → Prop
  | .startUp, .projectsDataUpdateCurrentContentHash _ _
  | .startUp, .projectsDataUpdateLastSyncContentHash _ _
  | .createProject _, .projectsDataAdd _
  | .createProject _, .projectsDataUpdateCurrentContentHash _ _
  | .deleteProject _, .projectsDataDeleteCascade _
  | .createSecret _ _, .secretsDataAdd _ _
  | .updateSecret _ _ _, .secretsDataUpdate _ _ _ _ _ _
  | .updateSecretKey _ _ _, .secretsDataUpdate _ _ _ _ _ _
  | .deleteSecret _ _, .secretsDataDelete _ _ _
  | .push _ _, .projectsDataUpdateSyncState _ _ _ _ _
  | .pull _ _ _, .secretsDataReplaceForProject _ _ _
  | .restore _ _ _, .secretsDataReplaceForProject _ _ _
  | .discard _ _, .secretsDataReplaceForProject _ _ _ => True
  | _, _ => False

def Cmd.IssuedBy (op : Operation) : Cmd → Prop
  | .transact tx => op.Issues tx
  | _ => True

section Only
variable {α : Type} {P : Platform} {timeouts : ResticTimeouts} {client : ResticClient} {op : Operation}

theorem Traceless.issuedBy {c : Cmd} (h : Traceless c) : c.IssuedBy op := by
  cases c with
  | transact tx => exact h.elim
  | _ => trivial

theorem issues_traceless {task : Op α} (h : task.Only Traceless) : task.Only (Cmd.IssuedBy op) :=
  h.mono fun _ => Traceless.issuedBy

theorem issues_transact {tx : Transaction} (h : op.Issues tx) : (Op.transact tx).Only (Cmd.IssuedBy op) := only_query h

theorem issues_fs (f : FsOp) : (Op.fs f).Only (Cmd.IssuedBy op) := only_fs trivial

theorem issues_projectsDataGet (id : JsString) : (projectsDataGet id).Only (Cmd.IssuedBy op) :=
  issues_traceless (traceless_projectsDataGet id)

theorem issues_secretsList (projectId : JsString) : (secretsDataListForProject projectId).Only (Cmd.IssuedBy op) :=
  issues_traceless (traceless_secretsList projectId)

theorem issues_dbUtilsWithLock {name : JsString} {task : Op α} (h : task.Only (Cmd.IssuedBy op)) :
    (dbUtilsWithLock name task).Only (Cmd.IssuedBy op) :=
  Prog.Only.bind (only_lift.mpr trivial) fun _ => Prog.Only.bind only_ofExcept fun _ =>
    h.tryFinally (only_lift.mpr trivial)

theorem issues_withWorkDir {task : Op α} (h : task.Only (Cmd.IssuedBy op)) :
    (withWorkDir task).Only (Cmd.IssuedBy op) :=
  (issues_fs _).bind fun _ => Prog.Only.tryFinally ((issues_fs _).bind fun _ => h) (issues_fs _)

theorem issues_syncRoute {id : JsString} {task : Project → Op α} {body : α → ResponseBody}
    (h : ∀ project, (task project).Only (Cmd.IssuedBy op)) : (syncRoute id task body).Only (Cmd.IssuedBy op) := by
  refine (issues_projectsDataGet id).bind fun row => ?_
  cases row with
  | none => exact only_pure
  | some project => exact Prog.Only.tryCatch ((h project).bind fun _ => only_pure) fun _ => only_pure

/-! ## Projects -/

theorem issues_secretsHashRefreshForProject (projectId : JsString)
    (h : ∀ id hash, op.Issues (.projectsDataUpdateCurrentContentHash id hash)) :
    (secretsHashRefreshForProject P projectId).Only (Cmd.IssuedBy op) :=
  (issues_secretsList projectId).bind fun _ => (issues_transact (h _ _)).bind fun _ => only_pure

theorem issues_backfillProject (project : Project) :
    (backfillProject P project).Only (Cmd.IssuedBy .startUp) := by
  unfold backfillProject
  split_ifs
  · exact only_pure
  · refine (issues_secretsList _).bind fun rows => (issues_transact (by exact trivial)).bind fun _ => ?_
    split_ifs
    · exact (issues_transact (by exact trivial)).bind fun _ => only_pure
    · exact only_pure

theorem issues_startUp : (serve P timeouts .startUp).Only (Cmd.IssuedBy .startUp) := by
  have hall : ∀ projects : List Project, (projects.forM (backfillProject P)).Only (Cmd.IssuedBy .startUp) := by
    intro projects
    induction projects with
    | nil => exact only_pure
    | cons project projects ih => exact (issues_backfillProject project).bind fun _ => ih
  have hlist : projectsDataList.Only (Cmd.IssuedBy .startUp) := only_query trivial
  exact Prog.Only.bind (hlist.bind hall) fun _ => only_pure

theorem issues_createProject (body : ProjectBody) :
    (createProject P body).Only (Cmd.IssuedBy (.createProject body)) := by
  have hname : ∀ name, (projectsDataGetByName name).Only (Cmd.IssuedBy (.createProject body)) := fun _ =>
    only_query trivial
  have htarget : ∀ key, (projectsDataGetByRepoTarget P key).Only (Cmd.IssuedBy (.createProject body)) := fun _ =>
    Prog.Only.bind (only_query trivial) fun _ => only_pure
  have hsection : ∀ project, (createProjectSection P body project).Only (Cmd.IssuedBy (.createProject body)) := by
    intro project
    refine (hname _).bind fun row => ?_
    cases row with
    | some row => exact only_pure
    | none =>
        refine only_ofExcept.bind fun targetKey => (htarget _).bind fun existing => ?_
        cases existing with
        | some existing => exact only_pure
        | none => exact Prog.Only.bind ((issues_transact (by exact trivial)).bind fun _ => only_pure) fun _ => only_pure
  unfold createProject
  dsimp only
  split_ifs
  · exact only_pure
  · refine Prog.Only.bind (only_lift.mpr trivial) fun newId => Prog.Only.bind (only_lift.mpr trivial) fun now => ?_
    refine (issues_dbUtilsWithLock (hsection _)).bind fun outcome => ?_
    cases outcome with
    | nameConflict => exact only_pure
    | targetConflict existingName => exact only_pure
    | created => exact (issues_secretsHashRefreshForProject _ fun _ _ => by exact trivial).bind fun _ => only_pure

theorem issues_deleteProject (id : JsString) : (deleteProject id).Only (Cmd.IssuedBy (.deleteProject id)) := by
  have hsection : ∀ projectId, (deleteProjectSection projectId).Only (Cmd.IssuedBy (.deleteProject id)) := by
    intro projectId
    refine (issues_projectsDataGet _).bind fun row => ?_
    cases row with
    | none => exact only_pure
    | some fresh => exact (issues_transact (by exact trivial)).bind fun _ => only_pure
  refine (issues_projectsDataGet _).bind fun row => ?_
  cases row with
  | none => exact only_pure
  | some project =>
      refine (issues_dbUtilsWithLock (hsection _)).bind fun deleted => ?_
      cases deleted <;> exact only_pure

/-! ## Secrets -/

variable {projectId secretId : JsString} {body : SecretBody}

theorem issues_onUniqueViolation (e : Failure) : (onUniqueViolation e).Only (Cmd.IssuedBy op) := by
  cases e <;> trivial

theorem issues_createSecret : (createSecret P projectId body).Only (Cmd.IssuedBy (.createSecret projectId body)) := by
  have hsection : ∀ name, (createSecretSection P projectId name body.data).Only
      (Cmd.IssuedBy (.createSecret projectId body)) := by
    intro name
    refine (issues_projectsDataGet _).bind fun row => ?_
    cases row with
    | none => exact only_pure
    | some project =>
        refine (issues_secretsList _).bind fun secrets => ?_
        split_ifs
        · exact only_pure
        · refine Prog.Only.bind (Prog.Only.bind (only_lift.mpr trivial) fun id =>
            Prog.Only.bind (only_lift.mpr trivial) fun now => only_pure) fun secret => ?_
          exact (issues_transact (by exact trivial)).bind fun _ => only_pure
  unfold createSecret
  dsimp only
  split_ifs
  · exact only_pure
  · exact Prog.Only.tryCatch ((issues_dbUtilsWithLock (hsection _)).bind fun _ => only_pure) issues_onUniqueViolation

theorem issues_secretsDataUpdate {secret : Secret} {version : Nat} {hash : JsString}
    (h : ∀ tx id projectId content date version hash, tx = .secretsDataUpdate id projectId content date version hash →
      op.Issues tx) : (secretsDataUpdate secret version hash).Only (Cmd.IssuedBy op) := by
  refine Prog.Only.bind (only_lift.mpr trivial) fun date => (issues_transact (h _ _ _ _ _ _ _ rfl)).bind fun n => ?_
  split_ifs
  · exact only_pure
  · refine Prog.Only.bind (only_query trivial) fun current => ?_
    cases current with
    | none => exact only_pure
    | some current =>
        dsimp only
        split_ifs <;> exact only_pure

theorem issues_updateSecret :
    (updateSecret P projectId secretId body).Only (Cmd.IssuedBy (.updateSecret projectId secretId body)) := by
  have hsection : ∀ version, (updateSecretSection P projectId secretId version body).Only
      (Cmd.IssuedBy (.updateSecret projectId secretId body)) := by
    intro version
    refine (issues_projectsDataGet _).bind fun row => ?_
    cases row with
    | none => exact only_pure
    | some project =>
        refine (issues_secretsList _).bind fun secrets => ?_
        split
        · exact only_pure
        · refine only_ite only_pure (only_ite only_pure ?_)
          exact (issues_secretsDataUpdate fun tx _ _ _ _ _ _ htx => htx ▸ trivial).bind fun _ => only_pure
  unfold updateSecret
  split
  · exact only_pure
  · split_ifs
    · exact only_pure
    · exact Prog.Only.tryCatch ((issues_dbUtilsWithLock (hsection _)).bind fun _ => only_pure)
        issues_onUniqueViolation

theorem issues_updateSecretKey :
    (updateSecretKey P projectId secretId body).Only (Cmd.IssuedBy (.updateSecretKey projectId secretId body)) := by
  have hattempts : ∀ key value attempts, (updateKeyAttempts P projectId secretId key value attempts).Only
      (Cmd.IssuedBy (.updateSecretKey projectId secretId body)) := by
    intro key value attempts
    induction attempts with
    | zero => exact only_pure
    | succ attempts ih =>
        refine (issues_secretsList _).bind fun secrets => ?_
        split
        · exact only_pure
        · refine (issues_secretsDataUpdate fun tx _ _ _ _ _ _ htx => htx ▸ trivial).bind fun status => ?_
          cases status with
          | updated secret => exact only_pure
          | notFound => exact only_pure
          | versionConflict => exact ih
  have hsection : ∀ key value, (updateSecretKeySection P projectId secretId key value).Only
      (Cmd.IssuedBy (.updateSecretKey projectId secretId body)) := by
    intro key value
    refine (issues_projectsDataGet _).bind fun row => ?_
    cases row with
    | none => exact only_pure
    | some project => exact hattempts _ _ _
  unfold updateSecretKey
  refine only_ite only_pure ?_
  split
  · exact only_pure
  · refine only_ite only_pure ?_
    exact Prog.Only.tryCatch ((issues_dbUtilsWithLock (hsection _ _)).bind fun _ => only_pure)
      issues_onUniqueViolation

theorem issues_deleteSecret :
    (deleteSecret P projectId secretId).Only (Cmd.IssuedBy (.deleteSecret projectId secretId)) := by
  have hsection : (deleteSecretSection P projectId secretId).Only
      (Cmd.IssuedBy (.deleteSecret projectId secretId)) := by
    refine (issues_projectsDataGet _).bind fun row => ?_
    cases row with
    | none => exact only_pure
    | some project =>
        refine (issues_secretsList _).bind fun secrets => ?_
        split
        · exact only_pure
        · exact (issues_transact (by exact trivial)).bind fun _ => only_pure
  exact (issues_dbUtilsWithLock hsection).bind fun _ => only_pure

/-! ## Synchronizations -/

theorem issues_restoreAndApply (h : ∀ projectId secrets state, op.Issues (.secretsDataReplaceForProject projectId
    secrets state)) {expected : JsString} {snapshot : ResticSnapshot} :
    (restoreAndApply P client expected snapshot).Only (Cmd.IssuedBy op) := by
  refine (only_restore trivial).bind fun listing => (issues_fs _).bind fun _ => ?_
  refine (issues_traceless (traceless_readSnapshotSecretsForProject _ _)).bind fun secrets => ?_
  refine Prog.Only.bind (issues_dbUtilsWithLock ?_) fun _ => only_pure
  refine (issues_projectsDataGet _).bind fun row => ?_
  cases row with
  | none => exact only_fail
  | some project =>
      refine (issues_secretsList _).bind fun current => ?_
      split_ifs
      · exact only_fail
      · exact (issues_transact (h _ _ _)).bind fun _ => only_pure

theorem issues_restoreSnapshotUnlocked (h : ∀ projectId secrets state, op.Issues (.secretsDataReplaceForProject
    projectId secrets state)) {project : Project} {snapshotId : JsString} {sent : Option JsString} :
    (resticSyncRestoreSnapshotUnlocked P timeouts project snapshotId sent).Only (Cmd.IssuedBy op) := by
  refine (issues_traceless (traceless_rereadProject _)).bind fun project => ?_
  refine (issues_traceless (traceless_resolveExpectedContentHash _ _)).bind fun expected => ?_
  refine issues_withWorkDir ((issues_traceless traceless_snapshots).bind fun snapshots => ?_)
  split
  · exact only_fail
  · exact issues_restoreAndApply h

theorem issues_pull {snapshotId contentHash : Option JsValue} :
    (pull P timeouts projectId snapshotId contentHash).Only
      (Cmd.IssuedBy (.pull projectId snapshotId contentHash)) := by
  have hpull : ∀ project id sent, (resticSyncPullUnlocked P timeouts project id sent).Only
      (Cmd.IssuedBy (.pull projectId snapshotId contentHash)) := by
    intro project id sent
    unfold resticSyncPullUnlocked
    split_ifs
    · exact only_fail
    · refine (issues_traceless (traceless_rereadProject _)).bind fun project => ?_
      refine (issues_traceless (traceless_resolveExpectedContentHash _ _)).bind fun expected => ?_
      refine issues_withWorkDir ((issues_traceless traceless_snapshots).bind fun snapshots => ?_)
      split
      · exact only_fail
      · split_ifs
        · exact only_fail
        · exact issues_restoreAndApply fun _ _ _ => by exact trivial
  refine (issues_projectsDataGet _).bind fun row => ?_
  cases row with
  | none => exact only_pure
  | some project =>
      dsimp only
      split_ifs
      · exact only_pure
      · exact Prog.Only.tryCatch ((hpull _ _ _).bind fun _ => only_pure) fun _ => only_pure

theorem issues_push {pushedBy : Option JsString} :
    (push P timeouts projectId pushedBy).Only (Cmd.IssuedBy (.push projectId pushedBy)) := by
  refine issues_syncRoute fun project => ?_
  refine (issues_traceless (traceless_rereadProject _)).bind fun project => issues_withWorkDir ?_
  refine (issues_secretsList _).bind fun secrets => ?_
  refine (Prog.Only.foldlM (only_exportSecret fun _ => trivial) _ _).bind fun dir => ?_
  refine (issues_traceless traceless_prepareRepository).bind fun snapshots => ?_
  refine only_checkNoConflict.bind fun _ => (only_backup trivial).bind fun createdId => ?_
  refine (issues_traceless traceless_resolveCreatedSnapshot).bind fun created => ?_
  refine Prog.Only.bind (issues_dbUtilsWithLock ?_) fun _ => only_pure
  refine (issues_projectsDataGet _).bind fun row => ?_
  cases row with
  | none => exact only_fail
  | some fresh =>
      dsimp only
      split_ifs
      · exact only_fail
      · exact (issues_secretsList _).bind fun freshSecrets => (issues_transact (by exact trivial)).bind fun _ => only_pure

theorem issues_previewSnapshotContent {target : ResticSnapshot} :
    (previewSnapshotContent P client target).Only (Cmd.IssuedBy op) := by
  refine issues_withWorkDir ((only_restore trivial).bind fun listing => ?_)
  refine (issues_fs _).bind fun _ => (issues_fs _).bind fun _ => ?_
  split
  · exact only_fail
  · exact (issues_secretsList _).bind fun rows => only_pure

theorem issues_previewSnapshot {snapshotId : JsString} :
    (previewSnapshot P client snapshotId).Only (Cmd.IssuedBy op) := by
  refine (issues_traceless traceless_snapshots).bind fun snapshots => ?_
  split
  · exact only_fail
  · exact issues_previewSnapshotContent

/-- **Each operation issues transactions of its own kind only.** -/
theorem only_issues (op : Operation) : (serve P timeouts op).Only (Cmd.IssuedBy op) := by
  cases op with
  | startUp => exact issues_startUp
  | createProject body => exact issues_createProject body
  | deleteProject id => exact issues_deleteProject id
  | createSecret projectId body => exact issues_createSecret
  | updateSecret projectId secretId body => exact issues_updateSecret
  | updateSecretKey projectId secretId body => exact issues_updateSecretKey
  | deleteSecret projectId secretId => exact issues_deleteSecret
  | push projectId pushedBy => exact issues_push
  | pull projectId snapshotId contentHash => exact issues_pull
  | restore projectId snapshotId contentHash =>
      exact issues_syncRoute fun project => issues_restoreSnapshotUnlocked fun _ _ _ => by exact trivial
  | discard projectId contentHash =>
      refine issues_syncRoute fun project => (issues_traceless (traceless_rereadProject _)).bind fun project => ?_
      split_ifs
      · exact only_fail
      · exact issues_restoreSnapshotUnlocked fun _ _ _ => by exact trivial
  | previewPull projectId =>
      refine issues_syncRoute fun project => (issues_traceless (traceless_rereadProject _)).bind fun project => ?_
      refine (issues_traceless traceless_snapshots).bind fun snapshots => ?_
      split
      · exact only_fail
      · exact issues_previewSnapshotContent
  | previewRestore projectId snapshotId =>
      exact issues_syncRoute fun project => (issues_traceless (traceless_rereadProject _)).bind fun project =>
        issues_previewSnapshot
  | previewDiscard projectId =>
      refine issues_syncRoute fun project => (issues_traceless (traceless_rereadProject _)).bind fun project => ?_
      split_ifs
      · exact only_fail
      · exact issues_previewSnapshot

end Only

end SecretsManager
