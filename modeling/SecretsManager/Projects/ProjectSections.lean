import SecretsManager.Restic.SyncSections
import SecretsManager.Secrets.SecretSections

/-!
# Every operation keeps the discipline

The creation of a project and the backfill refresh a content hash from a list that they read without the
lock; everything else follows the write sections. `meets_serve` says this for the program of each
operation, together with what its result tells about its transactions.
-/

namespace SecretsManager

open Js Interleaving

section Platform
variable {P : Platform} {op : Operation} {v : View} {id : JsString}

/-! ## Projects -/

theorem meets_secretsHashRefreshForProject {projectId : JsString} {Q : Except Failure Unit → View → Prop}
    (hop : op.refreshes = true) (hlock : v.lock = none) (hQ : ∀ r v', v'.lock = none → Q r v') :
    (secretsHashRefreshForProject P projectId).Meets (sections P op) v Q := by
  rw [secretsHashRefreshForProject, meets_bind]
  refine meets_secretsList hlock (Or.inr hop) (fun rows _ => ?_) fun e _ => hQ _ _ hlock
  rw [then_ok, meets_bind]
  exact meets_transact ⟨hop, rows, rfl, rfl⟩ (fun n => hQ _ _ hlock) fun e _ => hQ _ _ hlock

theorem meets_backfillProject {project : Project} {Q : Except Failure Unit → View → Prop}
    (hop : op.refreshes = true) (hlock : v.lock = none) (hQ : ∀ r v', v'.lock = none → Q r v') :
    (backfillProject P project).Meets (sections P op) v Q := by
  unfold backfillProject
  refine meets_ite (fun _ => hQ _ _ hlock) fun _ => ?_
  rw [meets_bind]
  refine meets_secretsList hlock (Or.inr hop) (fun rows _ => ?_) fun e _ => hQ _ _ hlock
  rw [then_ok]
  dsimp only
  rw [meets_bind]
  refine meets_transact ⟨hop, rows, rfl, rfl⟩ (fun n => ?_) fun e _ => hQ _ _ hlock
  rw [then_ok]
  refine meets_ite (fun _ => ?_) fun _ => hQ _ _ hlock
  rw [meets_bind]
  exact meets_transact hop (fun n => hQ _ _ hlock) fun e _ => hQ _ _ hlock

theorem meets_backfillAll (projects : List Project) {Q : Except Failure Unit → View → Prop}
    (hop : op.refreshes = true) (hlock : v.lock = none) (hQ : ∀ r v', v'.lock = none → Q r v') :
    (projects.forM (backfillProject P)).Meets (sections P op) v Q := by
  induction projects generalizing v with
  | nil => exact hQ _ _ hlock
  | cons project projects ih =>
      show (backfillProject P project >>= fun _ => projects.forM (backfillProject P)).Meets (sections P op) v Q
      rw [meets_bind]
      refine meets_backfillProject hop hlock fun r v' hv' => ?_
      cases r with
      | error e => exact hQ _ _ hv'
      | ok => exact ih hv'

theorem meets_createProjectSection {body : ProjectBody} {project : Project} {Q : Except Failure CreateOutcome → View → Prop}
    (hop : op.refreshes = true) (hhash : project.currentContentHash = [])
    (hQ : ∀ r v', v'.lock = v.lock → Q r v') :
    (createProjectSection P body project).Meets (sections P op) v Q := by
  rw [createProjectSection, meets_bind]
  refine (harmless_projectsDataGetByName _).meets (fun row => ?_) fun e _ => hQ _ _ rfl
  rw [then_ok]
  cases row with
  | some row => exact hQ _ _ rfl
  | none =>
      rw [meets_bind, meets_ofExcept]
      cases body.repoTargetKey P project with
      | error e => exact hQ _ _ rfl
      | ok targetKey =>
          rw [then_ok, meets_bind, projectsDataGetByRepoTarget, meets_bind]
          refine harmless_projectsDataList.meets (fun projects => ?_) fun e _ => hQ _ _ rfl
          rw [then_ok, meets_pure, then_ok]
          split
          · exact hQ _ _ rfl
          · rw [meets_bind, projectsDataAdd, meets_bind]
            exact meets_transact ⟨hop, hhash⟩ (fun n => hQ _ _ rfl) fun e _ => hQ _ _ rfl

theorem meets_createProject {body : ProjectBody} {Q : Except Failure Response → View → Prop}
    (hop : op.refreshes = true) (hlock : v.lock = none) (hQ : ∀ r v', Q r v') :
    (createProject P body).Meets (sections P op) v Q := by
  unfold createProject
  dsimp only
  refine meets_ite (fun _ => hQ _ _) fun _ => ?_
  rw [meets_bind, Op.uuid, meets_lift]
  refine ⟨trivial, fun newId _ => ?_⟩
  rw [then_ok, meets_bind]
  refine harmless_now.meets (fun now => ?_) fun e _ => hQ _ _
  rw [then_ok, meets_bind]
  refine meets_dbUtilsWithLock hlock ?_ fun e _ => hQ _ _
  refine meets_createProjectSection hop rfl fun r v' hv' => ⟨hv', ?_⟩
  cases r with
  | error e => exact hQ _ _
  | ok outcome =>
      cases outcome with
      | nameConflict => exact hQ _ _
      | targetConflict existingName => exact hQ _ _
      | created =>
          rw [then_ok, meets_bind]
          refine meets_secretsHashRefreshForProject hop rfl fun r v' _ => ?_
          cases r <;> exact hQ _ _

theorem meets_deleteProject {Q : Except Failure Response → View → Prop} (hlock : v.lock = none)
    (hQ : ∀ r v', Q r v') : (deleteProject id).Meets (sections P (.deleteProject id)) v Q := by
  rw [deleteProject, meets_bind]
  refine meets_projectsDataGet hlock (fun row hrow => ?_) fun e _ => hQ _ _
  rw [then_ok]
  cases row with
  | none => exact hQ _ _
  | some project =>
      have hid : project.id = id := hrow project rfl
      rw [meets_bind, projectWriteLocksRun]
      have hdone : ∀ (r : Except Failure Bool) (v' : View), v'.lock = some (projectWriteLockName project.id) →
          v'.lock = some (projectWriteLockName project.id) ∧
            Then (sections P (.deleteProject id))
              (fun deleted => if deleted = true then pure ⟨200, .empty⟩ else pure projectNotFound) Q
              r v'.leave := by
        intro r v' hv'
        refine ⟨hv', ?_⟩
        cases r with
        | error e => exact hQ _ _
        | ok deleted => cases deleted <;> exact hQ _ _
      refine meets_dbUtilsWithLock hlock ?_ fun e _ => hQ _ _
      rw [deleteProjectSection, meets_bind]
      refine meets_projectsDataGet_inside rfl (fun fresh hfresh => ?_) fun e _ => hdone _ _ rfl
      rw [then_ok]
      cases fresh with
      | none => exact hdone _ _ rfl
      | some fresh =>
          have hfreshId : fresh.id = project.id := hfresh fresh rfl
          rw [meets_bind]
          refine meets_transact ⟨?_, ?_⟩ (fun n => hdone _ _ rfl) fun e _ => hdone _ _ rfl
          · rw [hfreshId]
            rfl
          · rw [hfreshId, hid]

/-! ## Synchronization routes -/

/-- The response 200 of a confirmation goes with its replacement, and any other end with no transaction. -/
def ConfirmOutcome (r : Except Failure Response) (v : View) : Prop :=
  (∃ body projectId secrets state n, r = .ok ⟨200, body⟩ ∧
      v.done = [(.secretsDataReplaceForProject projectId secrets state, n)]) ∨
    (∀ body, r ≠ .ok ⟨200, body⟩) ∧ v.done = []

/-- A preview commits nothing, and its response 200 shows what it has read. -/
def PreviewRouteOutcome (P : Platform) (projectId : JsString) (pinned : Option JsString)
    (r : Except Failure Response) (v : View) : Prop :=
  v.done = [] ∧ ∀ body, r = .ok ⟨200, body⟩ → ∃ preview, body = .preview preview ∧
    (∀ id ∈ pinned, preview.snapshotId = id) ∧ Previewed P projectId preview v

theorem confirmOutcome_of_confirmed {α : Type} {r : Except Failure α} {body : α → ResponseBody}
    (h : Confirmed r v) :
    Catch (sections P op) (fun e => pure (sendSyncError e)) ConfirmOutcome
      (r.map fun a => ⟨200, body a⟩) v := by
  rcases h with ⟨a, projectId, secrets, state, n, rfl, hdone⟩ | ⟨e, rfl, he, hdone⟩
  · exact Or.inl ⟨body a, projectId, secrets, state, n, rfl, hdone⟩
  · refine Or.inr ⟨fun body h => he ?_, hdone⟩
    rw [Except.ok.inj h]

theorem meets_syncRoute {α : Type} {task : Project → Op α} {body : α → ResponseBody}
    {Q : Except Failure Response → View → Prop} (hlock : v.lock = none)
    (htask : ∀ project : Project, project.id = id →
      (task project).Meets (sections P op) { v with reads := v.reads ++ [some project] } fun r v' =>
        Catch (sections P op) (fun e => pure (sendSyncError e)) Q (r.map fun a => ⟨200, body a⟩) v')
    (hnone : Q (.ok projectNotFound) { v with reads := v.reads ++ [none] })
    (herror : ∀ e, Q (.error e) v) :
    (syncRoute id task body).Meets (sections P op) v Q := by
  rw [syncRoute, meets_bind]
  refine meets_projectsDataGet hlock (fun row hrow => ?_) fun e _ => herror e
  rw [then_ok]
  cases row with
  | none => exact hnone
  | some project =>
      simp only [meets_tryCatch, meets_bind]
      refine (htask project (hrow project rfl)).mono fun r v' h => ?_
      cases r <;> exact h

theorem meets_pull {timeouts : ResticTimeouts} {snapshotId contentHash : Option JsValue} :
    (pull P timeouts id snapshotId contentHash).Meets (sections P (.pull id snapshotId contentHash))
      .start ConfirmOutcome := by
  have hnone : ∀ (response : Response) (v : View), response.status ≠ 200 → v.done = [] →
      ConfirmOutcome (.ok response) v := fun response v hstatus hdone =>
    Or.inr ⟨fun body h => hstatus (by rw [Except.ok.inj h]), hdone⟩
  rw [pull, meets_bind]
  refine meets_projectsDataGet rfl (fun row hrow => ?_) fun e _ =>
    Or.inr ⟨(fun _ h => by cases h), rfl⟩
  rw [then_ok]
  cases row with
  | none => exact hnone _ _ (by decide) rfl
  | some project =>
      refine meets_ite (fun _ => hnone _ _ (by decide) rfl) fun hid => ?_
      rw [meets_tryCatch, meets_bind, resticSyncPull, syncQueueRun]
      have hproject : project.id = id := hrow project rfl
      refine (meets_resticSyncPullUnlocked rfl rfl rfl (by rw [hproject]; rfl) fun row listed => ?_).mono
        fun r v' h => ?_
      · -- only a string passes the check of the route
        cases snapshotId with
        | none => exact absurd rfl hid
        | some value => cases value <;> first | rfl | exact absurd rfl hid
      · have hcatch : Catch (sections P (.pull id snapshotId contentHash)) (fun e => pure (sendSyncError e))
            ConfirmOutcome (r.map fun a => ⟨200, .restored a⟩) v' := confirmOutcome_of_confirmed h
        cases r <;> exact hcatch

/-- A confirmation through `syncRoute`. -/
theorem meets_confirmRoute {task : Project → Op RestoreSnapshotResult}
    (htask : ∀ project : Project, project.id = id →
      (task project).Meets (sections P op) { View.start with reads := [some project] } Confirmed) :
    (syncRoute id task .restored).Meets (sections P op) .start ConfirmOutcome := by
  refine meets_syncRoute rfl (fun project hid => ?_) (Or.inr ⟨(fun body h => by cases h), rfl⟩)
    fun e => Or.inr ⟨(fun _ h => by cases h), rfl⟩
  exact (htask project hid).mono fun r v' h => confirmOutcome_of_confirmed h

theorem meets_previewRoute {pinned : Option JsString} {task : Project → Op SyncPreviewResult}
    (htask : ∀ project : Project, project.id = id →
      (task project).Meets (sections P op) { View.start with reads := [some project] }
        (PreviewOutcome P project.id pinned)) :
    (syncRoute id task .preview).Meets (sections P op) .start (PreviewRouteOutcome P id pinned) := by
  refine meets_syncRoute rfl (fun project hid => ?_) ⟨rfl, fun body h => by cases h⟩
    fun e => ⟨rfl, fun body h => by cases h⟩
  refine (htask project hid).mono fun r v' ⟨hdone, h⟩ => ?_
  rw [hid] at h
  rcases h with ⟨preview, rfl, hpinned, hpreview⟩ | ⟨e, rfl, he⟩
  · refine ⟨hdone, fun body h => ⟨preview, ?_, hpinned, hpreview⟩⟩
    cases h
    rfl
  · refine ⟨hdone, fun body h => absurd ?_ he⟩
    rw [Except.ok.inj h]

/-! ## All operations -/

/-- What the result of an operation tells about its transactions. -/
def Outcome (P : Platform) : Operation → Except Failure Response → View → Prop
  | .updateSecret projectId secretId body => UpdateOutcome projectId secretId (parseVersion body.version)
  | .pull _ _ _ | .restore _ _ _ | .discard _ _ => ConfirmOutcome
  | .previewPull projectId | .previewDiscard projectId => PreviewRouteOutcome P projectId none
  | .previewRestore projectId snapshotId => PreviewRouteOutcome P projectId (some snapshotId)
  | _ => fun _ _ => True

/-- **Every operation keeps the discipline of the write sections.** -/
theorem meets_serve (timeouts : ResticTimeouts) (op : Operation) :
    (serve P timeouts op).Meets (sections P op) .start (Outcome P op) := by
  cases op with
  | startUp =>
      rw [serve, meets_bind, secretsHashBackfillAll, meets_bind]
      refine harmless_projectsDataList.meets (fun projects => ?_) fun e _ => trivial
      rw [then_ok]
      refine meets_backfillAll projects rfl rfl fun r v' _ => ?_
      cases r <;> trivial
  | createProject body => exact meets_createProject rfl rfl fun _ _ => trivial
  | deleteProject id => exact meets_deleteProject rfl fun _ _ => trivial
  | createSecret projectId body => exact meets_createSecret rfl rfl fun _ _ => trivial
  | updateSecret projectId secretId body => exact meets_updateSecret rfl rfl fun _ _ h => h
  | updateSecretKey projectId secretId body =>
      exact meets_updateSecretKey rfl rfl (fun _ _ _ h => by cases h) fun _ _ => trivial
  | deleteSecret projectId secretId => exact meets_deleteSecret rfl rfl fun _ _ => trivial
  | push projectId pushedBy =>
      refine meets_syncRoute rfl (fun project _ => ?_) trivial fun _ => trivial
      rw [resticSyncPush, syncQueueRun]
      refine meets_resticSyncPushUnlocked rfl rfl rfl fun r v' => ?_
      cases r <;> trivial
  | pull projectId snapshotId contentHash => exact meets_pull
  | restore projectId snapshotId contentHash =>
      refine meets_confirmRoute fun project hid => ?_
      rw [resticSyncRestoreSnapshot, syncQueueRun]
      exact meets_restoreSnapshotUnlocked rfl rfl rfl (by rw [hid]; rfl) fun row listed => rfl
  | discard projectId contentHash =>
      refine meets_confirmRoute fun project hid => ?_
      rw [resticSyncDiscardLocalChanges, syncQueueRun]
      exact meets_resticSyncDiscardLocalChangesUnlocked rfl rfl rfl rfl rfl (by rw [hid])
  | previewPull projectId =>
      refine meets_previewRoute fun project hid => ?_
      rw [resticSyncPreviewPull, syncQueueRun]
      exact meets_resticSyncPreviewPullUnlocked rfl rfl rfl
  | previewRestore projectId snapshotId =>
      refine meets_previewRoute fun project hid => ?_
      rw [resticSyncPreviewRestoreSnapshot, syncQueueRun]
      exact meets_resticSyncPreviewRestoreSnapshotUnlocked rfl rfl rfl
  | previewDiscard projectId =>
      refine meets_previewRoute fun project hid => ?_
      rw [resticSyncPreviewDiscardLocalChanges, syncQueueRun]
      exact meets_resticSyncPreviewDiscardLocalChangesUnlocked rfl rfl rfl

end Platform

end SecretsManager
