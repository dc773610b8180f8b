import SecretsManager.Spelling

/-!
# Requests that spell their ids

A creation spells the id of its body, if it has one, and a secret route the project id of its URL, as the database
stores it. Then every statement of the operation does. The routes of a project may spell its id in any way: after the
lookup they do what they do for the stored spelling.
-/

namespace SecretsManager

open Js Interleaving

section Sections
variable {α : Type} {ids : IdColumn} {P : Platform} {timeouts : ResticTimeouts} {client : ResticClient}
  {projectId secretId : JsString}

/-! ## The sections -/

theorem spells_secretsHashRefreshForProject (h : ids.Spelled projectId) :
    Spells ids (fun _ => True) (secretsHashRefreshForProject P projectId) :=
  (spells_secretsList h).bind fun _ _ => Spells.bind (spells_transact (spelled_singleton h)) fun _ _ =>
    spells_pure trivial

theorem spells_secretsHashBackfillAll : Spells ids (fun _ => True) (secretsHashBackfillAll P) := by
  have hproject : ∀ project : Project, ids.Stored project.id →
      Spells ids (fun _ => True) (backfillProject P project) := by
    intro project h
    refine spells_ite (spells_pure trivial) ((spells_secretsList h.spelled).bind fun rows _ => ?_)
    refine Spells.bind (spells_transact (spelled_singleton h.spelled)) fun _ _ => spells_ite ?_ (spells_pure trivial)
    exact Spells.bind (spells_transact (spelled_singleton h.spelled)) fun _ _ => spells_pure trivial
  have hall : ∀ projects : List Project, (∀ p ∈ projects, ids.Stored p.id) →
      Spells ids (fun _ => True) (projects.forM (backfillProject P)) := by
    intro projects h
    induction projects with
    | nil => exact spells_pure trivial
    | cons project projects ih =>
        exact (hproject project (h project (List.mem_cons_self ..))).bind fun _ _ =>
          ih fun p hp => h p (List.mem_cons_of_mem _ hp)
  exact spells_projectsDataList.bind hall

theorem spells_createProjectSection {body : ProjectBody} {project : Project} (h : ids.Spelled project.id) :
    Spells ids (fun _ => True) (createProjectSection P body project) := by
  have hname : (projectsDataGetByName project.name).Only Cmd.Idless := only_query rfl
  refine .after hname fun row => ?_
  cases row with
  | some row => exact spells_pure trivial
  | none =>
      refine .after only_ofExcept fun targetKey => ?_
      have htarget : Spells ids (fun _ => True) (projectsDataGetByRepoTarget P targetKey) :=
        spells_projectsDataList.bind fun _ _ => spells_pure trivial
      refine htarget.bind fun existing _ => ?_
      cases existing with
      | some existing => exact spells_pure trivial
      | none =>
          have hadd : Spells ids (fun _ => True) (projectsDataAdd P project) :=
            Spells.bind (spells_transact (spelled_singleton h)) fun _ _ => spells_pure trivial
          exact hadd.bind fun _ _ => spells_pure trivial

theorem spells_deleteProjectSection (h : ids.Stored projectId) :
    Spells ids (fun _ => True) (deleteProjectSection projectId) := by
  refine (spells_projectsDataGet h.spelled).bind fun row hrow => ?_
  cases row with
  | none => exact spells_pure trivial
  | some fresh =>
      exact Spells.bind (spells_transact (spelled_singleton (hrow fresh rfl).spelled)) fun _ _ => spells_pure trivial

theorem spells_createSecretSection {name : JsString} {data : Option Json} (h : ids.Spelled projectId) :
    Spells ids (fun _ => True) (createSecretSection P projectId name data) := by
  refine (spells_projectsDataGet h).bind fun row _ => ?_
  cases row with
  | none => exact spells_pure trivial
  | some project =>
      refine (spells_secretsList h).bind fun secrets _ => spells_ite (spells_pure trivial) ?_
      refine spells_newSecret.bind fun secret hsecret => ?_
      refine Spells.bind (spells_transact (spelled_pair hsecret.1 ?_)) fun _ _ => spells_pure trivial
      rw [hsecret.2]
      exact h

theorem spells_updateSecretSection {version : Nat} {body : SecretBody} (h : ids.Spelled projectId) :
    Spells ids (fun _ => True) (updateSecretSection P projectId secretId version body) := by
  refine (spells_projectsDataGet h).bind fun row _ => ?_
  cases row with
  | none => exact spells_pure trivial
  | some project =>
      refine (spells_secretsList h).bind fun secrets hsecrets => ?_
      split
      · exact spells_pure trivial
      · rename_i secret hfind
        obtain ⟨hid, hproject⟩ := hsecrets secret (List.mem_of_find?_eq_some hfind)
        refine spells_ite (spells_pure trivial) (spells_ite (spells_pure trivial) ?_)
        exact Spells.bind (spells_secretsDataUpdate hid hproject) fun _ _ => spells_pure trivial

theorem spells_updateSecretKeySection {key value : JsString} (h : ids.Spelled projectId) :
    Spells ids (fun _ => True) (updateSecretKeySection P projectId secretId key value) := by
  have hattempts : ∀ attempts,
      Spells ids (fun _ => True) (updateKeyAttempts P projectId secretId key value attempts) := by
    intro attempts
    induction attempts with
    | zero => exact spells_pure trivial
    | succ attempts ih =>
        refine (spells_secretsList h).bind fun secrets hsecrets => ?_
        split
        · exact spells_pure trivial
        · rename_i secret hfind
          obtain ⟨hid, hproject⟩ := hsecrets secret (List.mem_of_find?_eq_some hfind)
          refine Spells.bind (spells_secretsDataUpdate hid hproject) fun status _ => ?_
          cases status with
          | updated secret | notFound => exact spells_pure trivial
          | versionConflict => exact ih
  refine (spells_projectsDataGet h).bind fun row _ => ?_
  cases row with
  | none => exact spells_pure trivial
  | some project => exact hattempts _

theorem spells_deleteSecretSection (h : ids.Spelled projectId) :
    Spells ids (fun _ => True) (deleteSecretSection P projectId secretId) := by
  refine (spells_projectsDataGet h).bind fun row _ => ?_
  cases row with
  | none => exact spells_pure trivial
  | some project =>
      refine (spells_secretsList h).bind fun secrets hsecrets => ?_
      split
      · exact spells_pure trivial
      · rename_i secret hfind
        have hid := (hsecrets secret (List.mem_of_find?_eq_some hfind)).1.spelled
        exact Spells.bind (spells_transact (spelled_pair hid h)) fun _ _ => spells_pure trivial

theorem spells_applySnapshotSection {expected snapshotId snapshotTime : JsString} {secrets : List Secret}
    (h : ids.Stored projectId) (hsecrets : ∀ s ∈ secrets, ids.Spelled s.id ∧ ids.Spelled s.projectId) :
    Spells ids (fun _ => True) (applySnapshotSection P projectId expected secrets snapshotId snapshotTime) := by
  have htx : ∀ id ∈ projectId :: secrets.flatMap fun secret => [secret.id, secret.projectId], ids.Spelled id := by
    intro id hid
    rcases List.mem_cons.mp hid with rfl | hid
    · exact h.spelled
    · obtain ⟨s, hs, hid⟩ := List.mem_flatMap.mp hid
      exact spelled_pair (hsecrets s hs).1 (hsecrets s hs).2 id hid
  refine (spells_projectsDataGet h.spelled).bind fun row _ => ?_
  cases row with
  | none => exact spells_fail
  | some project =>
      refine (spells_secretsList h.spelled).bind fun current _ => spells_ite spells_fail ?_
      exact Spells.bind (spells_transact htx) fun _ _ => spells_pure trivial

theorem spells_finalizePushSection {observed pushedHash : JsString} {created : ResticSnapshot}
    (h : ids.Stored projectId) :
    Spells ids (fun _ => True) (finalizePushSection P projectId observed pushedHash created) := by
  refine (spells_projectsDataGet h.spelled).bind fun row _ => ?_
  cases row with
  | none => exact spells_fail
  | some fresh =>
      refine spells_ite spells_fail ((spells_secretsList h.spelled).bind fun freshSecrets _ => ?_)
      exact Spells.bind (spells_transact (spelled_singleton h.spelled)) fun _ _ => spells_pure trivial

/-! ## The synchronizations -/

theorem spells_resolveExpectedContentHash {project : Project} (h : ids.Stored project.id) (sent : Option JsString) :
    Spells ids (fun _ => True) (resolveExpectedContentHash P project sent) := by
  cases sent with
  | some token => exact spells_pure trivial
  | none => exact (spells_secretsList h.spelled).bind fun _ _ => spells_pure trivial

theorem spells_secretsOfContents (h : ids.Stored projectId) (l : List SecretContent) :
    Spells ids (fun secrets => ∀ s ∈ secrets, ids.Spelled s.id ∧ ids.Spelled s.projectId)
      (secretsOfContents projectId l) := by
  induction l with
  | nil => exact spells_pure fun s hs => (List.not_mem_nil hs).elim
  | cons content l ih =>
      refine spells_newSecret.bind fun secret hsecret => ih.bind fun secrets hsecrets => spells_pure fun s hs => ?_
      rcases List.mem_cons.mp hs with rfl | hs
      · rw [hsecret.2]
        exact ⟨hsecret.1, h.spelled⟩
      · exact hsecrets s hs

theorem idless_snapshots : (client.snapshots P).Only Cmd.Idless := only_snapshots rfl

theorem idless_restore {id : JsString} : (client.restore id).Only Cmd.Idless := only_restore rfl

theorem spells_restoreAndApply {expected : JsString} {snapshot : ResticSnapshot} (h : ids.Stored client.project.id) :
    Spells ids (fun _ => True) (restoreAndApply P client expected snapshot) := by
  refine .after idless_restore fun listing => .after (idless_fs _) fun _ => ?_
  have hread : Spells ids (fun secrets => ∀ s ∈ secrets, ids.Spelled s.id ∧ ids.Spelled s.projectId)
      (readSnapshotSecretsForProject P client.project listing) := by
    refine .after (idless_fs _) fun _ => ?_
    split
    · exact spells_fail
    · exact spells_secretsOfContents h _
  refine hread.bind fun secrets hsecrets => ?_
  exact (spells_applySnapshotSection h hsecrets).dbUtilsWithLock.bind fun _ _ => spells_pure trivial

theorem spells_pullSnapshot {expected snapshotId : JsString} (h : ids.Stored client.project.id) :
    Spells ids (fun _ => True) (pullSnapshot P client expected snapshotId) := by
  refine .after idless_snapshots fun snapshots => ?_
  split
  · exact spells_fail
  · exact spells_ite spells_fail (spells_restoreAndApply h)

theorem spells_restoreSnapshot {expected snapshotId : JsString} (h : ids.Stored client.project.id) :
    Spells ids (fun _ => True) (restoreSnapshot P client expected snapshotId) := by
  refine .after idless_snapshots fun snapshots => ?_
  split
  · exact spells_fail
  · exact spells_restoreAndApply h

theorem spells_restoreSnapshotUnlocked {project : Project} {snapshotId : JsString} {sent : Option JsString}
    (h : ids.Stored project.id) :
    Spells ids (fun _ => True) (resticSyncRestoreSnapshotUnlocked P timeouts project snapshotId sent) := by
  refine (spells_rereadProject h).bind fun project h => ?_
  exact (spells_resolveExpectedContentHash h _).bind fun _ _ => (spells_restoreSnapshot h).withWorkDir

theorem spells_pullUnlocked {project : Project} {snapshotId : JsString} {sent : Option JsString}
    (h : ids.Stored project.id) :
    Spells ids (fun _ => True) (resticSyncPullUnlocked P timeouts project snapshotId sent) := by
  refine spells_ite spells_fail ((spells_rereadProject h).bind fun project h => ?_)
  exact (spells_resolveExpectedContentHash h _).bind fun _ _ => (spells_pullSnapshot h).withWorkDir

theorem spells_discardLocalChangesUnlocked {project : Project} {sent : Option JsString} (h : ids.Stored project.id) :
    Spells ids (fun _ => True) (resticSyncDiscardLocalChangesUnlocked P timeouts project sent) :=
  (spells_rereadProject h).bind fun _ h => spells_ite spells_fail (spells_restoreSnapshotUnlocked h)

theorem spells_previewSnapshotContent {target : ResticSnapshot} (h : ids.Stored client.project.id) :
    Spells ids (fun _ => True) (previewSnapshotContent P client target) := by
  refine Spells.withWorkDir (.after idless_restore fun listing => .after (idless_fs _) fun _ => ?_)
  refine .after (idless_fs _) fun _ => ?_
  split
  · exact spells_fail
  · exact (spells_secretsList h.spelled).bind fun _ _ => spells_pure trivial

theorem spells_previewSnapshot {snapshotId : JsString} (h : ids.Stored client.project.id) :
    Spells ids (fun _ => True) (previewSnapshot P client snapshotId) := by
  refine .after idless_snapshots fun snapshots => ?_
  split
  · exact spells_fail
  · exact spells_previewSnapshotContent h

theorem idless_prepareRepository : (prepareRepository P client).Only Cmd.Idless := only_prepareRepository rfl rfl rfl

theorem idless_resolveCreatedSnapshot {createdId : Option JsString} {knownIds : List JsString} :
    (resolveCreatedSnapshot P client createdId knownIds).Only Cmd.Idless :=
  only_resolveCreatedSnapshot (fun _ => rfl) rfl

theorem spells_pushSecrets {pushedBy : Option JsString} (h : ids.Stored client.project.id) :
    Spells ids (fun _ => True) (pushSecrets P client pushedBy) := by
  refine (spells_secretsList h.spelled).bind fun secrets _ => ?_
  refine .after (Prog.Only.foldlM (only_exportSecret fun _ => rfl) _ _) fun dir => ?_
  refine .after idless_prepareRepository fun snapshots => .after only_checkNoConflict fun _ => ?_
  refine .after (only_backup rfl) fun createdId => .after idless_resolveCreatedSnapshot fun created => ?_
  exact (spells_finalizePushSection h).dbUtilsWithLock.bind fun _ _ => spells_pure trivial

end Sections

/-! ## The operations -/

/-- A creation without an id of its own, or with one as it is stored, and a secret route with the project id as it is
stored. -/
def Operation.Spelled (ids : IdColumn) : Operation → Prop
  | .createProject body => Project.stringField body.id = [] ∨ ids.Spelled (Project.stringField body.id)
  | .createSecret projectId _ | .updateSecret projectId _ _ | .updateSecretKey projectId _ _
  | .deleteSecret projectId _ =>
      ids.Spelled projectId
  | _ => True

/-- The operation on a project with the stored spelling of its id. -/
def Operation.respell (ids : IdColumn) : Operation → Operation
  | .deleteProject id => .deleteProject (ids.spell id)
  | .push projectId pushedBy => .push (ids.spell projectId) pushedBy
  | .pull projectId snapshotId contentHash => .pull (ids.spell projectId) snapshotId contentHash
  | .restore projectId snapshotId contentHash => .restore (ids.spell projectId) snapshotId contentHash
  | .discard projectId contentHash => .discard (ids.spell projectId) contentHash
  | .previewPull projectId => .previewPull (ids.spell projectId)
  | .previewRestore projectId snapshotId => .previewRestore (ids.spell projectId) snapshotId
  | .previewDiscard projectId => .previewDiscard (ids.spell projectId)
  | op => op

/-- The programs are the same and spell their ids, or they are before the lookup of one project. -/
def Respelled {α : Type} (ids : IdColumn) (p p' : Op α) : Prop :=
  (p' = p ∧ Spells ids (fun _ => True) p) ∨
    ∃ id next, p = .call (.projectsGet id) next ∧ p' = .call (.projectsGet (ids.spell id)) next ∧
      ∀ a, ids.Answers (.projectsGet id) a → Spells ids (fun _ => True) (next a)

section Operations
variable {α : Type} {ids : IdColumn} {P : Platform} {timeouts : ResticTimeouts} {projectId secretId : JsString}

/-- A route that looks the project up and goes on with its row. -/
theorem respelled_lookup {f : Option Project → Op α}
    (hf : ∀ row, (∀ p ∈ row, ids.Stored p.id) → Spells ids (fun _ => True) (f row)) (id : JsString) :
    Respelled ids (projectsDataGet id >>= f) (projectsDataGet (ids.spell id) >>= f) := by
  refine Or.inr ⟨id, fun a => Prog.bind (Prog.ofExcept a) f, rfl, rfl, fun a ha => ?_⟩
  cases a with
  | error e => exact spells_fail
  | ok row =>
      refine hf row fun p hp => ?_
      obtain rfl : row = some p := hp
      exact ha

theorem respelled_syncRoute {task : Project → Op α} {body : α → ResponseBody}
    (h : ∀ project, ids.Stored project.id → Spells ids (fun _ => True) (task project)) (id : JsString) :
    Respelled ids (syncRoute id task body) (syncRoute (ids.spell id) task body) := by
  refine respelled_lookup (fun row hrow => ?_) id
  cases row with
  | none => exact spells_pure trivial
  | some project =>
      have htask := h project (hrow project rfl)
      exact Spells.tryCatch (htask.bind fun _ _ => spells_pure trivial) fun _ => spells_pure trivial

theorem respelled_pull {snapshotId contentHash : Option JsValue} (id : JsString) :
    Respelled ids (pull P timeouts id snapshotId contentHash)
      (pull P timeouts (ids.spell id) snapshotId contentHash) := by
  refine respelled_lookup (fun row hrow => ?_) id
  cases row with
  | none => exact spells_pure trivial
  | some project =>
      refine spells_ite (spells_pure trivial) (Spells.tryCatch ?_ fun _ => spells_pure trivial)
      exact (spells_pullUnlocked (hrow project rfl)).bind fun _ _ => spells_pure trivial

theorem respelled_deleteProject (id : JsString) :
    Respelled ids (deleteProject id) (deleteProject (ids.spell id)) := by
  refine respelled_lookup (fun row hrow => ?_) id
  cases row with
  | none => exact spells_pure trivial
  | some project =>
      refine (spells_deleteProjectSection (hrow project rfl)).dbUtilsWithLock.bind fun deleted _ => ?_
      exact spells_ite (spells_pure trivial) (spells_pure trivial)

theorem spells_createProject {body : ProjectBody}
    (h : Project.stringField body.id = [] ∨ ids.Spelled (Project.stringField body.id)) :
    Spells ids (fun _ => True) (createProject P body) := by
  refine spells_ite (spells_pure trivial) (spells_uuid.bind fun newId hnew => .after (only_lift.mpr rfl) fun now => ?_)
  have hid : ids.Spelled (Project.fromJson body newId now).id := by
    show ids.Spelled (Project.stringOr body.id newId)
    unfold Project.stringOr
    split_ifs with hnone
    · exact hnew.spelled
    · exact h.resolve_left hnone
  refine (spells_createProjectSection hid).dbUtilsWithLock.bind fun outcome _ => ?_
  cases outcome with
  | nameConflict | targetConflict existingName => exact spells_pure trivial
  | created => exact (spells_secretsHashRefreshForProject hid).bind fun _ _ => spells_pure trivial

/-- The write section of a secret route. -/
theorem spells_secretRoute {lock : JsString} {critical : Op SecretOutcome} (h : Spells ids (fun _ => True) critical) :
    Spells ids (fun _ => True) (Prog.tryCatch
      (do
        let outcome ← projectWriteLocksRun lock critical
        pure outcome.response)
      onUniqueViolation) := by
  refine Spells.tryCatch (h.dbUtilsWithLock.bind fun _ _ => spells_pure trivial) fun e => ?_
  cases e with
  | uniqueViolation => exact spells_pure trivial
  | sync _ | other _ => exact spells_fail

theorem spells_updateSecret {body : SecretBody} (h : ids.Spelled projectId) :
    Spells ids (fun _ => True) (updateSecret P projectId secretId body) := by
  unfold updateSecret
  split
  · exact spells_pure trivial
  · exact spells_ite (spells_pure trivial) (spells_secretRoute (spells_updateSecretSection h))

theorem spells_updateSecretKey {body : SecretBody} (h : ids.Spelled projectId) :
    Spells ids (fun _ => True) (updateSecretKey P projectId secretId body) := by
  refine spells_ite (spells_pure trivial) ?_
  split
  · exact spells_pure trivial
  · exact spells_ite (spells_pure trivial) (spells_secretRoute (spells_updateSecretKeySection h))

/-- **Every operation does what it does for the stored spelling**, if it spells the ids that it goes on with. -/
theorem respelled_serve {op : Operation} (h : op.Spelled ids) :
    Respelled ids (serve P timeouts op) (serve P timeouts (op.respell ids)) := by
  cases op with
  | startUp => exact Or.inl ⟨rfl, spells_secretsHashBackfillAll.bind fun _ _ => spells_pure trivial⟩
  | createProject body => exact Or.inl ⟨rfl, spells_createProject h⟩
  | createSecret projectId body =>
      exact Or.inl ⟨rfl, spells_ite (spells_pure trivial) (spells_secretRoute (spells_createSecretSection h))⟩
  | updateSecret projectId secretId body => exact Or.inl ⟨rfl, spells_updateSecret h⟩
  | updateSecretKey projectId secretId body => exact Or.inl ⟨rfl, spells_updateSecretKey h⟩
  | deleteSecret projectId secretId =>
      exact Or.inl ⟨rfl, (spells_deleteSecretSection h).dbUtilsWithLock.bind fun _ _ => spells_pure trivial⟩
  | deleteProject id => exact respelled_deleteProject id
  | push projectId pushedBy =>
      exact respelled_syncRoute (fun _ hp => (spells_rereadProject hp).bind fun _ h =>
        (spells_pushSecrets h).withWorkDir) _
  | pull projectId snapshotId contentHash => exact respelled_pull _
  | restore projectId snapshotId contentHash =>
      exact respelled_syncRoute (fun _ h => spells_restoreSnapshotUnlocked h) _
  | discard projectId contentHash => exact respelled_syncRoute (fun _ h => spells_discardLocalChangesUnlocked h) _
  | previewPull projectId =>
      refine respelled_syncRoute (fun _ hp => (spells_rereadProject hp).bind fun _ h =>
        .after idless_snapshots fun snapshots => ?_) _
      split
      · exact spells_fail
      · exact spells_previewSnapshotContent h
  | previewRestore projectId snapshotId =>
      exact respelled_syncRoute (fun _ hp => (spells_rereadProject hp).bind fun _ h => spells_previewSnapshot h) _
  | previewDiscard projectId =>
      exact respelled_syncRoute (fun _ hp => (spells_rereadProject hp).bind fun _ h =>
        spells_ite spells_fail (spells_previewSnapshot h)) _

end Operations

end SecretsManager
