import SecretsManager.Sections

/-!
# The sections of the synchronizations

A confirmation of a pull, a restore or a discard commits exactly one transaction when it succeeds, the
replacement, and none when it fails; the replacement rests on the comparison with the expected hash and on
the restored snapshot. A push commits one record at most, and a preview nothing.
-/

namespace SecretsManager

open Js Interleaving

section Platform
variable {P : Platform} {op : Operation} {v : View} {α : Type}

/-! ## Outcomes -/

/-- A confirmation has committed its replacement, or has failed without a transaction. -/
def Confirmed (r : Except Failure α) (v : View) : Prop :=
  (∃ a projectId secrets state n, r = .ok a ∧
      v.done = [(.secretsDataReplaceForProject projectId secrets state, n)]) ∨
    ∃ e, r = .error e ∧ e.Refuses ∧ v.done = []

theorem confirmed_error {e : Failure} (he : e.Refuses) (hdone : v.done = []) :
    Confirmed (.error e : Except Failure α) v :=
  Or.inr ⟨e, rfl, he, hdone⟩

/-- What a preview has read for its result. -/
def Previewed (P : Platform) (projectId : JsString) (preview : SyncPreviewResult) (v : View) : Prop :=
  ∃ rows listing incoming, v.listed = some (projectId, rows) ∧
    v.restored = some (projectId, preview.snapshotId, listing) ∧
    readSnapshotSecrets P listing = .ok incoming ∧
    preview.toSecretsDiffResult = computeSecretsDiff (contents rows) incoming ∧
    preview.contentHash = rowsHash P rows

/-- A preview commits nothing. The snapshot is the pinned one, if there is one. -/
def PreviewOutcome (P : Platform) (projectId : JsString) (pinned : Option JsString)
    (r : Except Failure SyncPreviewResult) (v : View) : Prop :=
  v.done = [] ∧ ((∃ preview, r = .ok preview ∧ (∀ id ∈ pinned, preview.snapshotId = id) ∧
      Previewed P projectId preview v) ∨
    ∃ e, r = .error e ∧ e.Refuses)

theorem refuses_sync {message : JsString} {statusCode : Nat} {code : Option JsString}
    (h : statusCode ≠ 200) : (Failure.sync ⟨message, statusCode, code⟩).Refuses := h

/-! ## Reading a snapshot -/

theorem readSnapshotEntry_error {entry : JsString × FsNode} {e : ResticSyncError}
    (h : readSnapshotEntry P entry = .error e) : e.statusCode = 422 := by
  unfold readSnapshotEntry at h
  split at h
  · split at h
    · cases h
    · dsimp only at h
      split at h
      · cases h
        rfl
      · split at h
        · cases h
          rfl
        · cases h
  · cases h
  · cases h

theorem readSnapshotSecrets_error {listing : List (JsString × FsNode)} {e : ResticSyncError}
    (h : readSnapshotSecrets P listing = .error e) : e.statusCode = 422 := by
  have hfold : ∀ (secrets : List SecretContent) (e : ResticSyncError),
      listing.foldlM (fun secrets entry => (readSnapshotEntry P entry).map fun s => secrets ++ s.toList)
        secrets = .error e → e.statusCode = 422 := by
    clear h
    induction listing with
    | nil =>
        intro secrets e h
        cases h
    | cons entry listing ih =>
        intro secrets e h
        rw [List.foldlM_cons] at h
        cases hentry : readSnapshotEntry P entry with
        | error e' =>
            rw [hentry] at h
            cases h
            exact readSnapshotEntry_error hentry
        | ok s =>
            rw [hentry] at h
            exact ih _ _ h
  unfold readSnapshotSecrets at h
  split at h
  · rename_i e' hread
    cases h
    exact hfold _ _ hread
  · split_ifs at h
    rw [← Except.error.inj h, noSecretFile]

/-- The new secrets have the contents in their order, distinct new ids and version 1. -/
theorem meets_secretsOfContents {projectId : JsString} {l : List SecretContent}
    {Q : Except Failure (List Secret) → View → Prop}
    (hQ : ∀ secrets ids, contents secrets = l → v.ids ⊆ ids →
      (∀ s ∈ secrets, s.projectId = projectId ∧ s.version = 1 ∧ s.id ∈ ids ∧ s.id ∉ v.ids) →
      (secrets.map Secret.id).Nodup → Q (.ok secrets) { v with ids := ids }) :
    (secretsOfContents projectId l).Meets (sections P op) v Q := by
  induction l generalizing v Q with
  | nil => exact hQ [] v.ids rfl (fun _ h => h) (by simp) List.nodup_nil
  | cons content l ih =>
      rw [secretsOfContents, meets_bind]
      refine meets_newSecret fun id now hid => ?_
      rw [then_ok, meets_bind]
      refine ih fun secrets ids hcontents hids hsecrets hnodup => ?_
      refine hQ (⟨content, id, projectId, now, now, 1⟩ :: secrets) ids ?_ ?_ ?_ ?_
      · rw [contents, List.map_cons]
        exact congrArg (content :: ·) hcontents
      · exact fun x hx => hids (List.mem_cons_of_mem _ hx)
      · refine List.forall_mem_cons.mpr ⟨⟨rfl, rfl, hids (List.mem_cons_self ..), hid⟩, fun s hs => ?_⟩
        obtain ⟨hproject, hversion, hmem, hnew⟩ := hsecrets s hs
        exact ⟨hproject, hversion, hmem, fun h => hnew (List.mem_cons_of_mem _ h)⟩
      · refine List.nodup_cons.mpr ⟨fun hmem => ?_, hnodup⟩
        obtain ⟨s, hs, hsid⟩ := List.mem_map.mp hmem
        exact (hsecrets s hs).2.2.2 (by rw [hsid]; exact List.mem_cons_self ..)

/-! ## Confirmations -/

variable {projectId expected : JsString} {sent pinned : Option JsString}

theorem meets_rereadProject {project : Project} {Q : Except Failure Project → View → Prop}
    (hlock : v.lock = none)
    (hok : ∀ row : Option Project, (row.getD project).id = project.id →
      Q (.ok (row.getD project)) { v with reads := v.reads ++ [row] })
    (herror : ∀ e, DatabaseError e → Q (.error e) v) :
    (rereadProject project).Meets (sections P op) v Q := by
  rw [rereadProject, meets_bind]
  refine meets_projectsDataGet hlock (fun row hrow => ?_) herror
  refine hok row ?_
  cases row with
  | none => rfl
  | some fresh => exact hrow fresh rfl

theorem meets_resolveExpectedContentHash {project : Project} {Q : Except Failure JsString → View → Prop}
    (hlock : v.lock = none) (hlisted : v.listed = none)
    (hok : ∀ expected listed, ({ v with listed := listed } : View).Expected P project.id sent expected →
      Q (.ok expected) { v with listed := listed })
    (herror : ∀ e, DatabaseError e → Q (.error e) v) :
    (resolveExpectedContentHash P project sent).Meets (sections P op) v Q := by
  cases sent with
  | some token => exact hok token v.listed rfl
  | none =>
      rw [resolveExpectedContentHash, meets_bind]
      refine meets_secretsList hlock (Or.inl hlisted) (fun rows _ => ?_) herror
      exact hok _ _ ⟨rows, rfl, rfl⟩

theorem meets_applySnapshotSection {secrets : List Secret} {snapshotId snapshotTime : JsString}
    {Q : Except Failure Unit → View → Prop} (hlock : v.Holds projectId) (hdone : v.done = [])
    (hreplaces : ∀ rows, rowsHash P rows = expected → Replaces P op
      { v with found := some projectId, list := some (projectId, rows) } projectId secrets
      ⟨snapshotId, snapshotTime, rowsHash P secrets⟩)
    (hQ : ∀ r v', v'.lock = v.lock → Confirmed r v' → Q r v') :
    (applySnapshotSection P projectId expected secrets snapshotId snapshotTime).Meets (sections P op) v Q := by
  have hsome : v.lock.isSome = true := by rw [hlock]; rfl
  rw [applySnapshotSection, meets_bind]
  refine meets_projectsDataGet_inside hsome (fun row _ => ?_) fun e he =>
    hQ _ _ rfl (confirmed_error he.refuses hdone)
  rw [then_ok]
  cases row with
  | none => exact hQ _ _ rfl (confirmed_error (refuses_sync (by decide)) hdone)
  | some project =>
      rw [meets_bind]
      refine meets_secretsList_inside hsome (fun rows _ => ?_) fun e he =>
        hQ _ _ rfl (confirmed_error he.refuses hdone)
      rw [then_ok]
      refine meets_ite (fun _ => ?_) fun hexpected => ?_
      · exact hQ _ _ rfl (confirmed_error (refuses_sync (by decide)) hdone)
      · rw [meets_bind]
        refine meets_transact (hreplaces rows (not_not.mp hexpected)) (fun n => ?_) fun e he =>
          hQ _ _ rfl (confirmed_error he.refuses hdone)
        refine hQ _ _ rfl (Or.inl
          ⟨(), projectId, secrets, ⟨snapshotId, snapshotTime, rowsHash P secrets⟩, n, rfl, ?_⟩)
        rw [View.committed, hdone, List.nil_append]

/-- A confirmation that has resolved its expected hash and its snapshot. -/
theorem meets_restoreAndApply {client : ResticClient} {snapshot : ResticSnapshot} (hlock : v.lock = none)
    (hdone : v.done = []) (hconfirms : op.confirms = some (client.project.id, sent))
    (hexpected : v.Expected P client.project.id sent expected) (htarget : v.Targets snapshot.id op) :
    (restoreAndApply P client expected snapshot).Meets (sections P op) v Confirmed := by
  rw [restoreAndApply, meets_bind]
  refine meets_restore (fun listing => ?_) fun e restored he => confirmed_error he hdone
  rw [then_ok, meets_bind]
  refine (harmless_fs _).meets (fun _ => ?_) fun e he => confirmed_error he hdone
  rw [then_ok, meets_bind, readSnapshotSecretsForProject, meets_bind]
  refine (harmless_fs _).meets (fun _ => ?_) fun e he => confirmed_error he hdone
  rw [then_ok]
  cases hread : readSnapshotSecrets P listing with
  | error e =>
      refine confirmed_error (refuses_sync ?_) hdone
      rw [readSnapshotSecrets_error hread]
      decide
  | ok read =>
      refine meets_secretsOfContents fun secrets ids hcontents _ hsecrets hnodup => ?_
      rw [then_ok, meets_bind, applySnapshotSecrets, projectWriteLocksRun]
      refine meets_dbUtilsWithLock hlock ?_ fun e he => confirmed_error he.refuses hdone
      refine meets_applySnapshotSection rfl hdone (fun rows hrows => ?_) fun r v' hv' hr => ⟨hv', ?_⟩
      · exact
          { found := ⟨rfl, rfl⟩
            compared := ⟨sent, rows, hconfirms, ⟨rfl, rfl⟩, by rw [hrows]; exact hexpected⟩
            fresh := fun s hs => ⟨(hsecrets s hs).1, (hsecrets s hs).2.1, (hsecrets s hs).2.2.1⟩
            distinct := hnodup
            content := ⟨listing, rfl, by rw [hread, hcontents]⟩
            hash := rfl
            target := htarget }
      · rcases hr with ⟨_, projectId, secrets', state, n, rfl, hr⟩ | ⟨e, rfl, he, hr⟩
        · exact Or.inl ⟨_, projectId, secrets', state, n, rfl, hr⟩
        · exact confirmed_error he hr

/-- Restores a snapshot that the operation targets; the reads before it are those of the route. -/
theorem meets_restoreSnapshotUnlocked {timeouts : ResticTimeouts} {project : Project} {snapshotId : JsString}
    (hlock : v.lock = none) (hdone : v.done = []) (hlisted : v.listed = none)
    (hconfirms : op.confirms = some (project.id, sent))
    (htarget : ∀ row listed, ({ v with reads := v.reads ++ [row], listed := listed } : View).Targets
      snapshotId op) :
    (resticSyncRestoreSnapshotUnlocked P timeouts project snapshotId sent).Meets (sections P op) v
      Confirmed := by
  rw [resticSyncRestoreSnapshotUnlocked, meets_bind]
  refine meets_rereadProject hlock (fun row hid => ?_) fun e he => confirmed_error he.refuses hdone
  rw [then_ok, meets_bind]
  refine meets_resolveExpectedContentHash hlock hlisted (fun expected listed hexpected => ?_) fun e he =>
    confirmed_error he.refuses hdone
  rw [then_ok]
  refine meets_withWorkDir ?_ fun e he => confirmed_error he hdone
  rw [restoreSnapshot, meets_bind]
  refine harmless_snapshots.meets (fun snapshots => ?_) fun e he => confirmed_error he hdone
  rw [then_ok]
  split
  · exact confirmed_error (refuses_sync (by decide)) hdone
  · rename_i target hfind
    have htarget' : target.id = snapshotId := by simpa using List.find?_some hfind
    refine meets_restoreAndApply hlock hdone ?_ hexpected ?_
    · rw [hid]
      exact hconfirms
    · rw [htarget']
      exact htarget row listed

theorem meets_resticSyncPullUnlocked {timeouts : ResticTimeouts} {project : Project} {snapshotId : JsString}
    (hlock : v.lock = none) (hdone : v.done = []) (hlisted : v.listed = none)
    (hconfirms : op.confirms = some (project.id, sent))
    (htarget : ∀ row listed, ({ v with reads := v.reads ++ [row], listed := listed } : View).Targets
      snapshotId op) :
    (resticSyncPullUnlocked P timeouts project snapshotId sent).Meets (sections P op) v Confirmed := by
  unfold resticSyncPullUnlocked
  refine meets_ite (fun _ => ?_) fun _ => ?_
  · exact confirmed_error (refuses_sync (by decide)) hdone
  · rw [meets_bind]
    refine meets_rereadProject hlock (fun row hid => ?_) fun e he => confirmed_error he.refuses hdone
    rw [then_ok, meets_bind]
    refine meets_resolveExpectedContentHash hlock hlisted (fun expected listed hexpected => ?_) fun e he =>
      confirmed_error he.refuses hdone
    rw [then_ok]
    refine meets_withWorkDir ?_ fun e he => confirmed_error he hdone
    rw [pullSnapshot, meets_bind]
    refine harmless_snapshots.meets (fun snapshots => ?_) fun e he => confirmed_error he hdone
    rw [then_ok]
    split
    · exact confirmed_error (refuses_sync (by decide)) hdone
    · rename_i latest hlatest
      refine meets_ite (fun _ => ?_) fun hsame => ?_
      · exact confirmed_error (refuses_sync (by decide)) hdone
      · refine meets_restoreAndApply hlock hdone ?_ hexpected ?_
        · rw [hid]
          exact hconfirms
        · rw [not_not.mp hsame]
          exact htarget row listed

/-- A discard targets the snapshot of the row that it reads after the route has read the project. -/
theorem meets_resticSyncDiscardLocalChangesUnlocked {timeouts : ResticTimeouts} {project : Project}
    {contentHash : Option JsValue} (hlock : v.lock = none) (hdone : v.done = []) (hlisted : v.listed = none)
    (hreads : v.reads = [some project]) (hsent : sent = readContentHash contentHash)
    (hop : op = .discard project.id contentHash) :
    (resticSyncDiscardLocalChangesUnlocked P timeouts project sent).Meets (sections P op) v Confirmed := by
  rw [resticSyncDiscardLocalChangesUnlocked, meets_bind]
  refine meets_rereadProject hlock (fun row hid => ?_) fun e he => confirmed_error he.refuses hdone
  rw [then_ok]
  refine meets_ite (fun _ => ?_) fun _ => ?_
  · exact confirmed_error (refuses_sync (by decide)) hdone
  · refine meets_restoreSnapshotUnlocked hlock hdone hlisted ?_ fun row' listed => ?_
    · rw [hid, hop, hsent]
      rfl
    · rw [hop]
      exact ⟨project, row, [row'], by rw [hreads]; rfl, rfl⟩

/-! ## Push -/

/-- The files that a push writes are the export of the contents of its list. -/
theorem meets_exportSecrets (secrets : List Secret) (dir : Dir) {Q : Except Failure Dir → View → Prop}
    (hok : ∀ dir', (contents secrets).foldlM
      (fun dir secret => writePrivateJson dir (fileName secret.name) secret.data) dir = some dir' → Q (.ok dir') v)
    (herror : ∀ e, e.Refuses → Q (.error e) v) :
    (secrets.foldlM exportSecret dir).Meets (sections P op) v Q := by
  induction secrets generalizing dir with
  | nil => exact hok dir rfl
  | cons secret secrets ih =>
      rw [List.foldlM_cons, meets_bind, exportSecret, meets_bind]
      refine (harmless_fs _).meets (fun _ => ?_) herror
      rw [then_ok]
      cases hwrite : writePrivateJson dir (fileName secret.name) secret.data with
      | none => exact herror _ (refuses_other _)
      | some dir₁ =>
          refine ih dir₁ fun dir' hdir' => hok dir' ?_
          rw [contents, List.map_cons, List.foldlM_cons, hwrite]
          exact hdir'

theorem harmless_prepareRepository {client : ResticClient} : Harmless P op (prepareRepository P client) := by
  refine harmless_repoInitialized.bind fun initialized => ?_
  dsimp only
  split_ifs
  · exact harmless_init.bind fun _ => harmless_snapshots
  · exact harmless_snapshots

theorem harmless_checkNoConflict {project : Project} {snapshots : List ResticSnapshot} :
    Harmless P op (checkNoConflict P project snapshots) := by
  unfold checkNoConflict ensureNoNewerSnapshot
  split
  · split_ifs
    · exact harmless_throwSync (by decide)
    · exact harmless_throwSync (by decide)
    · exact harmless_pure ()
  · exact harmless_pure ()

theorem harmless_lookupCreated {client : ResticClient} {createdId : JsString} (attempts : Nat) :
    Harmless P op (lookupCreated P client createdId attempts) := by
  induction attempts with
  | zero => exact harmless_pure none
  | succ attempts ih =>
      refine (harmless_snapshot createdId).bind fun found => ?_
      cases found with
      | none => exact ih
      | some created => exact harmless_pure _

theorem harmless_onlyNewSnapshot {knownIds : List JsString} {snapshots : List ResticSnapshot} :
    Harmless P op (onlyNewSnapshot knownIds snapshots) := by
  unfold onlyNewSnapshot
  split
  · exact harmless_pure _
  · exact harmless_throwSync (by decide)

theorem harmless_resolveCreatedSnapshot {client : ResticClient} {createdId : Option JsString}
    {knownIds : List JsString} : Harmless P op (resolveCreatedSnapshot P client createdId knownIds) := by
  unfold resolveCreatedSnapshot
  split
  · refine (harmless_lookupCreated _).bind fun found => ?_
    cases found with
    | some created => exact harmless_pure _
    | none =>
        refine harmless_snapshots.bind fun snapshots => ?_
        split
        · exact harmless_pure _
        · exact harmless_onlyNewSnapshot
  · exact harmless_snapshots.bind fun snapshots => harmless_onlyNewSnapshot

theorem meets_finalizePushSection (hop : op.confirms = none) {observed : JsString} {rows : List Secret} {dir : Dir}
    {created : ResticSnapshot} {Q : Except Failure Unit → View → Prop} (hlock : v.Holds projectId)
    (hlisted : v.listed = some (projectId, rows)) (hbackup : v.backup = some (projectId, dir))
    (hdir : exportSecrets (contents rows) = some dir) (hQ : ∀ r v', v'.lock = v.lock → Q r v') :
    (finalizePushSection P projectId observed (rowsHash P rows) created).Meets (sections P op) v Q := by
  have hsome : v.lock.isSome = true := by rw [hlock]; rfl
  rw [finalizePushSection, meets_bind]
  refine meets_projectsDataGet_inside hsome (fun row _ => ?_) fun e _ => hQ _ _ rfl
  rw [then_ok]
  cases row with
  | none => exact hQ _ _ rfl
  | some fresh =>
      refine meets_ite (fun _ => hQ _ _ rfl) fun _ => ?_
      rw [meets_bind]
      refine meets_secretsList_inside hsome (fun freshSecrets _ => ?_) fun e _ => hQ _ _ rfl
      rw [then_ok, meets_bind]
      refine meets_transact ?_ (fun n => hQ _ _ rfl) fun e _ => hQ _ _ rfl
      exact
        { pushes := hop
          current := ⟨freshSecrets, ⟨hlock, rfl⟩, rfl⟩
          pushed := ⟨rows, dir, hlisted, rfl, hbackup, hdir⟩ }

theorem meets_resticSyncPushUnlocked {timeouts : ResticTimeouts} {project : Project}
    {pushedBy : Option JsString} {Q : Except Failure PushResult → View → Prop} (hop : op.confirms = none)
    (hlock : v.lock = none) (hlisted : v.listed = none) (hQ : ∀ r v', Q r v') :
    (resticSyncPushUnlocked P timeouts project pushedBy).Meets (sections P op) v Q := by
  rw [resticSyncPushUnlocked, meets_bind]
  refine meets_rereadProject hlock (fun row _ => ?_) fun e _ => hQ _ _
  rw [then_ok]
  refine meets_withWorkDir ?_ fun e _ => hQ _ _
  rw [pushSecrets, meets_bind]
  refine meets_secretsList hlock (Or.inl hlisted) (fun rows _ => ?_) fun e _ => hQ _ _
  rw [then_ok, meets_bind]
  refine meets_exportSecrets _ _ (fun dir hdir => ?_) fun e _ => hQ _ _
  rw [then_ok, meets_bind]
  refine harmless_prepareRepository.meets (fun snapshots => ?_) fun e _ => hQ _ _
  rw [then_ok, meets_bind]
  refine harmless_checkNoConflict.meets (fun _ => ?_) fun e _ => hQ _ _
  rw [then_ok, meets_bind]
  refine meets_backup (fun createdId => ?_) fun e _ => hQ _ _
  rw [then_ok, meets_bind]
  refine harmless_resolveCreatedSnapshot.meets (fun created => ?_) fun e _ => hQ _ _
  rw [then_ok, meets_bind, projectWriteLocksRun]
  refine meets_dbUtilsWithLock hlock ?_ fun e _ => hQ _ _
  refine meets_finalizePushSection hop rfl rfl rfl hdir fun r v' hv' => ⟨hv', ?_⟩
  cases r <;> exact hQ _ _

/-! ## Previews -/

theorem meets_previewSnapshotContent {client : ResticClient} {target : ResticSnapshot}
    (hid : client.project.id = projectId) (hlock : v.lock = none) (hdone : v.done = [])
    (hlisted : v.listed = none) (hpinned : ∀ id ∈ pinned, target.id = id) :
    (previewSnapshotContent P client target).Meets (sections P op) v (PreviewOutcome P projectId pinned) := by
  subst hid
  rw [previewSnapshotContent]
  refine meets_withWorkDir ?_ fun e he => ⟨hdone, Or.inr ⟨e, rfl, he⟩⟩
  rw [previewRestored, meets_bind]
  refine meets_restore (fun listing => ?_) fun e restored he => ⟨hdone, Or.inr ⟨e, rfl, he⟩⟩
  rw [then_ok, meets_bind]
  refine (harmless_fs _).meets (fun _ => ?_) fun e he => ⟨hdone, Or.inr ⟨e, rfl, he⟩⟩
  rw [then_ok, meets_bind]
  refine (harmless_fs _).meets (fun _ => ?_) fun e he => ⟨hdone, Or.inr ⟨e, rfl, he⟩⟩
  rw [then_ok]
  cases hread : readSnapshotSecrets P listing with
  | error e =>
      refine ⟨hdone, Or.inr ⟨_, rfl, refuses_sync ?_⟩⟩
      rw [readSnapshotSecrets_error hread]
      decide
  | ok incoming =>
      rw [meets_bind]
      refine meets_secretsList hlock (Or.inl hlisted) (fun rows _ => ?_) fun e he => ⟨hdone, Or.inr ⟨e, rfl, he.refuses⟩⟩
      exact ⟨hdone, Or.inl ⟨_, rfl, hpinned, rows, listing, incoming, rfl, rfl, hread, rfl, rfl⟩⟩

theorem meets_previewSnapshot {client : ResticClient} {snapshotId : JsString}
    (hid : client.project.id = projectId) (hlock : v.lock = none) (hdone : v.done = [])
    (hlisted : v.listed = none) (hpinned : ∀ id ∈ pinned, snapshotId = id) :
    (previewSnapshot P client snapshotId).Meets (sections P op) v (PreviewOutcome P projectId pinned) := by
  rw [previewSnapshot, meets_bind]
  refine harmless_snapshots.meets (fun snapshots => ?_) fun e he => ⟨hdone, Or.inr ⟨e, rfl, he⟩⟩
  rw [then_ok]
  split
  · exact ⟨hdone, Or.inr ⟨_, rfl, refuses_sync (by decide)⟩⟩
  · rename_i target hfind
    have htarget : target.id = snapshotId := by simpa using List.find?_some hfind
    exact meets_previewSnapshotContent hid hlock hdone hlisted (by rwa [htarget])

theorem meets_resticSyncPreviewPullUnlocked {timeouts : ResticTimeouts} {project : Project}
    (hlock : v.lock = none) (hdone : v.done = []) (hlisted : v.listed = none) :
    (resticSyncPreviewPullUnlocked P timeouts project).Meets (sections P op) v
      (PreviewOutcome P project.id none) := by
  rw [resticSyncPreviewPullUnlocked, meets_bind]
  refine meets_rereadProject hlock (fun row hid => ?_) fun e he => ⟨hdone, Or.inr ⟨e, rfl, he.refuses⟩⟩
  rw [then_ok, meets_bind]
  refine harmless_snapshots.meets (fun snapshots => ?_) fun e he => ⟨hdone, Or.inr ⟨e, rfl, he⟩⟩
  rw [then_ok]
  split
  · exact ⟨hdone, Or.inr ⟨_, rfl, refuses_sync (by decide)⟩⟩
  · exact meets_previewSnapshotContent hid hlock hdone hlisted (by simp)

theorem meets_resticSyncPreviewRestoreSnapshotUnlocked {timeouts : ResticTimeouts} {project : Project}
    {snapshotId : JsString} (hlock : v.lock = none) (hdone : v.done = []) (hlisted : v.listed = none) :
    (resticSyncPreviewRestoreSnapshotUnlocked P timeouts project snapshotId).Meets (sections P op) v
      (PreviewOutcome P project.id (some snapshotId)) := by
  rw [resticSyncPreviewRestoreSnapshotUnlocked, meets_bind]
  refine meets_rereadProject hlock (fun row hid => ?_) fun e he => ⟨hdone, Or.inr ⟨e, rfl, he.refuses⟩⟩
  rw [then_ok]
  exact meets_previewSnapshot hid hlock hdone hlisted (by simp)

theorem meets_resticSyncPreviewDiscardLocalChangesUnlocked {timeouts : ResticTimeouts} {project : Project}
    (hlock : v.lock = none) (hdone : v.done = []) (hlisted : v.listed = none) :
    (resticSyncPreviewDiscardLocalChangesUnlocked P timeouts project).Meets (sections P op) v
      (PreviewOutcome P project.id none) := by
  rw [resticSyncPreviewDiscardLocalChangesUnlocked, meets_bind]
  refine meets_rereadProject hlock (fun row hid => ?_) fun e he => ⟨hdone, Or.inr ⟨e, rfl, he.refuses⟩⟩
  rw [then_ok]
  refine meets_ite (fun _ => ?_) fun _ => ?_
  · exact ⟨hdone, Or.inr ⟨_, rfl, refuses_sync (by decide)⟩⟩
  · exact meets_previewSnapshot hid hlock hdone hlisted (by simp)

end Platform

end SecretsManager
