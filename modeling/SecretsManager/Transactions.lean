import SecretsManager.Projects.ProjectSections

/-!
# What the transactions change

A transaction changes the secrets of one project at most, and there it does what its section has computed:
the rows afterwards have the contents whose hash it stores. It only inserts rows with the ids that it
names, and a row that it keeps under another content gets a larger version.
-/

namespace SecretsManager

open Js SortedBy Sql

namespace Transaction

/-- The project whose secrets the transaction changes. -/
def writes : Transaction → Option JsString
  | secretsDataAdd secret _ => some secret.projectId
  | secretsDataUpdate _ projectId _ _ _ _ => some projectId
  | secretsDataDelete _ projectId _ => some projectId
  | secretsDataReplaceForProject projectId _ _ => some projectId
  | projectsDataDeleteCascade projectId => some projectId
  | projectsDataAdd _ | projectsDataUpdateSyncState _ _ _ _ _ | projectsDataUpdateCurrentContentHash _ _
  | projectsDataUpdateLastSyncContentHash _ _ => none

/-- The rows that the transaction names belong to the project that it writes. -/
def Confined (tx : Transaction) (t : Tables) : Prop :=
  match tx with
  | secretsDataDelete id projectId _ => ∀ s ∈ t.secrets, s.id = id → s.projectId = projectId
  | secretsDataReplaceForProject projectId secrets _ => ∀ s ∈ secrets, s.projectId = projectId
  | _ => True

/-- The update of the project row leaves the secrets. -/
theorem secrets_run_update (id projectId : JsString) (content : SecretContent) (date : JsString) (version : Nat)
    (hash : JsString) (t : Tables) :
    ((secretsDataUpdate id projectId content date version hash).run t).1.secrets =
      t.secrets.map fun s => if matchesVersion id projectId version s then updatedSecret content date s else s := by
  rw [run]
  dsimp only
  split_ifs <;> rfl

theorem secrets_run_replace (projectId : JsString) (secrets : List Secret) (state : ProjectSyncState) (t : Tables) :
    ((secretsDataReplaceForProject projectId secrets state).run t).1.secrets =
      (t.secrets.filter fun s => s.projectId ≠ projectId) ++ secrets :=
  secrets_foldl_insertSecret secrets (deleteByProject projectId t)

theorem rows_run_update (id projectId : JsString) (content : SecretContent) (date : JsString) (version : Nat)
    (hash : JsString) (t : Tables) (p : JsString) :
    ((secretsDataUpdate id projectId content date version hash).run t).1.rows p =
      (t.rows p).map fun s => if matchesVersion id projectId version s then updatedSecret content date s else s := by
  rw [← rows_updateSecret, run]
  dsimp only
  split_ifs <;> rfl

/-- The rows of another project stay. -/
theorem rows_run_of_ne {tx : Transaction} {t : Tables} (h : tx.Confined t) {p : JsString}
    (hp : tx.writes ≠ some p) : (tx.run t).1.rows p = t.rows p := by
  cases tx with
  | projectsDataAdd project => rfl
  | projectsDataDeleteCascade projectId =>
      have hne : p ≠ projectId := fun h => hp (by rw [h]; rfl)
      exact (rows_deleteByProject projectId t p).trans (if_neg hne)
  | projectsDataUpdateSyncState id snapshotId time lastSync current => rfl
  | projectsDataUpdateCurrentContentHash id hash => rfl
  | projectsDataUpdateLastSyncContentHash id hash => rfl
  | secretsDataAdd secret hash =>
      have hne : secret.projectId ≠ p := fun h => hp (by rw [← h]; rfl)
      exact (rows_insertSecret secret t p).trans (if_neg hne)
  | secretsDataUpdate id projectId content date version hash =>
      have hne : p ≠ projectId := fun h => hp (by rw [h]; rfl)
      rw [rows_run_update]
      refine (List.map_congr_left fun s hs => if_neg ?_).trans (List.map_id _)
      have hproject : s.projectId = p := (Tables.mem_rows.mp hs).2
      simp [matchesVersion, hproject, hne]
  | secretsDataDelete id projectId hash =>
      have hne : p ≠ projectId := fun h => hp (by rw [h]; rfl)
      refine (rows_deleteSecret id t p).trans (List.filter_eq_self.mpr fun s hs => ?_)
      obtain ⟨hs, hproject⟩ := Tables.mem_rows.mp hs
      exact decide_eq_true fun hid => hne (hproject.symm.trans (h s hs hid))
  | secretsDataReplaceForProject projectId secrets state =>
      have hne : p ≠ projectId := fun h => hp (by rw [h]; rfl)
      refine (rows_foldl_insertSecret secrets _ p).trans ?_
      rw [rows_deleteByProject, if_neg hne, List.filter_eq_nil_iff.mpr, List.append_nil]
      intro s hs
      rw [h s hs]
      simpa using hne.symm

/-- A row afterwards is inserted, or was there with the same id; a changed one has a larger version. -/
theorem mem_secrets_run {tx : Transaction} {t : Tables} {s' : Secret} (h : s' ∈ (tx.run t).1.secrets) :
    (s' ∈ t.secrets ∨ s'.id ∈ tx.insertedIds) ∨
      ∃ s ∈ t.secrets, s.id = s'.id ∧ s.projectId = s'.projectId ∧ s.version < s'.version := by
  cases tx with
  | projectsDataAdd project => exact Or.inl (Or.inl h)
  | projectsDataDeleteCascade projectId => exact Or.inl (Or.inl (List.mem_of_mem_filter h))
  | projectsDataUpdateSyncState id snapshotId time lastSync current => exact Or.inl (Or.inl h)
  | projectsDataUpdateCurrentContentHash id hash => exact Or.inl (Or.inl h)
  | projectsDataUpdateLastSyncContentHash id hash => exact Or.inl (Or.inl h)
  | secretsDataAdd secret hash =>
      rcases List.mem_append.mp h with h | h
      · exact Or.inl (Or.inl h)
      · rw [List.mem_singleton.mp h]
        exact Or.inl (Or.inr (List.mem_singleton.mpr rfl))
  | secretsDataUpdate id projectId content date version hash =>
      rw [secrets_run_update] at h
      obtain ⟨s, hs, rfl⟩ := List.mem_map.mp h
      split_ifs
      · exact Or.inr ⟨s, hs, rfl, rfl, Nat.lt_succ_self _⟩
      · exact Or.inl (Or.inl hs)
  | secretsDataDelete id projectId hash => exact Or.inl (Or.inl (List.mem_of_mem_filter h))
  | secretsDataReplaceForProject projectId secrets state =>
      rw [secrets_run_replace] at h
      rcases List.mem_append.mp h with h | h
      · exact Or.inl (Or.inl (List.mem_of_mem_filter h))
      · exact Or.inl (Or.inr (List.mem_map_of_mem h))

/-! ## The project rows -/

/-- What the transaction makes of a project row, by the number of secrets that it changed. -/
def changeRow (tx : Transaction) (n : Nat) (p : Project) : Project :=
  match tx with
  | projectsDataUpdateSyncState id snapshotId time lastSync current =>
      if p.id = id then
        { p with
          lastSyncSnapshotId := snapshotId
          lastSyncSnapshotTime := time
          lastSyncContentHash := lastSync
          currentContentHash := current }
      else p
  | projectsDataUpdateCurrentContentHash id hash =>
      if p.id = id then { p with currentContentHash := hash } else p
  | projectsDataUpdateLastSyncContentHash id hash =>
      if p.id = id then { p with lastSyncContentHash := hash } else p
  | secretsDataAdd secret hash => if p.id = secret.projectId then { p with currentContentHash := hash } else p
  | secretsDataUpdate _ projectId _ _ _ hash =>
      if n = 1 then if p.id = projectId then { p with currentContentHash := hash } else p else p
  | secretsDataDelete _ projectId hash => if p.id = projectId then { p with currentContentHash := hash } else p
  | secretsDataReplaceForProject projectId _ state =>
      if p.id = projectId then
        { p with
          lastSyncSnapshotId := state.snapshotId
          lastSyncSnapshotTime := state.snapshotTime
          lastSyncContentHash := state.contentHash
          currentContentHash := state.contentHash }
      else p
  | projectsDataAdd _ | projectsDataDeleteCascade _ => p

@[simp] theorem changeRow_id (tx : Transaction) (n : Nat) (p : Project) : (tx.changeRow n p).id = p.id := by
  cases tx <;> simp only [changeRow] <;> split_ifs <;> rfl

/-- A project row afterwards is new, or made from one that was there and is not of a deleted project. -/
theorem mem_projects_run {tx : Transaction} {t : Tables} {p' : Project} (h : p' ∈ (tx.run t).1.projects) :
    tx = .projectsDataAdd p' ∨ ∃ p ∈ t.projects, p' = tx.changeRow (tx.run t).2 p ∧
      tx ≠ .projectsDataDeleteCascade p.id := by
  have hmap : ∀ {f : Project → Project}, p' ∈ t.projects.map f → ∃ p ∈ t.projects, p' = f p := by
    intro f h
    obtain ⟨p, hp, rfl⟩ := List.mem_map.mp h
    exact ⟨p, hp, rfl⟩
  cases tx with
  | projectsDataAdd project =>
      rcases List.mem_append.mp h with h | h
      · exact Or.inr ⟨p', h, rfl, fun h => by cases h⟩
      · rw [List.mem_singleton.mp h]
        exact Or.inl rfl
  | projectsDataDeleteCascade projectId =>
      refine Or.inr ⟨p', List.mem_of_mem_filter h, rfl, fun heq => ?_⟩
      have hne : p'.id ≠ projectId := by simpa using List.of_mem_filter h
      cases heq
      exact hne rfl
  | projectsDataUpdateSyncState id snapshotId time lastSync current =>
      obtain ⟨p, hp, hpp⟩ := hmap h
      exact Or.inr ⟨p, hp, hpp, fun h => by cases h⟩
  | projectsDataUpdateCurrentContentHash id hash =>
      obtain ⟨p, hp, hpp⟩ := hmap h
      exact Or.inr ⟨p, hp, hpp, fun h => by cases h⟩
  | projectsDataUpdateLastSyncContentHash id hash =>
      obtain ⟨p, hp, hpp⟩ := hmap h
      exact Or.inr ⟨p, hp, hpp, fun h => by cases h⟩
  | secretsDataAdd secret hash =>
      obtain ⟨p, hp, hpp⟩ := hmap h
      exact Or.inr ⟨p, hp, hpp, fun h => by cases h⟩
  | secretsDataUpdate id projectId content date version hash =>
      rw [run] at h ⊢
      dsimp only at h ⊢
      split_ifs at h with hn
      · obtain ⟨p, hp, hpp⟩ := hmap h
        exact Or.inr ⟨p, hp, by rw [changeRow, if_pos hn]; exact hpp, fun h => by cases h⟩
      · exact Or.inr ⟨p', h, by rw [changeRow, if_neg hn], fun h => by cases h⟩
  | secretsDataDelete id projectId hash =>
      obtain ⟨p, hp, hpp⟩ := hmap h
      exact Or.inr ⟨p, hp, hpp, fun h => by cases h⟩
  | secretsDataReplaceForProject projectId secrets state =>
      have hmem : p' ∈ (secrets.foldl (fun t secret => insertSecret secret t)
          (deleteByProject projectId t)).projects.map
            ((secretsDataReplaceForProject projectId secrets state).changeRow 1) := h
      rw [projects_foldl_insertSecret] at hmem
      obtain ⟨p, hp, hpp⟩ := hmap hmem
      exact Or.inr ⟨p, hp, hpp, fun h => by cases h⟩

/-- Only a deletion removes a project row. -/
theorem project_stays {tx : Transaction} {t : Tables} {p : Project} (hp : p ∈ t.projects)
    (h : tx ≠ .projectsDataDeleteCascade p.id) : ∃ p' ∈ (tx.run t).1.projects, p'.id = p.id := by
  have hupdate : ∀ (id : JsString) (f : Project → Project) (t' : Tables), (∀ q, (f q).id = q.id) →
      t'.projects = t.projects → ∃ p' ∈ (Sql.updateProject id f t').projects, p'.id = p.id := by
    intro id f t' hf hprojects
    refine ⟨if p.id = id then f p else p, List.mem_map.mpr ⟨p, by rwa [hprojects], rfl⟩, ?_⟩
    split_ifs
    · exact hf p
    · rfl
  cases tx with
  | projectsDataAdd project => exact ⟨p, List.mem_append_left _ hp, rfl⟩
  | projectsDataDeleteCascade projectId =>
      refine ⟨p, List.mem_filter.mpr ⟨hp, decide_eq_true fun hid => h ?_⟩, rfl⟩
      rw [hid]
  | projectsDataUpdateSyncState id snapshotId time lastSync current => exact hupdate _ _ _ (fun _ => rfl) rfl
  | projectsDataUpdateCurrentContentHash id hash => exact hupdate _ _ _ (fun _ => rfl) rfl
  | projectsDataUpdateLastSyncContentHash id hash => exact hupdate _ _ _ (fun _ => rfl) rfl
  | secretsDataAdd secret hash => exact hupdate _ _ _ (fun _ => rfl) rfl
  | secretsDataUpdate id projectId content date version hash =>
      rw [run]
      dsimp only
      split_ifs
      · exact hupdate _ _ _ (fun _ => rfl) rfl
      · exact ⟨p, hp, rfl⟩
  | secretsDataDelete id projectId hash => exact hupdate _ _ _ (fun _ => rfl) rfl
  | secretsDataReplaceForProject projectId secrets state =>
      exact hupdate _ _ _ (fun _ => rfl) (projects_foldl_insertSecret secrets (deleteByProject projectId t))

/-- The project whose current content hash the transaction stores, with the hash. -/
def stores : Transaction → Nat → Option (JsString × JsString)
  | secretsDataAdd secret hash, _ => some (secret.projectId, hash)
  | secretsDataUpdate _ projectId _ _ _ hash, n => if n = 1 then some (projectId, hash) else none
  | secretsDataDelete _ projectId hash, _ => some (projectId, hash)
  | secretsDataReplaceForProject projectId _ state, _ => some (projectId, state.contentHash)
  | projectsDataUpdateSyncState id _ _ _ current, _ => some (id, current)
  | projectsDataUpdateCurrentContentHash id hash, _ => some (id, hash)
  | projectsDataAdd _, _ | projectsDataDeleteCascade _, _ | projectsDataUpdateLastSyncContentHash _ _, _ => none

theorem changeRow_currentContentHash_of_stores {tx : Transaction} {n : Nat} {p : Project} {hash : JsString}
    (h : tx.stores n = some (p.id, hash)) : (tx.changeRow n p).currentContentHash = hash := by
  cases tx <;> grind [stores, changeRow]

theorem changeRow_currentContentHash {tx : Transaction} {n : Nat} {p : Project}
    (h : ∀ hash, tx.stores n ≠ some (p.id, hash)) :
    (tx.changeRow n p).currentContentHash = p.currentContentHash := by
  cases tx <;> grind [stores, changeRow]

/-- The project whose synchronization the transaction records, with the snapshot and the hash of its
content. -/
def syncs : Transaction → Option (JsString × JsString × JsString)
  | projectsDataUpdateSyncState id snapshotId _ lastSync _ => some (id, snapshotId, lastSync)
  | secretsDataReplaceForProject projectId _ state => some (projectId, state.snapshotId, state.contentHash)
  | _ => none

theorem changeRow_of_syncs {tx : Transaction} {n : Nat} {p : Project} {snapshotId hash : JsString}
    (h : tx.syncs = some (p.id, snapshotId, hash)) :
    (tx.changeRow n p).lastSyncSnapshotId = snapshotId ∧ (tx.changeRow n p).lastSyncContentHash = hash := by
  cases tx <;> grind [syncs, changeRow]

theorem changeRow_of_not_syncs {tx : Transaction} {n : Nat} {p : Project}
    (h : ∀ snapshotId hash, tx.syncs ≠ some (p.id, snapshotId, hash))
    (hnormalize : ∀ id hash, tx ≠ .projectsDataUpdateLastSyncContentHash id hash) :
    (tx.changeRow n p).lastSyncSnapshotId = p.lastSyncSnapshotId ∧
      (tx.changeRow n p).lastSyncContentHash = p.lastSyncContentHash := by
  cases tx <;> grind [syncs, changeRow]

/-! ## The rows of the written project -/

/-- An update changes one row at most. -/
theorem countP_matchesVersion_le {t : Tables} (h : Distinct Secret.id t.secrets) (id projectId : JsString)
    (version : Nat) : t.secrets.countP (matchesVersion id projectId version) ≤ 1 := by
  have hsub : t.secrets.countP (matchesVersion id projectId version) ≤ t.secrets.countP fun s => s.id = id := by
    refine List.countP_mono_left fun s _ hs => ?_
    simp only [matchesVersion, Bool.and_eq_true, decide_eq_true_eq] at hs
    simpa using hs.1.1
  have hcount : t.secrets.countP (fun s => s.id = id) = (t.secrets.map Secret.id).count id := by
    rw [List.count, List.countP_map]
    refine List.countP_congr fun s _ => ?_
    simp
  rw [hcount] at hsub
  exact hsub.trans (List.nodup_iff_count_le_one.mp h id)

/-- A conditional update that changed no row. -/
theorem rows_run_of_missed {id projectId : JsString} {content : SecretContent} {date : JsString} {version : Nat}
    {hash : JsString} {t : Tables} (hdistinct : Distinct Secret.id t.secrets)
    (hn : ((secretsDataUpdate id projectId content date version hash).run t).2 ≠ 1) :
    ((secretsDataUpdate id projectId content date version hash).run t).1 = t := by
  have hle := countP_matchesVersion_le hdistinct id projectId version
  have hzero : t.secrets.countP (matchesVersion id projectId version) = 0 := by
    have hne : t.secrets.countP (matchesVersion id projectId version) ≠ 1 := hn
    omega
  have hnone := List.countP_eq_zero.mp hzero
  have hsame : Sql.updateSecret id projectId version content date t = t := by
    rw [Sql.updateSecret]
    have hmap : t.secrets.map (fun s => if matchesVersion id projectId version s then
        updatedSecret content date s else s) = t.secrets :=
      (List.map_congr_left fun s hs => if_neg (hnone s hs)).trans (List.map_id _)
    rw [hmap]
  rw [run]
  dsimp only
  rw [hsame, if_neg (by rw [hzero]; decide)]

/-- The rows after an update are those of the list after the change in place, up to dates and versions. -/
theorem contents_rows_update {id projectId : JsString} {content : SecretContent} {date : JsString}
    {version : Nat} {hash : JsString} {t : Tables} (hdistinct : Distinct Secret.id t.secrets) {s : Secret}
    (hs : s ∈ t.rows projectId) (hid : s.id = id)
    (hn : ((secretsDataUpdate id projectId content date version hash).run t).2 = 1) :
    contents (((secretsDataUpdate id projectId content date version hash).run t).1.rows projectId) =
      contents (changeSecret (t.rows projectId) { s with toSecretContent := content }) := by
  -- the changed row is the row of the list, so it has the expected version
  obtain ⟨r, hr, hmatch⟩ := List.countP_pos_iff.mp (show 0 < t.secrets.countP _ by
    rw [show t.secrets.countP (matchesVersion id projectId version) = 1 from hn]; decide)
  simp only [matchesVersion, Bool.and_eq_true, decide_eq_true_eq] at hmatch
  have hrs : r = s := hdistinct.inj hr (Tables.mem_rows.mp hs).1 (hmatch.1.1.trans hid.symm)
  subst hrs
  rw [rows_run_update, changeSecret, contents, contents, List.map_map, List.map_map]
  refine List.map_congr_left fun s' hs' => ?_
  obtain ⟨hs', hproject⟩ := Tables.mem_rows.mp hs'
  simp only [Function.comp]
  by_cases hs'r : s'.id = r.id
  · have heq : s' = r := hdistinct.inj hs' hr hs'r
    subst heq
    rw [if_pos (by simp [matchesVersion, hmatch]), if_pos rfl]
    rfl
  · rw [if_neg hs'r, if_neg]
    simp only [matchesVersion, Bool.and_eq_true, decide_eq_true_eq]
    rintro ⟨⟨h, -⟩, -⟩
    exact hs'r (h.trans hid.symm)

theorem rows_run_replace {projectId : JsString} {secrets : List Secret} {state : ProjectSyncState} {t : Tables}
    (h : ∀ s ∈ secrets, s.projectId = projectId) :
    ((secretsDataReplaceForProject projectId secrets state).run t).1.rows projectId = secrets := by
  refine (rows_foldl_insertSecret secrets _ projectId).trans ?_
  rw [rows_deleteByProject, if_pos rfl, List.nil_append]
  exact List.filter_eq_self.mpr fun s hs => decide_eq_true (h s hs)

theorem project?_run_replace {projectId : JsString} {secrets : List Secret} {state : ProjectSyncState}
    {t : Tables} {p : Project} (h : t.project? projectId = some p) :
    ∃ p', ((secretsDataReplaceForProject projectId secrets state).run t).1.project? projectId = some p' ∧
      p'.lastSyncSnapshotId = state.snapshotId := by
  have hid : p.id = projectId := by simpa using List.find?_some h
  have hprojects : (secrets.foldl (fun t secret => insertSecret secret t)
      (deleteByProject projectId t)).project? projectId = some p := by
    rw [Tables.project?, projects_foldl_insertSecret]
    exact h
  refine ⟨_, (project?_updateProject ?_ _ _).trans (congrArg (Option.map _) hprojects), ?_⟩
  · exact fun _ => rfl
  · dsimp only
    rw [if_pos hid]

end Transaction

/-! ## The hash of rows -/

theorem rowsHash_perm {a b : List Secret} (P : Platform) (ha : UniqueNames (contents a)) (hab : a.Perm b) :
    rowsHash P a = rowsHash P b := by
  have hperm : (contents a).Perm (contents b) := hab.map _
  exact computeSecretsHash_eq_of_contentMap_eq P ha (ha.perm hperm) (contentMap_eq_of_perm ha hperm)

/-- Rows that were listed have the hash of the content with the same map. -/
theorem contentMap_of_rowsHash {P : Platform} (hP : P.HashInjective) {projectId : JsString}
    {db : Db} {rows : List Secret} (hrows : rows.Perm (db.rows projectId)) {content : List SecretContent}
    (hcontent : UniqueNames content) (h : computeSecretsHash P content = rowsHash P rows) :
    contentMap content = contentMap (contents (db.rows projectId)) := by
  have hnames : UniqueNames (contents (db.rows projectId)) := db.valid.uniqueNames projectId
  have hnames' : UniqueNames (contents rows) := hnames.perm (hrows.map _).symm
  rw [(computeSecretsHash_eq_iff hP hcontent hnames').mp h]
  exact contentMap_eq_of_perm hnames' (hrows.map _)

end SecretsManager
