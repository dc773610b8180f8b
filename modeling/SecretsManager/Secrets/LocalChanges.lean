import SecretsManager.Secrets.HashCoherence

/-!
# The local changes of a project

A project stores two hashes: that of its secrets now, and the baseline, that of the snapshot it was last
synchronized with. A push takes the baseline from the set that it exports, whatever edits come during the
backup, and a pull, a restore and a discard take it from the files that they read. So the comparison of the
two hashes tells whether the secrets differ from the snapshot.
-/

namespace SecretsManager

open Js JsObject Interleaving

variable {R : Type} {restic : Restic R} {P : Platform} {timeouts : ResticTimeouts} {op : Operation} {t : Nat}
  {projectId : JsString}

/-- The edits, the synchronizations and the previews. -/
def Operation.usesProject : Operation → Prop
  | .startUp | .createProject _ | .deleteProject _ => False
  | _ => True

/-- No secret of the project has a key `__proto__`. -/
def NoProto (projectId : JsString) (db : Db) : Prop := ∀ s ∈ db.rows projectId, protoKey ∉ s.data.keys

/-- When the event records a push, the recorded snapshot has the files that the push has backed up. -/
def RecordsOwnSnapshot (restic : Restic R) (earlier : List (ServerEvent R)) (e : ServerEvent R) : Prop :=
  ∀ projectId snapshotId time lastSync current n dir,
    committed? e = some (.projectsDataUpdateSyncState projectId snapshotId time lastSync current, n) →
    (viewAfter earlier).backup = some (projectId, dir) →
    restic.snapshot? e.before.repository projectId snapshotId = some dir

/-! ## The invariant -/

/-- The secrets can be exported, the current hash is theirs, and the baseline is the hash of the last
synchronized snapshot. -/
structure Tracks (P : Platform) (restic : Restic R) (projectId : JsString) (w : World R) : Prop where
  storable : ∀ s ∈ w.db.rows projectId, s.toSecretContent.Storable
  noProto : NoProto projectId w.db
  current : ∀ p ∈ w.db.projects, p.id = projectId → p.currentContentHash = rowsHash P (w.db.rows projectId)
  synced : ∀ p ∈ w.db.projects, p.id = projectId → p.lastSyncSnapshotId ≠ [] → ∃ content,
    SnapshotContent P restic w projectId p.lastSyncSnapshotId content ∧
      p.lastSyncContentHash = computeSecretsHash P content

theorem Tracks.of_db {w w' : World R} (h : Tracks P restic projectId w) (hdb : w'.db = w.db)
    (hkeeps : restic.Keeps w w') : Tracks P restic projectId w' where
  storable := by rw [hdb]; exact h.storable
  noProto := by rw [hdb]; exact h.noProto
  current := by rw [hdb]; exact h.current
  synced p hp hid hsynced := by
    rw [hdb] at hp
    obtain ⟨content, hcontent, hhash⟩ := h.synced p hp hid hsynced
    exact ⟨content, hcontent.kept hkeeps, hhash⟩

/-- The flag under the invariant. -/
theorem Tracks.computeHasLocalChanges_iff (hP : P.HashInjective) (hdigest : ∀ text, P.sha256 text ≠ [])
    {w : World R} (h : Tracks P restic projectId w) {p : Project} (hp : w.db.project? projectId = some p)
    {content : List SecretContent} (hcontent : SnapshotContent P restic w projectId p.lastSyncSnapshotId content)
    (hsynced : p.lastSyncSnapshotId ≠ []) :
    computeHasLocalChanges p (w.db.rows projectId).length = true ↔
      contentMap (contents (w.db.rows projectId)) ≠ contentMap content := by
  obtain ⟨hmem, hid⟩ := (Tables.project?_eq_some w.db.valid).mp hp
  obtain ⟨content', hcontent', hbaseline⟩ := h.synced p hmem hid hsynced
  obtain rfl := hcontent.unique hcontent'
  have hcurrent := h.current p hmem hid
  have hne : p.lastSyncContentHash ≠ [] := by
    rw [hbaseline]
    exact hdigest _
  have hne' : p.currentContentHash ≠ [] := by
    rw [hcurrent]
    exact hdigest _
  rw [computeHasLocalChanges, if_neg hsynced, if_neg hne, if_neg hne', decide_eq_true_eq, hbaseline, hcurrent, ne_comm]
  exact not_congr (computeSecretsHash_eq_iff hP (w.db.valid.uniqueNames projectId) hcontent.names)

/-! ## One transaction -/

section Transaction
variable {v : View} {w : World R} {tx : Transaction} {db : Db} {n : Nat} {snapshotId hash : JsString}

/-- The secrets that an operation writes can be exported. -/
theorem storable_run (hk : Knows restic t op v w) (hallows : AllowsTransaction P op v tx)
    (hrun : tx.run w.db.toTables = (db.toTables, n))
    (h : ∀ s ∈ w.db.rows projectId, s.toSecretContent.Storable) :
    ∀ s ∈ db.rows projectId, s.toSecretContent.Storable := by
  have hrows : db.rows projectId = (tx.run w.db.toTables).1.rows projectId := by rw [hrun]
  rw [hrows]
  by_cases hwrites : tx.writes = some projectId
  · cases tx with
    | secretsDataAdd secret hash =>
        cases hwrites
        have hadded := (Sql.rows_insertSecret secret w.db.toTables secret.projectId).trans (if_pos rfl)
        intro s hs
        rw [show (Transaction.run (.secretsDataAdd secret hash) w.db.toTables).1.rows secret.projectId = _
          from hadded] at hs
        rcases List.mem_append.mp hs with hs | hs
        · exact h s hs
        · rw [List.mem_singleton.mp hs]
          exact hallows.2.1
    | secretsDataUpdate id projectId' content date version hash =>
        cases hwrites
        obtain ⟨rows, s₀, hlists, hs₀, -, hstorable, -⟩ := hallows.row
        have hcontent := hstorable (h s₀ ((hk.list hlists).mem_iff.mp hs₀))
        intro s hs
        rw [Transaction.rows_run_update] at hs
        obtain ⟨s', hs', rfl⟩ := List.mem_map.mp hs
        split_ifs
        · exact hcontent
        · exact h s' hs'
    | secretsDataDelete id projectId' hash =>
        cases hwrites
        have hdeleted := Sql.rows_deleteSecret id w.db.toTables projectId
        intro s hs
        rw [show (Transaction.run (.secretsDataDelete id projectId hash) w.db.toTables).1.rows projectId = _
          from hdeleted] at hs
        exact h s (List.mem_of_mem_filter hs)
    | secretsDataReplaceForProject projectId' secrets state =>
        cases hwrites
        obtain ⟨listing, -, hread⟩ := hallows.content
        rw [Transaction.rows_run_replace fun s hs => (hallows.fresh s hs).1]
        exact fun s hs => readSnapshotSecrets_storable hread _ (List.mem_map_of_mem hs)
    | projectsDataDeleteCascade projectId' =>
        cases hwrites
        have hnone := (Sql.rows_deleteByProject projectId w.db.toTables projectId).trans (if_pos rfl)
        intro s hs
        rw [show (Transaction.run (.projectsDataDeleteCascade projectId) w.db.toTables).1.rows projectId = _
          from hnone] at hs
        cases hs
    | _ => cases hwrites
  · rw [Transaction.rows_run_of_ne (allows_confined hk hallows) hwrites]
    exact h

/-- The listed secrets of a push. -/
theorem listed_of_tracks {earlier : List (ServerEvent R)} {admits : Operation → Prop} {rows : List Secret}
    (h : Lawful P timeouts restic admits t op earlier) (hpast : ∀ x ∈ earlier, Tracks P restic projectId x.before)
    (hlisted : (viewAfter earlier).listed = some (projectId, rows)) :
    UniqueNames (contents rows) ∧ (∀ s ∈ contents rows, s.Storable) ∧ ∀ s ∈ contents rows, protoKey ∉ s.data.keys := by
  obtain ⟨start, w₁, w₂, rest, hsplit, -⟩ := listed_viewAfter hlisted
  have hexec : Exec restic t w₁ (.secretsList projectId) (.ok rows) w₂ := (h start _ rest hsplit).exec
  have hrows := exec_listed hexec
  have htracks : Tracks P restic projectId w₁ :=
    hpast ⟨w₁, .secretsList projectId, .ok rows, w₂⟩ (by rw [hsplit]; simp)
  refine ⟨(w₁.db.valid.uniqueNames projectId).perm (hrows.map _).symm, fun s hs => ?_, fun s hs => ?_⟩
  · obtain ⟨row, hrow, rfl⟩ := List.mem_map.mp hs
    exact htracks.storable row (hrows.mem_iff.mp hrow)
  · obtain ⟨row, hrow, rfl⟩ := List.mem_map.mp hs
    exact htracks.noProto row (hrows.mem_iff.mp hrow)

/-- A recorded synchronization has the hash of the content of its snapshot as the baseline. -/
theorem content_of_syncs (hparse : ∀ data, P.ParsesBack data) (hf : restic.Faithful) {admits : Operation → Prop}
    {earlier : List (ServerEvent R)} {w' : World R}
    (h : Lawful P timeouts restic admits t op (earlier ++ [⟨w, .transact tx, .ok n, w'⟩]))
    (hown : RecordsOwnSnapshot restic earlier ⟨w, .transact tx, .ok n, w'⟩)
    (hpast : ∀ x ∈ earlier, Tracks P restic projectId x.before)
    (hsyncs : tx.syncs = some (projectId, snapshotId, hash)) :
    ∃ content, SnapshotContent P restic w projectId snapshotId content ∧ hash = computeSecretsHash P content := by
  have hhappened := h.last
  have hexec : Exec restic t w (.transact tx) (.ok n) w' := hhappened.exec
  have hk : Knows restic t op (viewAfter earlier) w := hhappened.assert
  have hallows : AllowsTransaction P op (viewAfter earlier) tx := hhappened.allowed
  cases tx with
  | projectsDataUpdateSyncState id snapshotId' time lastSync current =>
      cases hsyncs
      obtain ⟨rows, dir, hlisted, rfl, hbackup, hexport⟩ := hallows.pushed
      obtain ⟨hnames, hstorable, hproto⟩ := listed_of_tracks h.of_append hpast hlisted
      obtain ⟨content, hread, hcontent⟩ :=
        readSnapshotSecrets_exported hnames hstorable (fun s _ => hparse s.data) hproto hexport
      have hdir := hown projectId snapshotId time _ current n dir rfl hbackup
      refine ⟨content, ⟨dir, hdir, hread⟩, ?_⟩
      exact computeSecretsHash_eq_of_contentMap_eq P hnames (uniqueNames_readSnapshotSecrets dir.distinct hread)
        hcontent.symm
  | secretsDataReplaceForProject projectId' secrets state =>
      cases hsyncs
      obtain ⟨-, content, hcontent, hmap⟩ := applied_of_replaces hf hk hallows hexec
      refine ⟨content, hcontent, ?_⟩
      have hrows : w'.db.rows projectId = secrets := by
        have hreplaced : ((Transaction.secretsDataReplaceForProject projectId secrets state).run
            w.db.toTables).1.rows projectId = secrets :=
          Transaction.rows_run_replace fun s hs => (hallows.fresh s hs).1
        rwa [(exec_committed hexec).1] at hreplaced
      rw [hallows.hash, ← hrows]
      exact computeSecretsHash_eq_of_contentMap_eq P (w'.db.valid.uniqueNames projectId) hcontent.names hmap
  | _ => cases hsyncs

end Transaction

/-! ## Every event -/

/-- Every event of an operation that uses the project keeps the invariant. -/
theorem Lawful.tracks (hparse : ∀ data, P.ParsesBack data) (hf : restic.Faithful)
    {earlier : List (ServerEvent R)} {e : ServerEvent R}
    (h : Lawful P timeouts restic Operation.usesProject t op (earlier ++ [e]))
    (hown : RecordsOwnSnapshot restic earlier e) (hproto : NoProto projectId e.after.db)
    (hpast : ∀ x ∈ earlier, Tracks P restic projectId x.before) (hbefore : Tracks P restic projectId e.before) :
    Tracks P restic projectId e.after := by
  have hhappened := h.last
  have hkeeps : restic.Keeps e.before e.after := keeps_exec hf hhappened.exec
  cases hcommitted : committed? e with
  | none => exact hbefore.of_db (exec_db hhappened.exec hcommitted) hkeeps
  | some x =>
      obtain ⟨tx, n⟩ := x
      obtain ⟨w, w', rfl⟩ := committed?_eq_some hcommitted
      have hexec : Exec restic t w (.transact tx) (.ok n) w' := hhappened.exec
      have hk : Knows restic t op (viewAfter earlier) w := hhappened.assert
      have hallows : AllowsTransaction P op (viewAfter earlier) tx := hhappened.allowed
      have hadmits : op.usesProject := hhappened.admits
      have hrefreshes : op.refreshes ≠ true := by cases op <;> simp_all [Operation.usesProject, Operation.refreshes]
      have hrun := (exec_committed hexec).1
      have hrow : ∀ p' ∈ w'.db.projects, ∃ p ∈ w.db.projects, p' = tx.changeRow n p ∧
          tx ≠ .projectsDataDeleteCascade p.id := by
        intro p' hp'
        have hmem : p' ∈ (tx.run w.db.toTables).1.projects := by rwa [hrun]
        rcases Transaction.mem_projects_run hmem with rfl | ⟨p, hp, hpp, hdelete⟩
        · exact absurd hallows.1 hrefreshes
        · exact ⟨p, hp, by rw [hpp, hrun], hdelete⟩
      refine
        { storable := storable_run hk hallows hrun hbefore.storable
          noProto := hproto
          current := fun p' hp' hid => ?_
          synced := fun p' hp' hid hsynced => ?_ }
      · obtain ⟨p, hp, rfl, hdelete⟩ := hrow p' hp'
        rw [Transaction.changeRow_id] at hid
        subst hid
        by_cases hstores : ∃ hash, tx.stores n = some (p.id, hash)
        · obtain ⟨hash, hstores⟩ := hstores
          rw [Transaction.changeRow_currentContentHash_of_stores hstores]
          refine rowsHash_of_stores hk hallows hrun hstores fun id hash heq => ?_
          subst heq
          exact hrefreshes hallows.1
        · have hnone : ∀ hash, tx.stores n ≠ some (p.id, hash) := fun hash heq => hstores ⟨hash, heq⟩
          rw [Transaction.changeRow_currentContentHash hnone]
          rw [show w'.db.rows p.id = _ from rows_of_not_stores hk hallows hrun hnone hdelete]
          exact hbefore.current p hp rfl
      · obtain ⟨p, hp, rfl, hdelete⟩ := hrow p' hp'
        rw [Transaction.changeRow_id] at hid
        subst hid
        by_cases hsyncs : ∃ snapshotId hash, tx.syncs = some (p.id, snapshotId, hash)
        · obtain ⟨snapshotId, hash, hsyncs⟩ := hsyncs
          obtain ⟨hsnapshot, hbaseline⟩ := Transaction.changeRow_of_syncs (n := n) hsyncs
          rw [hsnapshot, hbaseline]
          obtain ⟨content, hcontent, hhash⟩ := content_of_syncs hparse hf h hown hpast hsyncs
          exact ⟨content, hcontent.kept hkeeps, hhash⟩
        · have hnone : ∀ snapshotId hash, tx.syncs ≠ some (p.id, snapshotId, hash) := fun snapshotId hash heq =>
            hsyncs ⟨snapshotId, hash, heq⟩
          have hnormalize : ∀ id hash, tx ≠ .projectsDataUpdateLastSyncContentHash id hash := by
            rintro id hash rfl
            exact hrefreshes hallows
          obtain ⟨hsnapshot, hbaseline⟩ := Transaction.changeRow_of_not_syncs (n := n) hnone hnormalize
          rw [hsnapshot] at hsynced ⊢
          rw [hbaseline]
          obtain ⟨content, hcontent, hhash⟩ := hbefore.synced p hp rfl hsynced
          exact ⟨content, hcontent.kept hkeeps, hhash⟩

/-! ## Runs from a project that was never synchronized -/

/-- The project was never synchronized, its current hash is that of its secrets, and the routes could have
stored these. -/
structure NeverSynced (P : Platform) (projectId : JsString) (db : Db) : Prop where
  storable : ∀ s ∈ db.rows projectId, s.toSecretContent.Storable
  unsynced : ∀ p ∈ db.projects, p.id = projectId → p.lastSyncSnapshotId = []
  current : ∀ p ∈ db.projects, p.id = projectId → p.currentContentHash = rowsHash P (db.rows projectId)

/-- What a run is assumed to do: a push records its own snapshot, and no secret gets a key `__proto__`. -/
def Assumed (restic : Restic R) (projectId : JsString)
    (cfg : Config (World R) Cmd Cmd.Answer Failure Response Operation) : Prop :=
  System.Past (fun _ _ earlier e => RecordsOwnSnapshot restic earlier e ∧ NoProto projectId e.after.db) cfg

theorem tracks_reachable (hparse : ∀ data, P.ParsesBack data) (hf : restic.Faithful) {db : Db} {repository : R}
    (hstart : NeverSynced P projectId db) (hproto : NoProto projectId db)
    {cfg : Config (World R) Cmd Cmd.Answer Failure Response Operation}
    (h : (server P timeouts restic Operation.usesProject).Reachable (.initial db repository) cfg)
    (hassumed : Assumed restic projectId cfg) : Tracks P restic projectId cfg.world := by
  have hinitial : Tracks P restic projectId (World.initial db repository) :=
    { storable := hstart.storable
      noProto := hproto
      current := hstart.current
      synced := fun p hp hid hsynced => absurd (hstart.unsynced p hp hid) hsynced }
  refine ((serverOutline P timeouts restic Operation.usesProject).invariant (J := Tracks P restic projectId)
    (fun hlawful hassumed hpast hbefore => ?_) ?_ (inv_initial db repository) hinitial h hassumed).1
  · exact Lawful.tracks hparse hf hlawful hassumed.1 hassumed.2 hpast hbefore
  · rintro w w' - ⟨r, hr, rfl⟩ hw
    exact hw.of_db rfl fun _ _ _ => hf.outside hr

/-- On the server that takes the ids as stored, the flag tells whether the secrets differ from the snapshot. -/
theorem server_hasLocalChanges (hP : P.HashInjective) (hdigest : ∀ text, P.sha256 text ≠ [])
    (hparse : ∀ data, P.ParsesBack data) (hf : restic.Faithful) {db : Db} {repository : R}
    (hstart : NeverSynced P projectId db) (hproto : NoProto projectId db)
    {cfg : Config (World R) Cmd Cmd.Answer Failure Response Operation}
    (h : (server P timeouts restic Operation.usesProject).Reachable (.initial db repository) cfg)
    (hassumed : Assumed restic projectId cfg) {p : Project} (hp : cfg.world.db.project? projectId = some p) :
    (computeHasLocalChanges p (cfg.world.db.rows projectId).length = true ↔
      (p.lastSyncSnapshotId = [] ∧ 0 < (cfg.world.db.rows projectId).length) ∨
        (p.lastSyncSnapshotId ≠ [] ∧ ∃ content,
          SnapshotContent P restic cfg.world projectId p.lastSyncSnapshotId content ∧
          contentMap (contents (cfg.world.db.rows projectId)) ≠ contentMap content)) ∧
      (p.lastSyncSnapshotId ≠ [] → ∃ content,
        SnapshotContent P restic cfg.world projectId p.lastSyncSnapshotId content) := by
  have htracks := tracks_reachable hparse hf hstart hproto h hassumed
  obtain ⟨hmem, hid⟩ := (Tables.project?_eq_some cfg.world.db.valid).mp hp
  by_cases hsynced : p.lastSyncSnapshotId = []
  · refine ⟨?_, fun hne => absurd hsynced hne⟩
    rw [computeHasLocalChanges, if_pos hsynced, decide_eq_true_eq]
    exact ⟨fun hlen => Or.inl ⟨hsynced, hlen⟩, fun hor => hor.elim And.right fun hne => absurd hsynced hne.1⟩
  · obtain ⟨content, hcontent, -⟩ := htracks.synced p hmem hid hsynced
    refine ⟨?_, fun _ => ⟨content, hcontent⟩⟩
    rw [htracks.computeHasLocalChanges_iff hP hdigest hp hcontent hsynced]
    constructor
    · exact fun hne => Or.inr ⟨hsynced, content, hcontent, hne⟩
    · rintro (⟨hnone, -⟩ | ⟨-, content', hcontent', hne⟩)
      · exact absurd hnone hsynced
      · rwa [hcontent.unique hcontent']

theorem spellingFree_assumed (restic : Restic R) (projectId : JsString) (ids : IdColumn) :
    SpellingFree ids fun earlier e => RecordsOwnSnapshot restic earlier e ∧ NoProto projectId e.after.db where
  earlier := by
    intro earlier e
    unfold RecordsOwnSnapshot
    rw [viewAfter_spellTrace]
  event := by
    intro earlier e
    unfold RecordsOwnSnapshot
    rw [committed?_spellEvent, before_spellEvent, after_spellEvent]

theorem usesProject_respell {ids : IdColumn} (h : op.usesProject) : (op.respell ids).usesProject := by
  cases op <;> exact h

/-- **The local-changes flag is exact.** On a database whose ids the requests spell as it stores them: in every state of
a run of edits, pushes, pulls, restores and discards, interleaved in any way, the flag is set if and only if the project
was never synchronized and holds a secret, or was synchronized and its secrets have another content than the snapshot,
which can be read. -/
theorem hasLocalChanges_exact {ids : IdColumn} (hP : P.HashInjective) (hdigest : ∀ text, P.sha256 text ≠ [])
    (hparse : ∀ data, P.ParsesBack data) (hf : restic.Faithful) {db : Db} (hstored : db.toTables.Stored ids)
    {repository : R} (hstart : NeverSynced P projectId db) (hproto : NoProto projectId db)
    {cfg : Config (World R) Cmd Cmd.Answer Failure Response Operation}
    (h : (serverOn ids P timeouts restic fun op => op.usesProject ∧ op.Spelled ids).Reachable
      (.initial db repository) cfg)
    (hassumed : Assumed restic projectId cfg) {p : Project} (hp : cfg.world.db.project? projectId = some p) :
    (computeHasLocalChanges p (cfg.world.db.rows projectId).length = true ↔
      (p.lastSyncSnapshotId = [] ∧ 0 < (cfg.world.db.rows projectId).length) ∨
        (p.lastSyncSnapshotId ≠ [] ∧ ∃ content,
          SnapshotContent P restic cfg.world projectId p.lastSyncSnapshotId content ∧
          contentMap (contents (cfg.world.db.rows projectId)) ≠ contentMap content)) ∧
      (p.lastSyncSnapshotId ≠ [] → ∃ content,
        SnapshotContent P restic cfg.world projectId p.lastSyncSnapshotId content) := by
  obtain ⟨cfg', h', hbeside⟩ := serverOn_mirrored Operation.usesProject (fun _ hop => hop.2)
    (fun _ hop => usesProject_respell hop.1) hstored h
  have hassumed' : Assumed restic projectId cfg' :=
    (past_iff (spellingFree_assumed restic projectId ids) hbeside).mpr hassumed
  rw [← hbeside.world] at hp ⊢
  exact server_hasLocalChanges hP hdigest hparse hf hstart hproto h' hassumed' hp

section Example

def neverSyncedDb : Db where
  projects :=
    [{ exampleProject with lastSyncSnapshotId := [], lastSyncSnapshotTime := [], currentContentHash := hash1 }]
  secrets := [exampleSecret "a" "1" 1]
  valid := by decide

def keyBody : SecretBody where
  name := none
  data := none
  version := some (.num ⟨js "1", some 1⟩)
  key := some (.str (js "A"))
  value := some (.str (js "2"))

/-- An edit between the backup of a push and its record. -/
def editedPushMoves : List (Move Operation JsString) :=
  .spawn (.push (js "p") none) :: steps 0 9 ++ .spawn (.updateSecretKey (js "p") (js "a") keyBody) :: steps 1 6 ++
    steps 0 7

/-- Whether the event, if it records a push, finds the snapshot of its backup. -/
def recordsBackup (v : View) (e : ServerEvent Snapshots) : Bool :=
  match committed? e, v.backup with
  | some (.projectsDataUpdateSyncState projectId snapshotId _ _ _, _), some (id, dir) =>
      id ≠ projectId || (e.before.repository.files? snapshotId).map Dir.entries = some dir.entries
  | _, _ => true

theorem recordsOwnSnapshot_of_recordsBackup {earlier : List (ServerEvent Snapshots)} {e : ServerEvent Snapshots}
    (h : recordsBackup (viewAfter earlier) e = true) : RecordsOwnSnapshot Snapshots.restic earlier e := by
  intro projectId snapshotId time lastSync current n dir hcommitted hbackup
  rw [recordsBackup, hcommitted, hbackup] at h
  simp only [ne_eq, not_true_eq_false, decide_false, Bool.false_or, decide_eq_true_eq] at h
  obtain ⟨dir', hdir', hentries⟩ := Option.map_eq_some_iff.mp h
  obtain ⟨entries, hdistinct⟩ := dir
  obtain ⟨entries', hdistinct'⟩ := dir'
  obtain rfl : entries' = entries := hentries
  exact hdir'

def withoutProto (projectId : JsString) (e : ServerEvent Snapshots) : Bool :=
  (e.after.db.rows projectId).all fun s => protoKey ∉ s.data.keys

/-- Whether the events of the run are as a run is assumed to go. -/
def goesAsAssumed (projectId : JsString) (cfg : Config (World Snapshots) Cmd Cmd.Answer Failure Response Operation) :
    Bool :=
  cfg.threads.all fun th => checkEvents (fun v e => recordsBackup v e && withoutProto projectId e) .start th.trace

theorem assumed_of_goesAsAssumed {cfg : Config (World Snapshots) Cmd Cmd.Answer Failure Response Operation}
    (h : goesAsAssumed projectId cfg = true) : Assumed Snapshots.restic projectId cfg := by
  refine past_of_checkEvents h fun earlier e hcheck => ?_
  obtain ⟨hrecords, hproto⟩ := Bool.and_eq_true_iff.mp hcheck
  exact ⟨recordsOwnSnapshot_of_recordsBackup hrecords, fun s hs =>
    of_decide_eq_true (List.all_eq_true.mp hproto s hs)⟩

theorem hasLocalChanges_exact_editedPush :
    ∃ cfg p, (serverOn .text runPlatform exampleTimeouts Snapshots.restic fun op =>
        op.usesProject ∧ op.Spelled .text).Reachable (.initial neverSyncedDb []) cfg ∧
      cfg.world.db.project? (js "p") = some p ∧ p.lastSyncSnapshotId = js "s1" ∧
      computeHasLocalChanges p (cfg.world.db.rows (js "p")).length = true ∧
      ∃ content, SnapshotContent runPlatform Snapshots.restic cfg.world (js "p") (js "s1") content ∧
        contentMap (contents (cfg.world.db.rows (js "p"))) ≠ contentMap content := by
  obtain ⟨cfg, hplay, hcheck⟩ : ∃ cfg, playOn .text editedPushMoves (.initial neverSyncedDb []) = some cfg ∧
      goesAsAssumed (js "p") cfg = true :=
    Option.map_eq_some_iff.mp rfl
  have hrow : (playOn .text editedPushMoves (.initial neverSyncedDb [])).map (fun cfg =>
      (cfg.world.db.project? (js "p")).map fun p => (p.lastSyncSnapshotId,
        computeHasLocalChanges p (cfg.world.db.rows (js "p")).length)) = some (some (js "s1", true)) := rfl
  rw [hplay, Option.map_some, Option.some.injEq] at hrow
  obtain ⟨p, hp, hrow⟩ := Option.map_eq_some_iff.mp hrow
  obtain ⟨hsynced, hflag⟩ := Prod.mk.inj hrow
  have hadmits : ∀ op, Move.spawn op ∈ editedPushMoves → op.usesProject ∧ op.Spelled .text := by
    intro op hop
    simp only [editedPushMoves, steps, List.mem_append, List.mem_cons, List.mem_replicate, Move.spawn.injEq,
      reduceCtorEq, and_false, or_false] at hop
    rcases hop with rfl | rfl
    · exact ⟨trivial, trivial⟩
    · exact ⟨trivial, IdColumn.spelled_text rfl⟩
  have hreachable := playOn_reachable hadmits hplay
  have hstart : NeverSynced runPlatform (js "p") neverSyncedDb :=
    ⟨by decide, by decide, fun p hp _ => by rw [List.mem_singleton.mp hp]; rfl⟩
  have hexact := hasLocalChanges_exact hashInjective_runPlatform digest_runPlatform parsesBack_runPlatform
    Snapshots.faithful_restic (by decide) hstart (by unfold NoProto; decide) hreachable
    (assumed_of_goesAsAssumed hcheck) hp
  refine ⟨cfg, p, hreachable, hp, hsynced, hflag, ?_⟩
  rcases hexact.1.mp hflag with ⟨hnone, -⟩ | ⟨-, hcontent⟩
  · rw [hsynced] at hnone
    cases hnone
  · rwa [hsynced] at hcontent

def secretUuid : JsString := js "16fd2706-8baf-433b-82eb-8c7fada847da"

def otherUuid : JsString := js "886313e1-3b8a-5372-9b90-0c9aee199e5d"

def uuidDb : Db where
  projects :=
    [{ exampleProject with
      id := lowerId
      lastSyncSnapshotId := []
      lastSyncSnapshotTime := []
      currentContentHash := hash1 }]
  secrets := [{ exampleSecret "a" "1" 1 with id := secretUuid, projectId := lowerId }]
  valid := by decide

def unchangedBody : SecretBody where
  name := some (.str (js "api"))
  data := some (exampleData "1").toJson
  version := some (.num ⟨js "1", some 1⟩)
  key := none
  value := none

def dbBody : SecretBody where
  name := some (.str (js "db"))
  data := some (exampleData "2").toJson
  version := none
  key := none
  value := none

/-- A full update under the other spelling starts before a creation and ends after it. -/
def spellingMoves : List (Move Operation JsString) :=
  .spawn (.push lowerId none) :: steps 0 16 ++ .spawn (.updateSecret upperId secretUuid unchangedBody) :: steps 1 3 ++
    .spawn (.createSecret lowerId dbBody) :: steps 2 3 ++ [.run 2 otherUuid] ++ steps 2 3 ++ steps 1 3

/-- All requests have ended, the flag is not set, and the project has a secret that the snapshot has not. -/
theorem not_hasLocalChanges_exact :
    ∃ cfg p, (serverOn .uuid runPlatform exampleTimeouts Snapshots.restic Operation.usesProject).Reachable
        (.initial uuidDb []) cfg ∧
      uuidDb.toTables.Stored .uuid ∧ NeverSynced runPlatform lowerId uuidDb ∧ NoProto lowerId uuidDb ∧
      Assumed Snapshots.restic lowerId cfg ∧
      (∀ th ∈ cfg.threads, th.prog.result?.isSome = true) ∧ cfg.world.locks = [] ∧
      cfg.world.db.project? lowerId = some p ∧ p.lastSyncSnapshotId = js "s1" ∧
      computeHasLocalChanges p (cfg.world.db.rows lowerId).length = false ∧
      ∃ content, SnapshotContent runPlatform Snapshots.restic cfg.world lowerId (js "s1") content ∧
        contentMap (contents (cfg.world.db.rows lowerId)) ≠ contentMap content := by
  obtain ⟨cfg, hplay, hcheck⟩ : ∃ cfg, playOn .uuid spellingMoves (.initial uuidDb []) = some cfg ∧
      (goesAsAssumed lowerId cfg && cfg.threads.all fun th => th.prog.result?.isSome) = true :=
    Option.map_eq_some_iff.mp rfl
  obtain ⟨hgoes, hended⟩ := Bool.and_eq_true_iff.mp hcheck
  have hend : (playOn .uuid spellingMoves (.initial uuidDb [])).map (fun cfg => (cfg.world.locks,
      contents (cfg.world.db.rows lowerId), (cfg.world.repository.files? (js "s1")).map Dir.entries)) =
      some ([], [⟨js "api", exampleData "1"⟩, ⟨js "db", exampleData "2"⟩], some (exampleFiles "1").entries) := rfl
  have hrow : (playOn .uuid spellingMoves (.initial uuidDb [])).map (fun cfg =>
      (cfg.world.db.project? lowerId).map fun p => (p.lastSyncSnapshotId,
        computeHasLocalChanges p (cfg.world.db.rows lowerId).length)) = some (some (js "s1", false)) := rfl
  rw [hplay, Option.map_some, Option.some.injEq] at hend hrow
  obtain ⟨hlocks, hend⟩ := Prod.mk.inj hend
  obtain ⟨hcontents, hfiles⟩ := Prod.mk.inj hend
  obtain ⟨p, hp, hrow⟩ := Option.map_eq_some_iff.mp hrow
  obtain ⟨hsynced, hflag⟩ := Prod.mk.inj hrow
  obtain ⟨dir, hdir, hentries⟩ := Option.map_eq_some_iff.mp hfiles
  have hadmits : ∀ op, Move.spawn op ∈ spellingMoves → op.usesProject := by
    intro op hop
    simp only [spellingMoves, steps, List.mem_append, List.mem_cons, List.mem_replicate, Move.spawn.injEq,
      reduceCtorEq, and_false, or_false, List.not_mem_nil] at hop
    rcases hop with (rfl | rfl) | rfl <;> trivial
  have hstart : NeverSynced runPlatform lowerId uuidDb :=
    ⟨by decide, by decide, fun p hp _ => by rw [List.mem_singleton.mp hp]; rfl⟩
  refine ⟨cfg, p, playOn_reachable hadmits hplay, by decide, hstart, by unfold NoProto; decide,
    assumed_of_goesAsAssumed hgoes, List.all_eq_true.mp hended, hlocks, hp, hsynced, hflag,
    [⟨js "api", exampleData "1"⟩], ⟨dir, hdir, ?_⟩, ?_⟩
  · rw [hentries]
    rfl
  · rw [hcontents]
    intro hsame
    have hdb := congrFun hsame (js "db")
    cases hdb

end Example

end SecretsManager
