import SecretsManager.SpelledRuns

/-!
# Coherence of the stored content hash

Every write in a section stores the hash of the rows that it leaves, in the same transaction. The refresh
after a creation and the backfill of a starting replica store the hash of a list that they have read before
and without the lock. The stored hash is that of the secrets in every state, exactly as long as no such
refresh comes too late, and as long as the requests spell the ids as they are stored: two spellings of one
project have two locks.
-/

namespace SecretsManager

open Js Interleaving

variable {R : Type} {restic : Restic R} {P : Platform} {timeouts : ResticTimeouts}
  {admits : Operation → Prop} {op : Operation} {t : Nat} {projectId : JsString}

/-- A stored content hash is that of the secrets of its project. -/
def Coherent (P : Platform) (db : Db) : Prop :=
  ∀ p ∈ db.projects, p.currentContentHash ≠ [] → p.currentContentHash = rowsHash P (db.rows p.id)

/-- When the event stores the hash of a list that was read without a lock, for a project that is there, the
secrets of the project still have the listed content. -/
def RefreshesCurrent (earlier : List (ServerEvent R)) (e : ServerEvent R) : Prop :=
  ∀ projectId hash n rows, committed? e = some (.projectsDataUpdateCurrentContentHash projectId hash, n) →
    (viewAfter earlier).listed = some (projectId, rows) → (∃ p ∈ e.before.db.projects, p.id = projectId) →
    contentMap (contents rows) = contentMap (contents (e.before.db.rows projectId))

/-! ## One transaction -/

section Stored
variable {v : View} {w : World R} {tx : Transaction} {db : Db} {n : Nat} {hash : JsString}

/-- The rows of a project after a transaction that stores no hash for it. -/
theorem rows_of_not_stores (hk : Knows restic t op v w) (hallows : AllowsTransaction P op v tx)
    (hrun : tx.run w.db.toTables = (db.toTables, n)) (hstores : ∀ hash, tx.stores n ≠ some (projectId, hash))
    (hdelete : tx ≠ .projectsDataDeleteCascade projectId) : db.rows projectId = w.db.rows projectId := by
  have hrows : db.rows projectId = (tx.run w.db.toTables).1.rows projectId := by rw [hrun]
  rw [hrows]
  by_cases hwrites : tx.writes = some projectId
  · cases tx with
    | secretsDataUpdate id projectId' content date version hash =>
        cases hwrites
        have hn : ((Transaction.secretsDataUpdate id projectId content date version hash).run
            w.db.toTables).2 ≠ 1 := by
          rw [hrun]
          exact fun hone => hstores hash (if_pos hone)
        rw [Transaction.rows_run_of_missed w.db.valid.secretId hn]
    | secretsDataAdd secret hash =>
        cases hwrites
        exact absurd rfl (hstores hash)
    | secretsDataDelete id projectId' hash =>
        cases hwrites
        exact absurd rfl (hstores hash)
    | secretsDataReplaceForProject projectId' secrets state =>
        cases hwrites
        exact absurd rfl (hstores _)
    | projectsDataDeleteCascade projectId' =>
        cases hwrites
        exact absurd rfl hdelete
    | _ => cases hwrites
  · exact Transaction.rows_run_of_ne (allows_confined hk hallows) hwrites

/-- The hash that a transaction stores is that of the rows after it, unless it refreshes. -/
theorem rowsHash_of_stores (hk : Knows restic t op v w) (hallows : AllowsTransaction P op v tx)
    (hrun : tx.run w.db.toTables = (db.toTables, n)) (hstores : tx.stores n = some (projectId, hash))
    (hrefresh : ∀ id hash, tx ≠ .projectsDataUpdateCurrentContentHash id hash) :
    hash = rowsHash P (db.rows projectId) := by
  have hrows : db.rows projectId = (tx.run w.db.toTables).1.rows projectId := by rw [hrun]
  have hnames : UniqueNames (contents (db.rows projectId)) := db.valid.uniqueNames projectId
  cases tx with
  | projectsDataAdd project => cases hstores
  | projectsDataDeleteCascade id => cases hstores
  | projectsDataUpdateLastSyncContentHash id hash => cases hstores
  | projectsDataUpdateCurrentContentHash id hash => exact absurd rfl (hrefresh id hash)
  | projectsDataUpdateSyncState id snapshotId time lastSync current =>
      cases hstores
      obtain ⟨rows, hlists, rfl⟩ := hallows.current
      exact (rowsHash_perm P hnames (hrows ▸ (hk.list hlists).symm)).symm
  | secretsDataAdd secret hash =>
      cases hstores
      obtain ⟨-, -, -, -, rows, hlists, rfl⟩ := hallows
      have hadded : db.rows secret.projectId = w.db.rows secret.projectId ++ [secret] :=
        hrows.trans ((Sql.rows_insertSecret secret w.db.toTables secret.projectId).trans (if_pos rfl))
      refine (rowsHash_perm P hnames ?_).symm
      rw [hadded]
      exact ((hk.list hlists).append_right _).symm
  | secretsDataUpdate id projectId' content date version hash =>
      rw [Transaction.stores] at hstores
      split_ifs at hstores with hone
      cases hstores
      obtain ⟨rows, s, hlists, hs, hid, -, rfl⟩ := hallows.row
      have hmem : s ∈ w.db.rows projectId := (hk.list hlists).mem_iff.mp hs
      have hchanged : contents (db.rows projectId) =
          contents (changeSecret (w.db.rows projectId) { s with toSecretContent := content }) := by
        rw [hrows]
        exact Transaction.contents_rows_update w.db.valid.secretId hmem hid (by rw [hrun]; exact hone)
      rw [hchanged] at hnames
      rw [rowsHash, rowsHash, hchanged]
      exact (rowsHash_perm P hnames ((hk.list hlists).symm.map _)).symm
  | secretsDataDelete id projectId' hash =>
      cases hstores
      obtain ⟨-, rows, hlists, -, rfl⟩ := hallows
      have hdeleted : db.rows projectId = (w.db.rows projectId).filter fun s => s.id ≠ id :=
        hrows.trans (Sql.rows_deleteSecret id w.db.toTables projectId)
      refine (rowsHash_perm P hnames ?_).symm
      rw [hdeleted]
      exact (hk.list hlists).symm.filter _
  | secretsDataReplaceForProject projectId' secrets state =>
      cases hstores
      have hreplaced : (Transaction.run (.secretsDataReplaceForProject projectId secrets state)
          w.db.toTables).1.rows projectId = secrets :=
        Transaction.rows_run_replace fun s hs => (hallows.fresh s hs).1
      rw [hrows, hreplaced]
      exact hallows.hash

end Stored

/-! ## One event -/

theorem exec_refresh {w w' : World R} {hash : JsString} {n : Nat}
    (h : Exec restic t w (.transact (.projectsDataUpdateCurrentContentHash projectId hash)) (.ok n) w') :
    w'.db.rows projectId = w.db.rows projectId ∧ ∀ p ∈ w.db.projects, p.id = projectId →
      ∃ p' ∈ w'.db.projects, p'.id = projectId ∧ p'.currentContentHash = hash := by
  have hrun := (exec_committed h).1
  have htables : w'.db.toTables =
      ((Transaction.projectsDataUpdateCurrentContentHash projectId hash).run w.db.toTables).1 := by rw [hrun]
  refine ⟨by rw [htables]; rfl, fun p hp hid => ⟨{ p with currentContentHash := hash }, ?_, hid, rfl⟩⟩
  rw [htables]
  refine List.mem_map.mpr ⟨p, hp, ?_⟩
  dsimp only
  rw [if_pos hid]

/-- Listed rows have distinct names. -/
theorem Lawful.listed_names {earlier : List (ServerEvent R)} {rows : List Secret}
    (h : Lawful P timeouts restic admits t op earlier) (hlisted : (viewAfter earlier).listed = some (projectId, rows)) :
    UniqueNames (contents rows) := by
  obtain ⟨start, w, w', rest, hsplit, -⟩ := listed_viewAfter hlisted
  have hexec : Exec restic t w (.secretsList projectId) (.ok rows) w' := (h start _ rest hsplit).exec
  exact (w.db.valid.uniqueNames projectId).perm ((exec_listed hexec).map _).symm

/-- Every event keeps the coherence, a refresh when it is not late. -/
theorem Lawful.coherent {earlier : List (ServerEvent R)} {e : ServerEvent R}
    (h : Lawful P timeouts restic admits t op (earlier ++ [e])) (hcurrent : RefreshesCurrent earlier e)
    (hcoherent : Coherent P e.before.db) : Coherent P e.after.db := by
  have hhappened := h.last
  cases hcommitted : committed? e with
  | none => rwa [exec_db hhappened.exec hcommitted]
  | some x =>
      obtain ⟨tx, n⟩ := x
      obtain ⟨w, w', rfl⟩ := committed?_eq_some hcommitted
      have hexec : Exec restic t w (.transact tx) (.ok n) w' := hhappened.exec
      have hk : Knows restic t op (viewAfter earlier) w := hhappened.assert
      have hallows : AllowsTransaction P op (viewAfter earlier) tx := hhappened.allowed
      have hrun := (exec_committed hexec).1
      intro p' hp' hstored
      have hmem : p' ∈ (tx.run w.db.toTables).1.projects := by rwa [hrun]
      rcases Transaction.mem_projects_run hmem with rfl | ⟨p, hp, rfl, hdelete⟩
      · exact absurd hallows.2 hstored
      · rw [hrun] at hstored ⊢
        rw [Transaction.changeRow_id]
        by_cases hstores : ∃ hash, tx.stores n = some (p.id, hash)
        · obtain ⟨hash, hstores⟩ := hstores
          rw [Transaction.changeRow_currentContentHash_of_stores hstores]
          by_cases hrefresh : ∃ id hash, tx = .projectsDataUpdateCurrentContentHash id hash
          · obtain ⟨id, hash', rfl⟩ := hrefresh
            cases hstores
            obtain ⟨-, rows, hlisted, rfl⟩ := hallows
            have hsame := hcurrent p.id _ n rows rfl hlisted ⟨p, hp, rfl⟩
            rw [(exec_refresh hexec).1]
            exact computeSecretsHash_eq_of_contentMap_eq P (h.of_append.listed_names hlisted)
              (w.db.valid.uniqueNames p.id) hsame
          · exact rowsHash_of_stores hk hallows hrun hstores fun id hash heq => hrefresh ⟨id, hash, heq⟩
        · have hnone : ∀ hash, tx.stores n ≠ some (p.id, hash) := fun hash heq => hstores ⟨hash, heq⟩
          rw [Transaction.changeRow_currentContentHash hnone] at hstored ⊢
          rw [rows_of_not_stores hk hallows hrun hnone hdelete]
          exact hcoherent p hp hstored

/-- A refresh that leaves a coherent hash was not late. -/
theorem Lawful.refreshesCurrent (hP : P.HashInjective) (hdigest : ∀ text, P.sha256 text ≠ [])
    {earlier : List (ServerEvent R)} {e : ServerEvent R} (h : Lawful P timeouts restic admits t op (earlier ++ [e]))
    (hcoherent : Coherent P e.after.db) : RefreshesCurrent earlier e := by
  rintro projectId hash n rows hcommitted hlisted ⟨p, hp, hid⟩
  have hhappened := h.last
  obtain ⟨w, w', rfl⟩ := committed?_eq_some hcommitted
  have hexec : Exec restic t w (.transact (.projectsDataUpdateCurrentContentHash projectId hash)) (.ok n) w' :=
    hhappened.exec
  have hallows : AllowsTransaction P op (viewAfter earlier) (.projectsDataUpdateCurrentContentHash projectId hash) :=
    hhappened.allowed
  obtain ⟨-, rows', hlisted', rfl⟩ := hallows
  obtain rfl : rows = rows' := (Prod.mk.inj (Option.some.inj (hlisted.symm.trans hlisted'))).2
  obtain ⟨hrows, hstored⟩ := exec_refresh hexec
  obtain ⟨p', hp', hid', hhash⟩ := hstored p hp hid
  have hsame := hcoherent p' hp' (by rw [hhash]; exact hdigest _)
  rw [hhash, hid', show w'.db.rows projectId = _ from hrows] at hsame
  exact (computeSecretsHash_eq_iff hP (h.of_append.listed_names hlisted) (w.db.valid.uniqueNames projectId)).mp hsame

/-! ## Runs without a late refresh -/

/-- No refresh of the run is late. -/
def NoLateRefresh (cfg : Config (World R) Cmd Cmd.Answer Failure Response Operation) : Prop :=
  System.Past (fun _ _ earlier e => RefreshesCurrent earlier e) cfg

/-- The stored hashes are coherent now and in every state in the past of the operations. -/
def CoherentThroughout (P : Platform) (cfg : Config (World R) Cmd Cmd.Answer Failure Response Operation) : Prop :=
  Coherent P cfg.world.db ∧ ∀ th ∈ cfg.threads, ∀ e ∈ th.trace, Coherent P e.before.db ∧ Coherent P e.after.db

theorem server_coherent {db : Db} (hcoherent : Coherent P db) {repository : R}
    {cfg : Config (World R) Cmd Cmd.Answer Failure Response Operation}
    (h : (server P timeouts restic admits).Reachable (.initial db repository) cfg) :
    (NoLateRefresh cfg → CoherentThroughout P cfg) ∧
      (P.HashInjective → (∀ text, P.sha256 text ≠ []) → CoherentThroughout P cfg → NoLateRefresh cfg) := by
  have h₀ := inv_initial db repository
  constructor
  · refine (serverOutline P timeouts restic admits).invariant (J := fun w => Coherent P w.db)
      (fun hlawful hcurrent _ hbefore => ?_) ?_ h₀ hcoherent h
    · exact Lawful.coherent hlawful hcurrent hbefore
    · rintro w w' - ⟨r, -, rfl⟩ hw
      exact hw
  · intro hP hdigest hthroughout t th hth earlier e later hsplit
    have hlawful : Lawful P timeouts restic admits t th.req th.trace :=
      (((serverOutline P timeouts restic admits).good h₀ h).threads t th hth).past
    have hmem : e ∈ th.trace := by simp [hsplit]
    rw [show earlier ++ e :: later = (earlier ++ [e]) ++ later by simp] at hsplit
    rw [hsplit] at hlawful
    exact hlawful.of_append.refreshesCurrent hP hdigest (hthroughout.2 th (List.mem_of_getElem? hth) e hmem).2

theorem spellingFree_refreshesCurrent (ids : IdColumn) : SpellingFree ids (RefreshesCurrent (R := R)) where
  earlier := by
    intro earlier e
    unfold RefreshesCurrent
    rw [viewAfter_spellTrace]
  event := by
    intro earlier e
    unfold RefreshesCurrent
    rw [committed?_spellEvent, before_spellEvent]

/-- **Hash coherence.** Whatever operations run interleaved on a database, when they spell the ids as it stores them,
the stored hash is that of the secrets in every state of a run without a late refresh, inside and outside of write
sections; and with an injective digest a late refresh leaves a hash that is not. -/
theorem hash_coherent {ids : IdColumn} (hspelled : ∀ op, admits op → op.Spelled ids) {db : Db}
    (hstored : db.toTables.Stored ids) (hcoherent : Coherent P db) {repository : R}
    {cfg : Config (World R) Cmd Cmd.Answer Failure Response Operation}
    (h : (serverOn ids P timeouts restic admits).Reachable (.initial db repository) cfg) :
    (NoLateRefresh cfg → CoherentThroughout P cfg) ∧
      (P.HashInjective → (∀ text, P.sha256 text ≠ []) → CoherentThroughout P cfg → NoLateRefresh cfg) := by
  obtain ⟨cfg', h', hbeside⟩ := serverOn_mirrored (fun _ => True) hspelled (fun _ _ => trivial) hstored h
  have hrefresh : NoLateRefresh cfg' ↔ NoLateRefresh cfg := past_iff (spellingFree_refreshesCurrent ids) hbeside
  have hthroughout : CoherentThroughout P cfg' ↔ CoherentThroughout P cfg := by
    unfold CoherentThroughout
    rw [hbeside.world, worlds_iff (J := fun w => Coherent P w.db) hbeside]
  rw [← hrefresh, ← hthroughout]
  exact server_coherent hcoherent h'

section Example

/-- Whether the event, if it is a refresh, finds the listed rows. -/
def refreshesInTime (v : View) (e : ServerEvent R) : Bool :=
  match committed? e, v.listed with
  | some (.projectsDataUpdateCurrentContentHash projectId _, _), some (id, rows) =>
      id ≠ projectId || contents rows = contents (e.before.db.rows projectId)
  | _, _ => true

theorem refreshesCurrent_of_inTime {earlier : List (ServerEvent R)} {e : ServerEvent R}
    (h : refreshesInTime (viewAfter earlier) e = true) : RefreshesCurrent earlier e := by
  rintro projectId hash n rows hcommitted hlisted -
  rw [refreshesInTime, hcommitted, hlisted] at h
  simp only [ne_eq, not_true_eq_false, decide_false, Bool.false_or, decide_eq_true_eq] at h
  rw [h]

def emptyDb : Db := ⟨⟨[], []⟩, by decide⟩

def demoBody : ProjectBody where
  id := none
  dateCreated := none
  name := some (.str (js "demo"))
  description := none
  s3Endpoint := some (.str (js "s3.example.org"))
  s3Bucket := some (.str (js "secrets"))
  repoPrefix := none
  s3Region := none
  s3BucketLookup := none
  s3AccessKeyId := some (.str (js "key"))
  s3SecretAccessKey := some (.str (js "secret"))
  resticPassword := some (.str (js "password"))

def apiBody : SecretBody where
  name := some (.str (js "api"))
  data := some (exampleData "1").toJson
  version := none
  key := none
  value := none

def createApi (t : Nat) : List (Move Operation JsString) :=
  .spawn (.createSecret (js "p") apiBody) :: steps t 3 ++ [.run t (js "a")] ++ steps t 3

/-- The creation of the project ends before the secret comes. -/
def inTimeMoves : List (Move Operation JsString) :=
  .spawn (.createProject demoBody) :: .run 0 (js "p") :: steps 0 8 ++ createApi 1

theorem hash_coherent_inTime :
    ∃ cfg, (serverOn .text runPlatform exampleTimeouts Snapshots.restic (Operation.Spelled .text)).Reachable
        (.initial emptyDb []) cfg ∧
      (cfg.world.db.projects.map fun p => (p.id, p.currentContentHash)) = [(js "p", hash1)] ∧
      CoherentThroughout runPlatform cfg := by
  obtain ⟨cfg, hplay, hcheck⟩ : ∃ cfg, playOn .text inTimeMoves (.initial emptyDb []) = some cfg ∧
      (cfg.threads.all fun th => checkEvents refreshesInTime .start th.trace) = true :=
    Option.map_eq_some_iff.mp rfl
  have hstored : (playOn .text inTimeMoves (.initial emptyDb [])).map
      (fun cfg => cfg.world.db.projects.map fun p => (p.id, p.currentContentHash)) = some [(js "p", hash1)] := rfl
  rw [hplay, Option.map_some, Option.some.injEq] at hstored
  have hspelled : ∀ op, Move.spawn op ∈ inTimeMoves → op.Spelled .text := by
    intro op hop
    simp only [inTimeMoves, createApi, steps, List.mem_append, List.mem_cons, List.mem_replicate, Move.spawn.injEq,
      reduceCtorEq, and_false, or_false, List.not_mem_nil] at hop
    rcases hop with rfl | rfl
    · exact Or.inl rfl
    · exact IdColumn.spelled_text rfl
  have hreachable := playOn_reachable hspelled hplay
  have hcoherent := hash_coherent (fun _ h => h) (by decide) (fun p hp => by cases hp) hreachable
  exact ⟨cfg, hreachable, hstored, hcoherent.1 (past_of_checkEvents hcheck fun _ _ => refreshesCurrent_of_inTime)⟩

/-- The secret comes between the list of the creation and its write. -/
def lateMoves : List (Move Operation JsString) :=
  .spawn (.createProject demoBody) :: .run 0 (js "p") :: steps 0 7 ++ createApi 1 ++ steps 0 1

/-- Both requests have ended, no lock is held, and the stored hash is that of no secrets. -/
theorem not_hash_coherent :
    ∃ cfg, (serverOn .text runPlatform exampleTimeouts Snapshots.restic fun _ => True).Reachable
        (.initial emptyDb []) cfg ∧
      (∀ th ∈ cfg.threads, th.prog.result?.isSome = true) ∧ cfg.world.locks = [] ∧
      (cfg.world.db.projects.map fun p => (p.id, p.currentContentHash, contents (cfg.world.db.rows p.id))) =
        [(js "p", emptyHash, [⟨js "api", exampleData "1"⟩])] ∧
      ¬ Coherent runPlatform cfg.world.db := by
  obtain ⟨cfg, hplay, hended⟩ : ∃ cfg, playOn .text lateMoves (.initial emptyDb []) = some cfg ∧
      (cfg.threads.all fun th => th.prog.result?.isSome) = true :=
    Option.map_eq_some_iff.mp rfl
  have hlocks : (playOn .text lateMoves (.initial emptyDb [])).map (fun cfg => cfg.world.locks) = some [] := rfl
  have hstored : (playOn .text lateMoves (.initial emptyDb [])).map (fun cfg => cfg.world.db.projects.map fun p =>
      (p.id, p.currentContentHash, contents (cfg.world.db.rows p.id))) =
      some [(js "p", emptyHash, [⟨js "api", exampleData "1"⟩])] := rfl
  rw [hplay, Option.map_some, Option.some.injEq] at hlocks hstored
  refine ⟨cfg, playOn_reachable (fun _ _ => trivial) hplay, List.all_eq_true.mp hended, hlocks, hstored,
    fun hcoherent => ?_⟩
  obtain ⟨p, hp, hrow⟩ := List.mem_map.mp (hstored ▸ List.mem_singleton.mpr rfl :
    (js "p", emptyHash, [⟨js "api", exampleData "1"⟩]) ∈ cfg.world.db.projects.map fun p =>
      (p.id, p.currentContentHash, contents (cfg.world.db.rows p.id)))
  obtain ⟨-, hrow⟩ := Prod.mk.inj hrow
  obtain ⟨hhash, hrows⟩ := Prod.mk.inj hrow
  have hequal := hcoherent p hp (by rw [hhash]; decide)
  rw [hhash, rowsHash, hrows] at hequal
  have hapi : computeSecretsHash runPlatform [⟨js "api", exampleData "1"⟩] = hash1 := rfl
  exact absurd (hequal.trans hapi) (by decide)

end Example

end SecretsManager
