import SecretsManager.Invariants
import SecretsManager.Library.Transactional

/-!
# Statements and transactions

Each write of the data layer as its statements, in a transaction of the dialect where the source opens one:
better-sqlite3 runs a callback between `BEGIN` and `COMMIT`, and `postgresTransaction` does the same on a
client of the pool. Constraints are checked statement by statement, and every command can fail. Whatever
fails, the write is all or nothing. That a failed write had no effect, and that a directory can be removed, is
what the transactions of the server take for granted; where both hold, the server that runs its writes
statement by statement keeps the outline of the server.
-/

namespace SecretsManager

open Js Interleaving SortedBy

/-! ## Statements -/

/-- The statements of the data layer with their parameters. -/
inductive Statement where
  | insertProject (project : Project)
  | deleteProject (id : JsString)
  | updateSyncState (id snapshotId snapshotTime lastSyncContentHash currentContentHash : JsString)
  | updateCurrentContentHash (id contentHash : JsString)
  | updateLastSyncContentHash (id contentHash : JsString)
  | insertSecret (secret : Secret)
  | updateSecret (id projectId : JsString) (expectedVersion : Nat) (content : SecretContent)
      (dateUpdated : JsString)
  | deleteSecret (id : JsString)
  | deleteByProject (projectId : JsString)

namespace Statement

def run : Statement → Tables → Tables
  | insertProject project => Sql.insertProject project
  | deleteProject id => Sql.deleteProject id
  | updateSyncState id snapshotId time lastSync current => Sql.updateSyncState id snapshotId time lastSync current
  | updateCurrentContentHash id hash => Sql.updateCurrentHash id hash
  | updateLastSyncContentHash id hash => Sql.updateLastSyncHash id hash
  | insertSecret secret => Sql.insertSecret secret
  | updateSecret id projectId version content date => Sql.updateSecret id projectId version content date
  | deleteSecret id => Sql.deleteSecret id
  | deleteByProject projectId => Sql.deleteByProject projectId

/-- The rows that a statement changes. -/
def changes : Statement → Tables → Nat
  | insertProject _, _ | insertSecret _, _ => 1
  | deleteProject id, t | updateSyncState id _ _ _ _, t | updateCurrentContentHash id _, t
  | updateLastSyncContentHash id _, t => t.projects.countP fun p => p.id = id
  | updateSecret id projectId version _ _, t => t.secrets.countP (Sql.matchesVersion id projectId version)
  | deleteSecret id, t => t.secrets.countP fun s => s.id = id
  | deleteByProject projectId, t => t.secrets.countP fun s => s.projectId = projectId

/-- A statement that violates a constraint fails and changes nothing. -/
def apply (statement : Statement) (db : Db) : Except Failure (Db × Nat) :=
  if h : (statement.run db.toTables).Valid then
    .ok (⟨statement.run db.toTables, h⟩, statement.changes db.toTables)
  else .error (Transaction.violation (statement.run db.toTables))

theorem apply_error {statement : Statement} {db : Db} {e : Failure} (h : statement.apply db = .error e) :
    ¬ (statement.run db.toTables).Valid ∧ e = Transaction.violation (statement.run db.toTables) := by
  unfold apply at h
  split_ifs at h with hvalid
  cases h
  exact ⟨hvalid, rfl⟩

end Statement

abbrev DbWork (α : Type) : Type := Work Statement Failure Nat α

/-- The inserts of a replacement. -/
def insertSecrets : List Secret → DbWork Unit
  | [] => pure ()
  | secret :: rest => do
      let _ ← Work.query (.insertSecret secret)
      insertSecrets rest

namespace Transaction

/-- The statements of a write, with the number of rows that it reports. -/
def work : Transaction → DbWork Nat
  | projectsDataAdd project => Work.query (.insertProject project) >>= fun _ => pure 1
  | projectsDataDeleteCascade projectId => do
      let _ ← Work.query (.deleteByProject projectId)
      let _ ← Work.query (.deleteProject projectId)
      pure 1
  | projectsDataUpdateSyncState id snapshotId time lastSync current =>
      Work.query (.updateSyncState id snapshotId time lastSync current) >>= fun _ => pure 1
  | projectsDataUpdateCurrentContentHash id hash =>
      Work.query (.updateCurrentContentHash id hash) >>= fun _ => pure 1
  | projectsDataUpdateLastSyncContentHash id hash =>
      Work.query (.updateLastSyncContentHash id hash) >>= fun _ => pure 1
  | secretsDataAdd secret hash => do
      let _ ← Work.query (.insertSecret secret)
      let _ ← Work.query (.updateCurrentContentHash secret.projectId hash)
      pure 1
  | secretsDataUpdate id projectId content dateUpdated expectedVersion hash => do
      let changes ← Work.query (.updateSecret id projectId expectedVersion content dateUpdated)
      if changes = 1 then
        let _ ← Work.query (.updateCurrentContentHash projectId hash)
        pure changes
      else pure changes
  | secretsDataDelete id projectId hash => do
      let _ ← Work.query (.deleteSecret id)
      let _ ← Work.query (.updateCurrentContentHash projectId hash)
      pure 1
  | secretsDataReplaceForProject projectId secrets state => do
      let _ ← Work.query (.deleteByProject projectId)
      insertSecrets secrets
      let _ ← Work.query (.updateSyncState projectId state.snapshotId state.snapshotTime state.contentHash
        state.contentHash)
      pure 1

end Transaction

/-! ## The two dialects -/

inductive Dialect where
  | sqlite
  | postgres

abbrev DbProg (α : Type) : Type := ConnectionProg Statement Failure Nat α

/-- `db.transaction(work)()`: rolled back when the callback throws. -/
def sqliteTransaction {α : Type} (work : DbWork α) : DbProg α := do
  begin
  (committing work).tryCatch rollingBack

def postgresTransaction {α : Type} (work : DbWork α) : DbProg α := do
  connect
  Prog.tryFinally
    (Prog.tryCatch
      (do
        begin
        committing work)
      rollingBack)
    release

def Dialect.transaction {α : Type} : Dialect → DbWork α → DbProg α
  | sqlite => sqliteTransaction
  | postgres => postgresTransaction

/-- A write of one statement runs without a transaction around it. -/
def Transaction.execute (dialect : Dialect) (tx : Transaction) : DbProg Nat :=
  match tx with
  | projectsDataAdd _ | projectsDataUpdateSyncState _ _ _ _ _ | projectsDataUpdateCurrentContentHash _ _
  | projectsDataUpdateLastSyncContentHash _ _ => tx.work.queries
  | projectsDataDeleteCascade _ | secretsDataAdd _ _ | secretsDataUpdate _ _ _ _ _ _ | secretsDataDelete _ _ _
  | secretsDataReplaceForProject _ _ _ => dialect.transaction tx.work

/-- What a command on the connection does; a fault is an error that is not one of a constraint. -/
abbrev DbExec : Connection Db → (c : ConnectionCmd Statement) → c.Answer Failure Nat → Connection Db → Prop :=
  ConnectionExec Statement.apply fun e => ∃ m, e = .other m

abbrev DbAllOrNothing {α : Type} : DbWork α → Db → Except Failure α → Db → Prop :=
  AllOrNothing Statement.apply fun e => ∃ m, e = .other m

section Dialects
variable {α : Type} {work : DbWork α} {k k' : Connection Db} {x : Except Failure α}

/-- `BEGIN`, the statements and `COMMIT`. -/
theorem allOrNothing_begin (hwork : work.Stops)
    (h : (begin >>= fun _ => committing work : DbProg α).Runs DbExec k x k') :
    DbAllOrNothing work k.committed x k'.committed := by
  rcases runs_bind.mp h with ⟨e, hbegin, rfl⟩ | ⟨_, k₁, hbegin, hcommit⟩
  · rcases runs_begin hbegin with ⟨hok, -⟩ | ⟨_, herror, he, hkept⟩
    · cases hok
    · cases herror
      exact Or.inl ⟨hkept, Or.inl he⟩
  · rcases runs_begin hbegin with ⟨-, rfl⟩ | ⟨_, herror, -⟩
    · exact allOrNothing_committing (k := ⟨k.committed, .inTransaction k.committed⟩) hwork rfl hcommit
    · cases herror

theorem allOrNothing_sqliteTransaction (hwork : work.Stops)
    (h : (sqliteTransaction work).Runs DbExec k x k') :
    DbAllOrNothing work k.committed x k'.committed := by
  rcases runs_bind.mp h with ⟨e, hbegin, rfl⟩ | ⟨_, k₁, hbegin, hrest⟩
  · rcases runs_begin hbegin with ⟨hok, -⟩ | ⟨_, herror, he, hkept⟩
    · cases hok
    · cases herror
      exact Or.inl ⟨hkept, Or.inl he⟩
  · rcases runs_begin hbegin with ⟨-, rfl⟩ | ⟨_, herror, -⟩
    · exact allOrNothing_tryCatch (fun y k₂ hy =>
        allOrNothing_committing (k := ⟨k.committed, .inTransaction k.committed⟩) hwork rfl hy) hrest
    · cases herror

theorem allOrNothing_postgresTransaction (hwork : work.Stops)
    (h : (postgresTransaction work).Runs DbExec k x k') :
    DbAllOrNothing work k.committed x k'.committed := by
  rcases runs_bind.mp h with ⟨e, hconnect, rfl⟩ | ⟨_, k₁, hconnect, hrest⟩
  · obtain ⟨rfl, hfault⟩ := runs_connect hconnect
    exact Or.inl ⟨rfl, Or.inl (hfault e rfl)⟩
  · obtain ⟨rfl, -⟩ := runs_connect hconnect
    obtain ⟨y, k₂, hy, hend⟩ := runs_tryFinally hrest
    have hatomic := allOrNothing_tryCatch (fun y k₂ hy => allOrNothing_begin hwork hy) hy
    rcases hend with ⟨hrelease, rfl⟩ | ⟨e, hrelease, -⟩
    · rw [(runs_release hrelease).2]
      exact hatomic
    · cases (runs_release hrelease).1

/-- The write of a transaction can take effect with the answer to its `COMMIT` lost. -/
theorem runs_postgresTransaction_lost {db db' : Db} {r : α} {m : JsString}
    (h : work.evaluate Statement.apply db = .ok (db', r)) :
    (postgresTransaction work).Runs DbExec ⟨db, .idle⟩ (.error (.other m)) ⟨db', .idle⟩ := by
  have hcommit : (begin >>= fun _ => committing work : DbProg α).Runs DbExec ⟨db, .idle⟩ (.error (.other m))
      ⟨db', .lost⟩ :=
    .call (a := .ok ()) (Or.inl ⟨rfl, rfl⟩) (runs_committing_lost ⟨m, rfl⟩ h)
  have hback : (rollingBack (.other m) : DbProg α).Runs DbExec ⟨db', .lost⟩ (.error (.other m)) ⟨db', .idle⟩ :=
    .call (a := .ok ()) (Or.inl ⟨rfl, rfl⟩) .fail
  have hrelease : (release : DbProg Unit).Runs DbExec ⟨db', .idle⟩ (.ok ()) ⟨db', .idle⟩ :=
    .call (a := ()) rfl .ret
  have hconnect : (connect : DbProg Unit).Runs DbExec ⟨db, .idle⟩ (.ok ()) ⟨db, .idle⟩ :=
    .call (a := .ok ()) ⟨rfl, Or.inl rfl⟩ .ret
  have hsection := Prog.Runs.tryFinally (runs_tryCatch.mpr (Or.inr ⟨_, _, hcommit, hback⟩)) hrelease
  exact runs_bind.mpr (Or.inr ⟨(), _, hconnect, hsection⟩)

end Dialects

namespace Transaction

theorem stops_insertSecrets (secrets : List Secret) : Work.Stops (insertSecrets secrets) := by
  induction secrets with
  | nil => exact Work.stops_ret
  | cons secret rest ih => exact Work.stops_query.bind fun _ => ih

theorem stops_work (tx : Transaction) : tx.work.Stops := by
  cases tx with
  | projectsDataAdd _ | projectsDataUpdateSyncState _ _ _ _ _ | projectsDataUpdateCurrentContentHash _ _
  | projectsDataUpdateLastSyncContentHash _ _ => exact Work.stops_query.bind fun _ => Work.stops_ret
  | projectsDataDeleteCascade _ | secretsDataAdd _ _ | secretsDataDelete _ _ _ =>
      exact Work.stops_query.bind fun _ => Work.stops_query.bind fun _ => Work.stops_ret
  | secretsDataUpdate id projectId content dateUpdated version hash =>
      refine Work.stops_query.bind fun changes => ?_
      split_ifs
      · exact Work.stops_query.bind fun _ => Work.stops_ret
      · exact Work.stops_ret
  | secretsDataReplaceForProject projectId secrets state =>
      exact Work.stops_query.bind fun _ => (stops_insertSecrets secrets).bind fun _ =>
        Work.stops_query.bind fun _ => Work.stops_ret

/-- **A write is all or nothing** on both dialects, whichever of its commands fail. -/
theorem execute_allOrNothing {dialect : Dialect} {tx : Transaction} {db : Db} {x : Except Failure Nat}
    {k' : Connection Db} (h : (tx.execute dialect).Runs DbExec ⟨db, .idle⟩ x k') :
    DbAllOrNothing tx.work db x k'.committed := by
  have htransaction : (dialect.transaction tx.work).Runs DbExec ⟨db, .idle⟩ x k' →
      DbAllOrNothing tx.work db x k'.committed := by
    intro h
    cases dialect with
    | sqlite => exact allOrNothing_sqliteTransaction tx.stops_work h
    | postgres => exact allOrNothing_postgresTransaction tx.stops_work h
  cases tx with
  | projectsDataAdd _ | projectsDataUpdateSyncState _ _ _ _ _ | projectsDataUpdateCurrentContentHash _ _
  | projectsDataUpdateLastSyncContentHash _ _ => exact allOrNothing_query rfl h
  | projectsDataDeleteCascade _ | secretsDataAdd _ _ | secretsDataUpdate _ _ _ _ _ _ | secretsDataDelete _ _ _
  | secretsDataReplaceForProject _ _ _ => exact htransaction h

end Transaction

/-! ## The statements and the transaction -/

theorem Tables.Valid.of_sublist {t t' : Tables} (h : t'.Valid) (hprojects : t.projects = t'.projects)
    (hsecrets : t.secrets.Sublist t'.secrets) : t.Valid where
  projectId := by
    rw [hprojects]
    exact h.projectId
  projectName := by
    rw [hprojects]
    exact h.projectName
  secretId := h.secretId.sublist hsecrets
  secretName := h.secretName.sublist hsecrets
  foreignKey s hs := by
    rw [hprojects]
    exact h.foreignKey s (hsecrets.subset hs)

namespace Sql

variable {id : JsString} {f : Project → Project} {t : Tables}

theorem map_updateProject {β : Type} {g : Project → β} (hf : ∀ p, g (f p) = g p) :
    (updateProject id f t).projects.map g = t.projects.map g := by
  rw [updateProject, List.map_map]
  refine List.map_congr_left fun p _ => ?_
  rw [Function.comp]
  split_ifs
  · exact hf p
  · rfl

/-- An update that keeps the ids and the names neither violates nor restores a constraint. -/
theorem valid_updateProject (hid : ∀ p, (f p).id = p.id) (hname : ∀ p, (f p).name = p.name) :
    (updateProject id f t).Valid ↔ t.Valid := by
  constructor
  · intro h
    refine ⟨?_, ?_, h.secretId, h.secretName, fun s hs => ?_⟩
    · have hdistinct := h.projectId
      rwa [Distinct, map_updateProject hid] at hdistinct
    · have hdistinct := h.projectName
      rwa [Distinct, map_updateProject hname] at hdistinct
    · have hkey := h.foreignKey s hs
      rwa [map_updateProject hid] at hkey
  · intro h
    refine ⟨?_, ?_, h.secretId, h.secretName, fun s hs => ?_⟩
    · rw [Distinct, map_updateProject hid]
      exact h.projectId
    · rw [Distinct, map_updateProject hname]
      exact h.projectName
    · rw [map_updateProject hid]
      exact h.foreignKey s hs

theorem violation_updateProject (hid : ∀ p, (f p).id = p.id) :
    Transaction.violation (updateProject id f t) = Transaction.violation t := by
  rw [Transaction.violation, Transaction.violation, map_updateProject hid]
  rfl

theorem valid_updateCurrentHash (id hash : JsString) : (updateCurrentHash id hash t).Valid ↔ t.Valid :=
  valid_updateProject (fun _ => rfl) fun _ => rfl

theorem violation_updateCurrentHash (id hash : JsString) :
    Transaction.violation (updateCurrentHash id hash t) = Transaction.violation t :=
  violation_updateProject fun _ => rfl

theorem valid_deleteByProject {projectId : JsString} (h : t.Valid) : (deleteByProject projectId t).Valid :=
  h.of_sublist rfl List.filter_sublist

end Sql

namespace Transaction

open Sql

/-- The secrets of a replacement belong to its project. -/
def Uniform : Transaction → Prop
  | secretsDataReplaceForProject projectId secrets _ => ∀ s ∈ secrets, s.projectId = projectId
  | _ => True

/-- What a write of these statements answers. -/
def conclude (t : Tables) (n : Nat) : Except Failure (Db × Nat) :=
  if h : t.Valid then .ok (⟨t, h⟩, n) else .error (violation t)

theorem commit_eq_conclude (tx : Transaction) (db : Db) :
    tx.commit db = conclude (tx.run db.toTables).1 (tx.run db.toTables).2 := rfl

theorem evaluate_query {α : Type} (statement : Statement) (rest : Nat → DbWork α) (db : Db)
    (h : (statement.run db.toTables).Valid) :
    (Work.query statement >>= rest).evaluate Statement.apply db =
      (rest (statement.changes db.toTables)).evaluate Statement.apply ⟨statement.run db.toTables, h⟩ := by
  rw [Work.evaluate_bind, Work.evaluate_query, Statement.apply, dif_pos h]
  rfl

theorem evaluate_query_error {α : Type} (statement : Statement) (rest : Nat → DbWork α) (db : Db)
    (h : ¬ (statement.run db.toTables).Valid) :
    (Work.query statement >>= rest).evaluate Statement.apply db =
      .error (violation (statement.run db.toTables)) := by
  rw [Work.evaluate_bind, Work.evaluate_query, Statement.apply, dif_neg h]
  rfl

/-- The last statement of a write. -/
theorem evaluate_last (statement : Statement) (n : Nat) (db : Db) :
    (Work.query statement >>= fun _ => pure n : DbWork Nat).evaluate Statement.apply db =
      conclude (statement.run db.toTables) n := by
  by_cases h : (statement.run db.toTables).Valid
  · rw [evaluate_query _ _ _ h, conclude, dif_pos h]
    rfl
  · rw [evaluate_query_error _ _ _ h, conclude, dif_neg h]

/-- The update of a project row after another statement. -/
theorem evaluate_updateProject (first second : Statement) {id : JsString} (f : Project → Project)
    (hsecond : second.run = updateProject id f) (hid : ∀ p, (f p).id = p.id) (hname : ∀ p, (f p).name = p.name)
    (n : Nat) (db : Db) :
    (Work.query first >>= fun _ => Work.query second >>= fun _ => pure n : DbWork Nat).evaluate
        Statement.apply db =
      conclude (second.run (first.run db.toTables)) n := by
  by_cases h : (first.run db.toTables).Valid
  · rw [evaluate_query _ _ _ h, evaluate_last]
  · rw [evaluate_query_error _ _ _ h, conclude, hsecond, dif_neg (by rwa [valid_updateProject hid hname]),
      violation_updateProject hid]

/-- An insert that violates a constraint is not mended by more inserts for the same project. -/
theorem violation_foldl_insertSecret {s : Secret} {rest : List Secret} {t : Tables}
    (hrest : ∀ s' ∈ rest, s'.projectId = s.projectId) :
    violation (rest.foldl (fun t secret => insertSecret secret t) (insertSecret s t)) =
      violation (insertSecret s t) := by
  have hkeys : (∀ s' ∈ (rest.foldl (fun t secret => insertSecret secret t) (insertSecret s t)).secrets,
      s'.projectId ∈ (insertSecret s t).projects.map Project.id) ↔
      ∀ s' ∈ (insertSecret s t).secrets, s'.projectId ∈ (insertSecret s t).projects.map Project.id := by
    rw [secrets_foldl_insertSecret]
    constructor
    · exact fun h s' hs' => h s' (List.mem_append_left _ hs')
    · intro h s' hs'
      rcases List.mem_append.mp hs' with hs' | hs'
      · exact h s' hs'
      · rw [hrest s' hs']
        exact h s (List.mem_append_right _ (List.mem_singleton.mpr rfl))
  rw [violation, violation, projects_foldl_insertSecret]
  exact if_congr hkeys rfl rfl

/-- The inserts of a replacement and the record of its synchronization. -/
theorem evaluate_inserts {projectId : JsString} (last : Statement) (f : Project → Project)
    (hlast : last.run = updateProject projectId f) (hid : ∀ p, (f p).id = p.id)
    (hname : ∀ p, (f p).name = p.name) (secrets : List Secret) (db : Db)
    (huniform : ∀ s ∈ secrets, s.projectId = projectId) :
    (insertSecrets secrets >>= fun _ => Work.query last >>= fun _ => pure 1 : DbWork Nat).evaluate
        Statement.apply db =
      conclude (last.run (secrets.foldl (fun t secret => insertSecret secret t) db.toTables)) 1 := by
  induction secrets generalizing db with
  | nil => exact evaluate_last last 1 db
  | cons s rest ih =>
      have hrest : ∀ s' ∈ rest, s'.projectId = projectId := fun s' hs' => huniform s' (List.mem_cons_of_mem _ hs')
      have hassoc : (insertSecrets (s :: rest) >>= fun _ => Work.query last >>= fun _ => pure 1 : DbWork Nat) =
          Work.query (.insertSecret s) >>= fun _ => insertSecrets rest >>= fun _ =>
            Work.query last >>= fun _ => pure 1 := by
        refine congrArg (Prog.call (Statement.insertSecret s)) (funext fun a => ?_)
        cases a <;> rfl
      rw [hassoc, List.foldl_cons]
      by_cases h : (Statement.run (.insertSecret s) db.toTables).Valid
      · rw [evaluate_query _ _ _ h]
        exact ih ⟨_, h⟩ hrest
      · have hfinal : ¬ (last.run (rest.foldl (fun t secret => insertSecret secret t)
            (insertSecret s db.toTables))).Valid := by
          rw [hlast, valid_updateProject hid hname]
          refine fun hvalid => h (hvalid.of_sublist ?_ ?_)
          · exact (projects_foldl_insertSecret rest _).symm
          · rw [secrets_foldl_insertSecret]
            exact List.sublist_append_left _ _
        rw [evaluate_query_error _ _ _ h, conclude, dif_neg hfinal, hlast, violation_updateProject hid,
          violation_foldl_insertSecret fun s' hs' => (hrest s' hs').trans (huniform s (List.mem_cons_self ..)).symm]
        rfl

/-- The hash is written when one row was changed. -/
theorem evaluate_secretsDataUpdate (id projectId : JsString) (version : Nat) (content : SecretContent)
    (dateUpdated hash : JsString) (db : Db) :
    (secretsDataUpdate id projectId content dateUpdated version hash).work.evaluate Statement.apply db =
      conclude ((secretsDataUpdate id projectId content dateUpdated version hash).run db.toTables).1
        ((secretsDataUpdate id projectId content dateUpdated version hash).run db.toTables).2 := by
  have hrun : ∀ n, db.secrets.countP (matchesVersion id projectId version) = n →
      (secretsDataUpdate id projectId content dateUpdated version hash).run db.toTables =
        (if n = 1 then updateCurrentHash projectId hash (Sql.updateSecret id projectId version content dateUpdated
            db.toTables)
          else Sql.updateSecret id projectId version content dateUpdated db.toTables, n) := by
    rintro n rfl
    rfl
  rw [hrun _ rfl]
  by_cases h : (Sql.updateSecret id projectId version content dateUpdated db.toTables).Valid
  · refine (evaluate_query (.updateSecret id projectId version content dateUpdated) _ db h).trans ?_
    by_cases hchanged : (Statement.updateSecret id projectId version content dateUpdated).changes db.toTables = 1
    · rw [if_pos hchanged, if_pos (show db.secrets.countP (matchesVersion id projectId version) = 1 from hchanged)]
      exact evaluate_last (.updateCurrentContentHash projectId hash) _ _
    · rw [if_neg hchanged, if_neg (show db.secrets.countP (matchesVersion id projectId version) ≠ 1 from hchanged),
        conclude, dif_pos h]
      rfl
  · refine (evaluate_query_error (.updateSecret id projectId version content dateUpdated) _ db h).trans ?_
    split_ifs
    · have hfinal := (not_congr (valid_updateCurrentHash projectId hash)).mpr h
      rw [conclude, dif_neg hfinal, violation_updateCurrentHash]
      rfl
    · rw [conclude, dif_neg h]
      rfl

/-- **Statement by statement** a write does what its transaction does. -/
theorem evaluate_work {tx : Transaction} (huniform : tx.Uniform) (db : Db) :
    tx.work.evaluate Statement.apply db = tx.commit db := by
  rw [commit_eq_conclude]
  cases tx with
  | projectsDataAdd _ | projectsDataUpdateSyncState _ _ _ _ _ | projectsDataUpdateCurrentContentHash _ _
  | projectsDataUpdateLastSyncContentHash _ _ => exact evaluate_last _ 1 db
  | projectsDataDeleteCascade projectId =>
      refine (evaluate_query (.deleteByProject projectId) _ db (valid_deleteByProject db.valid)).trans ?_
      exact evaluate_last (.deleteProject projectId) 1 _
  | secretsDataAdd secret hash =>
      exact evaluate_updateProject (.insertSecret secret) (.updateCurrentContentHash _ hash) _ rfl
        (fun _ => rfl) (fun _ => rfl) 1 db
  | secretsDataDelete id projectId hash =>
      exact evaluate_updateProject (.deleteSecret id) (.updateCurrentContentHash _ hash) _ rfl
        (fun _ => rfl) (fun _ => rfl) 1 db
  | secretsDataUpdate id projectId content dateUpdated version hash =>
      exact evaluate_secretsDataUpdate id projectId version content dateUpdated hash db
  | secretsDataReplaceForProject projectId secrets state =>
      refine (evaluate_query (.deleteByProject projectId) _ db (valid_deleteByProject db.valid)).trans ?_
      exact evaluate_inserts (.updateSyncState _ _ _ _ _) _ rfl (fun _ => rfl) (fun _ => rfl) secrets _ huniform

end Transaction

/-! ## The server, statement by statement -/

variable {R : Type}

/-- What a command answers and changes when the statements of a write run on a connection, and when a directory
need not be removable. -/
def StatementExec (dialect : Dialect) (restic : Restic R) (t : Nat) (w : World R) :
    (c : Cmd) → c.Answer → World R → Prop
  | .transact tx, a, w' => ∃ k, (tx.execute dialect).Runs DbExec ⟨w.db, .idle⟩ a k ∧
      w' = { w with
        db := k.committed
        stored := if a.isOk ∨ k.committed ≠ w.db then tx.insertedIds ++ w.stored else w.stored }
  | .fs _, a, w' => w' = w ∧ (a = .ok () ∨ ∃ m, a = .error (.other m))
  | c, a, w' => Exec restic t w c a w'

def statementServer (P : Platform) (timeouts : ResticTimeouts) (dialect : Dialect) (restic : Restic R)
    (admits : Operation → Prop) : System (World R) Cmd Cmd.Answer Failure Response Operation where
  admits := admits
  body := serve P timeouts
  exec := fun t _ _ => StatementExec dialect restic t
  environment := Outside restic

/-- What the server with transactions takes for granted: a write that is answered with an error has had no
effect, and a directory is removed. -/
def Smooth (w : World R) : (c : Cmd) → c.Answer → World R → Prop
  | .transact _, .error _, w' => w' = w
  | .fs .remove, a, _ => a = .ok ()
  | _, _, _ => True

/-- The server with statements while nothing of it happens. -/
def smoothServer (P : Platform) (timeouts : ResticTimeouts) (dialect : Dialect) (restic : Restic R)
    (admits : Operation → Prop) : System (World R) Cmd Cmd.Answer Failure Response Operation :=
  { statementServer P timeouts dialect restic admits with
    exec := fun t _ _ w c a w' => StatementExec dialect restic t w c a w' ∧ Smooth w c a w' }

section StatementServer
variable {dialect : Dialect} {restic : Restic R} {t : Nat} {w w' : World R}

/-- A write fails and changes nothing, or does all its statements, and then its answer can be lost. -/
theorem statementExec_transact {tx : Transaction} {a : Except Failure Nat}
    (h : StatementExec dialect restic t w (.transact tx) a w') :
    (∃ e, a = .error e ∧ w' = w ∧ ((∃ m, e = .other m) ∨
        tx.work.evaluate Statement.apply w.db = .error e)) ∨
      ∃ db n, tx.work.evaluate Statement.apply w.db = .ok (db, n) ∧
        (a = .ok n ∨ (∃ m, a = .error (.other m)) ∧ db ≠ w.db) ∧
        w' = { w with db := db, stored := tx.insertedIds ++ w.stored } := by
  obtain ⟨k, hruns, rfl⟩ := h
  have hatomic := Transaction.execute_allOrNothing hruns
  cases a with
  | ok n =>
      refine Or.inr ⟨k.committed, n, hatomic, Or.inl rfl, ?_⟩
      rw [if_pos (show (Except.ok n : Except Failure Nat).isOk ∨ k.committed ≠ w.db from Or.inl rfl)]
  | error e =>
      by_cases hsame : k.committed = w.db
      · refine Or.inl ⟨e, rfl, ?_, ?_⟩
        · have hnone : ¬ ((Except.error e : Except Failure Nat).isOk ∨ k.committed ≠ w.db) := by
            rintro (hok | hne)
            · cases hok
            · exact hne hsame
          rw [if_neg hnone, hsame]
        · rcases hatomic with ⟨-, hcause⟩ | ⟨hfault, -⟩
          · exact hcause
          · exact Or.inl hfault
      · rcases hatomic with ⟨hkept, -⟩ | ⟨⟨m, rfl⟩, n, hdone⟩
        · exact absurd hkept hsame
        · exact Or.inr ⟨k.committed, n, hdone, Or.inr ⟨⟨m, rfl⟩, hsame⟩, by rw [if_pos (Or.inr hsame)]⟩

/-- The commands other than writes can do what they do on the server. -/
theorem statementExec_of_exec {c : Cmd} {a : c.Answer} (hc : ∀ tx, c ≠ .transact tx)
    (h : Exec restic t w c a w') : StatementExec dialect restic t w c a w' := by
  cases c with
  | transact tx => exact absurd rfl (hc tx)
  | fs op => exact ⟨h.1, h.2.imp_right And.right⟩
  | _ => exact h

/-- A write that fails without effect. -/
theorem statementExec_failed {tx : Transaction} {e : Failure}
    (h : (tx.execute dialect).Runs DbExec ⟨w.db, .idle⟩ (.error e) ⟨w.db, .idle⟩) :
    StatementExec dialect restic t w (.transact tx) (.error e) w := by
  refine ⟨_, h, ?_⟩
  have hnone : ¬ ((Except.error e : Except Failure Nat).isOk ∨ w.db ≠ w.db) := by
    rintro (hok | hne)
    · cases hok
    · exact hne rfl
  rw [if_neg hnone]

/-- A write that fails and has taken effect. -/
theorem statementExec_lost {tx : Transaction} {e : Failure} {db : Db} (hne : db ≠ w.db)
    (h : (tx.execute dialect).Runs DbExec ⟨w.db, .idle⟩ (.error e) ⟨db, .idle⟩) :
    StatementExec dialect restic t w (.transact tx) (.error e)
      { w with db := db, stored := tx.insertedIds ++ w.stored } := by
  refine ⟨_, h, ?_⟩
  rw [if_pos (Or.inr hne)]

theorem smooth_of_exec {c : Cmd} {a : c.Answer} (h : Exec restic t w c a w') : Smooth w c a w' := by
  cases c with
  | transact tx =>
      cases a with
      | ok n => trivial
      | error e =>
          rcases h with ⟨m, -, rfl⟩ | ⟨e', -, -, rfl⟩ | ⟨db, n, -, hok, -⟩
          · rfl
          · rfl
          · cases hok
  | fs op =>
      cases op with
      | remove =>
          rcases h.2 with rfl | ⟨hremove, -⟩
          · rfl
          · exact absurd rfl hremove
      | _ => trivial
  | _ => trivial

/-- **The server with statements refines the server with transactions** while both assumptions hold. -/
theorem exec_of_statementExec {c : Cmd} {a : c.Answer} (huniform : ∀ tx, c = .transact tx → tx.Uniform)
    (hsmooth : Smooth w c a w') (h : StatementExec dialect restic t w c a w') : Exec restic t w c a w' := by
  cases c with
  | transact tx =>
      rcases statementExec_transact h with ⟨e, rfl, rfl, ⟨m, rfl⟩ | herror⟩ | ⟨db, n, hok, rfl | ⟨⟨m, rfl⟩, hne⟩, rfl⟩
      · exact Or.inl ⟨m, rfl, rfl⟩
      · rw [Transaction.evaluate_work (huniform tx rfl)] at herror
        exact Or.inr (Or.inl ⟨e, herror, rfl, rfl⟩)
      · rw [Transaction.evaluate_work (huniform tx rfl)] at hok
        exact Or.inr (Or.inr ⟨db, n, hok, rfl, rfl⟩)
      · exact absurd (congrArg World.db hsmooth) hne
  | fs op =>
      obtain ⟨hw, hok | herror⟩ := h
      · exact ⟨hw, Or.inl hok⟩
      · refine ⟨hw, Or.inr ⟨?_, herror⟩⟩
        rintro rfl
        obtain ⟨m, rfl⟩ := herror
        cases hsmooth
  | _ => exact h

theorem databaseError_statement {statement : Statement} {db : Db} {e : Failure}
    (h : statement.apply db = .error e) : DatabaseError e := by
  rw [(Statement.apply_error h).2]
  exact databaseError_violation _

theorem statementExec_expects {op : Operation} {v : View} {c : Cmd} {a : c.Answer}
    (hk : Knows restic t op v w) (hsmooth : Smooth w c a w') (h : StatementExec dialect restic t w c a w') :
    v.expects c a := by
  cases c with
  | transact tx =>
      rcases statementExec_transact h with ⟨e, rfl, -, ⟨m, rfl⟩ | herror⟩ | ⟨db, n, -, rfl | ⟨⟨m, rfl⟩, -⟩, -⟩
      · exact databaseError_other m
      · obtain ⟨statement, db, hstatement⟩ := tx.stops_work.evaluate_error herror
        exact databaseError_statement hstatement
      · trivial
      · exact databaseError_other m
  | fs op =>
      have hexec := exec_of_statementExec (fun tx htx => by cases htx) hsmooth h
      exact exec_expects hk.ids hexec
  | _ => exact @exec_expects R restic t v w w' _ a hk.ids h

theorem allows_uniform {P : Platform} {op : Operation} {v : View} {tx : Transaction}
    (h : AllowsTransaction P op v tx) : tx.Uniform := by
  cases tx with
  | secretsDataReplaceForProject projectId secrets state => exact fun s hs => (h.fresh s hs).1
  | _ => trivial

/-- The outline of the server holds with statements too. -/
theorem smoothOutline (P : Platform) (timeouts : ResticTimeouts) (dialect : Dialect) (restic : Restic R)
    (admits : Operation → Prop) :
    Outline (smoothServer P timeouts dialect restic admits) (sections P) .start Inv (Knows restic)
      (Outcome P) := by
  refine (serverOutline P timeouts restic admits).refine (fun _ h => h) rfl rfl
    (fun _ hk h => statementExec_expects hk h.2 h.1) fun hallows h => exec_of_statementExec ?_ h.2 h.1
  rintro tx rfl
  exact allows_uniform hallows

end StatementServer

end SecretsManager
