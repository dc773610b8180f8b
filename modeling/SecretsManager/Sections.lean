import SecretsManager.Projects.ProjectsRoutes

/-!
# Write sections

What an operation holds and has seen, and the discipline of its writes: a transaction that changes the
secrets of a project runs under the write lock of the project, on a list of secrets that was read under
that lock, and stores the hash of the changed list. A replacement has also compared the hash of the list
with the expected one, and stores what was restored and read. Only the refresh of a content hash after a
creation and at the start of a replica goes by a list that was read without the lock.
-/

namespace SecretsManager

open Js Interleaving

/-! ## Views -/

/-- The lock that the operation holds, the project that it found and the last list of secrets that it read
under the lock, the ids that it has generated and not yet stored, the project rows and the last list that it
read without a lock, its last successful restore, its last backup, and the committed transactions with their
counts. -/
structure View where
  lock : Option JsString
  found : Option JsString
  list : Option (JsString × List Secret)
  ids : List JsString
  reads : List (Option Project)
  listed : Option (JsString × List Secret)
  restored : Option (JsString × JsString × List (JsString × FsNode))
  backup : Option (JsString × Dir)
  done : List (Transaction × Nat)

namespace View

def start : View := ⟨none, none, none, [], [], none, none, none, []⟩

def enter (v : View) (lock : JsString) : View := { v with lock := some lock, found := none, list := none }

def leave (v : View) : View := { v with lock := none, found := none, list := none }

def committed (v : View) (tx : Transaction) (n : Nat) : View :=
  { v with
    found := none
    list := none
    ids := v.ids.filter fun id => id ∉ tx.insertedIds
    done := v.done ++ [(tx, n)] }

def step (v : View) : (c : Cmd) → c.Answer → View
  | .projectsGet id, .ok row =>
      if v.lock.isSome then { v with found := row.map fun _ => id } else { v with reads := v.reads ++ [row] }
  | .secretsList projectId, .ok rows =>
      if v.lock.isSome then { v with list := some (projectId, rows) }
      else { v with listed := some (projectId, rows) }
  | .transact tx, .ok n => v.committed tx n
  | .acquire lock, .ok () => v.enter lock
  | .release _, _ => v.leave
  | .uuid, id => { v with ids := id :: v.ids }
  | .restic projectId (.restore snapshotId), a =>
      if a.result.code = .number 0 then { v with restored := some (projectId, snapshotId, a.restored) } else v
  | .restic projectId (.backup dir _), _ => { v with backup := some (projectId, dir) }
  | _, _ => v

end View

/-- The database throws no synchronization error. -/
def DatabaseError (e : Failure) : Prop := ∀ s, e ≠ .sync s

/-- The answers that can be: rows with the id or project of the query, new ids, a removal that succeeds. -/
def View.expects (v : View) : (c : Cmd) → c.Answer → Prop
  | .projectsGet id, .ok row => ∀ p ∈ row, p.id = id
  | .secretsList projectId, .ok rows => ∀ s ∈ rows, s.projectId = projectId
  | .uuid, id => id ∉ v.ids
  | .projectsGet _, .error e | .projectsGetByName _, .error e | .projectsList, .error e
  | .secretsList _, .error e | .secretsGet _, .error e | .transact _, .error e
  | .acquire _, .error e => DatabaseError e
  | .fs .remove, .error _ => False
  | .fs _, .error e => DatabaseError e
  | _, _ => True

/-! ## The discipline -/

section Platform
variable (P : Platform) (op : Operation) (v : View)

def View.Holds (projectId : JsString) : Prop := v.lock = some (projectWriteLockName projectId)

/-- The list of secrets of the project, read in this section. -/
def View.Lists (projectId : JsString) (rows : List Secret) : Prop :=
  v.Holds projectId ∧ v.list = some (projectId, rows)

/-- The project row exists, as read in this section. -/
def View.Finds (projectId : JsString) : Prop := v.Holds projectId ∧ v.found = some projectId

/-- The operations that refresh a content hash without the lock. -/
def Operation.refreshes : Operation → Bool
  | .startUp | .createProject _ => true
  | _ => false

/-- The expected hash of a confirmation: the token of the request, or that of the list read at its start. -/
def View.Expected (projectId : JsString) (sent : Option JsString) (hash : JsString) : Prop :=
  match sent with
  | some token => hash = token
  | none => ∃ rows, v.listed = some (projectId, rows) ∧ hash = rowsHash P rows

/-- The snapshot that a confirmation applies: the one it was sent, and for a discard the one that was last
synchronized when it read the project for the second time. -/
def View.Targets (id : JsString) : Operation → Prop
  | .pull _ snapshotId _ => snapshotId = some (.str id)
  | .restore _ snapshotId _ => id = snapshotId
  | .discard _ _ => ∃ first second rest, v.reads = some first :: second :: rest ∧
      id = (second.getD first).lastSyncSnapshotId
  | _ => False

/-- What a replacement rests on. -/
structure Replaces (projectId : JsString) (secrets : List Secret) (state : ProjectSyncState) : Prop where
  found : v.Finds projectId
  compared : ∃ sent rows, op.confirms = some (projectId, sent) ∧ v.Lists projectId rows ∧
    v.Expected P projectId sent (rowsHash P rows)
  fresh : ∀ s ∈ secrets, s.projectId = projectId ∧ s.version = 1 ∧ s.id ∈ v.ids
  distinct : (secrets.map Secret.id).Nodup
  content : ∃ listing, v.restored = some (projectId, state.snapshotId, listing) ∧
    readSnapshotSecrets P listing = .ok (contents secrets)
  hash : state.contentHash = rowsHash P secrets
  target : v.Targets state.snapshotId op

/-- What the record of a push rests on. -/
structure Records (projectId lastSyncContentHash currentContentHash : JsString) : Prop where
  pushes : op.confirms = none
  current : ∃ rows, v.Lists projectId rows ∧ currentContentHash = rowsHash P rows
  pushed : ∃ rows dir, v.listed = some (projectId, rows) ∧ lastSyncContentHash = rowsHash P rows ∧
    v.backup = some (projectId, dir) ∧ exportSecrets (contents rows) = some dir

/-- What the update of a secret rests on. A full update carries the version of its request. -/
structure Updates (id projectId : JsString) (content : SecretContent) (version : Nat)
    (hash : JsString) : Prop where
  edits : op.confirms = none
  row : ∃ rows s, v.Lists projectId rows ∧ s ∈ rows ∧ s.id = id ∧
    (s.toSecretContent.Storable → content.Storable) ∧
    hash = rowsHash P (changeSecret rows { s with toSecretContent := content })
  requested : ∀ projectId' secretId body, op = .updateSecret projectId' secretId body →
    projectId' = projectId ∧ secretId = id ∧ parseVersion body.version = some version

def AllowsTransaction : Transaction → Prop
  | .projectsDataAdd project => op.refreshes = true ∧ project.currentContentHash = []
  | .projectsDataDeleteCascade projectId => v.Holds projectId ∧ op = .deleteProject projectId
  | .projectsDataUpdateSyncState projectId _ _ lastSyncContentHash currentContentHash =>
      Records P op v projectId lastSyncContentHash currentContentHash
  | .projectsDataUpdateCurrentContentHash projectId hash => op.refreshes = true ∧
      ∃ rows, v.listed = some (projectId, rows) ∧ hash = rowsHash P rows
  | .projectsDataUpdateLastSyncContentHash _ _ => op.refreshes = true
  | .secretsDataAdd secret hash => op.confirms = none ∧ secret.toSecretContent.Storable ∧ secret.version = 1 ∧
      secret.id ∈ v.ids ∧ ∃ rows, v.Lists secret.projectId rows ∧ hash = rowsHash P (rows ++ [secret])
  | .secretsDataUpdate id projectId content _ version hash =>
      Updates P op v id projectId content version hash
  | .secretsDataDelete id projectId hash => op.confirms = none ∧ ∃ rows, v.Lists projectId rows ∧ (∃ s ∈ rows, s.id = id) ∧
      hash = rowsHash P (rows.filter fun s => s.id ≠ id)
  | .secretsDataReplaceForProject projectId secrets state => Replaces P op v projectId secrets state

/-- Locks do not nest, and secrets are listed once without a lock, except by the refreshes. -/
def Allows : Cmd → Prop
  | .secretsList _ => v.lock.isSome = true ∨ v.listed = none ∨ op.refreshes = true
  | .acquire _ => v.lock = none
  | .release lock => v.lock = some lock
  | .transact tx => AllowsTransaction P op v tx
  | _ => True

end Platform

def sections (P : Platform) (op : Operation) : Monitor Cmd Cmd.Answer View :=
  ⟨View.step, Allows P op, View.expects⟩

/-! ## The commands of the data layer -/

section Meets
variable {P : Platform} {op : Operation} {v : View} {α : Type}

theorem meets_projectsDataGet {id : JsString} {Q : Except Failure (Option Project) → View → Prop}
    (hlock : v.lock = none)
    (hok : ∀ row, (∀ p ∈ row, p.id = id) → Q (.ok row) { v with reads := v.reads ++ [row] })
    (herror : ∀ e, DatabaseError e → Q (.error e) v) :
    (projectsDataGet id).Meets (sections P op) v Q := by
  rw [projectsDataGet, meets_bind, meets_lift]
  refine ⟨trivial, fun a ha => ?_⟩
  rw [then_ok, meets_ofExcept]
  cases a with
  | error e => exact herror e ha
  | ok row =>
      have hstep : (sections P op).step v (.projectsGet id) (.ok row) = { v with reads := v.reads ++ [row] } :=
        if_neg (by simp [hlock])
      rw [hstep]
      exact hok row ha

theorem meets_projectsDataGet_inside {id : JsString} {Q : Except Failure (Option Project) → View → Prop}
    (hlock : v.lock.isSome = true)
    (hok : ∀ row, (∀ p ∈ row, p.id = id) → Q (.ok row) { v with found := row.map fun _ => id })
    (herror : ∀ e, DatabaseError e → Q (.error e) v) :
    (projectsDataGet id).Meets (sections P op) v Q := by
  rw [projectsDataGet, meets_bind, meets_lift]
  refine ⟨trivial, fun a ha => ?_⟩
  rw [then_ok, meets_ofExcept]
  cases a with
  | error e => exact herror e ha
  | ok row =>
      have hstep : (sections P op).step v (.projectsGet id) (.ok row) = { v with found := row.map fun _ => id } :=
        if_pos hlock
      rw [hstep]
      exact hok row ha

theorem meets_secretsList {projectId : JsString} {Q : Except Failure (List Secret) → View → Prop}
    (hlock : v.lock = none) (hlisted : v.listed = none ∨ op.refreshes = true)
    (hok : ∀ rows, (∀ s ∈ rows, s.projectId = projectId) →
      Q (.ok rows) { v with listed := some (projectId, rows) })
    (herror : ∀ e, DatabaseError e → Q (.error e) v) :
    (secretsDataListForProject projectId).Meets (sections P op) v Q := by
  rw [secretsDataListForProject, meets_bind, meets_lift]
  refine ⟨Or.inr hlisted, fun a ha => ?_⟩
  rw [then_ok, meets_ofExcept]
  cases a with
  | error e => exact herror e ha
  | ok rows =>
      have hstep : (sections P op).step v (.secretsList projectId) (.ok rows) =
          { v with listed := some (projectId, rows) } := if_neg (by simp [hlock])
      rw [hstep]
      exact hok rows ha

theorem meets_secretsList_inside {projectId : JsString} {Q : Except Failure (List Secret) → View → Prop}
    (hlock : v.lock.isSome = true)
    (hok : ∀ rows, (∀ s ∈ rows, s.projectId = projectId) →
      Q (.ok rows) { v with list := some (projectId, rows) })
    (herror : ∀ e, DatabaseError e → Q (.error e) v) :
    (secretsDataListForProject projectId).Meets (sections P op) v Q := by
  rw [secretsDataListForProject, meets_bind, meets_lift]
  refine ⟨Or.inl hlock, fun a ha => ?_⟩
  rw [then_ok, meets_ofExcept]
  cases a with
  | error e => exact herror e ha
  | ok rows =>
      have hstep : (sections P op).step v (.secretsList projectId) (.ok rows) =
          { v with list := some (projectId, rows) } := if_pos hlock
      rw [hstep]
      exact hok rows ha

theorem meets_transact {tx : Transaction} {Q : Except Failure Nat → View → Prop}
    (hallows : AllowsTransaction P op v tx) (hok : ∀ n, Q (.ok n) (v.committed tx n))
    (herror : ∀ e, DatabaseError e → Q (.error e) v) :
    (Op.transact tx).Meets (sections P op) v Q := by
  rw [Op.transact, meets_bind, meets_lift]
  refine ⟨hallows, fun a ha => ?_⟩
  rw [then_ok, meets_ofExcept]
  cases a with
  | error e => exact herror e ha
  | ok n => exact hok n

theorem meets_newSecret {projectId : JsString} {content : SecretContent} {Q : Except Failure Secret → View → Prop}
    (hok : ∀ id now, id ∉ v.ids →
      Q (.ok ⟨content, id, projectId, now, now, 1⟩) { v with ids := id :: v.ids }) :
    (newSecret projectId content).Meets (sections P op) v Q := by
  rw [newSecret, meets_bind, Op.uuid, meets_lift]
  refine ⟨trivial, fun id hid => ?_⟩
  rw [then_ok, meets_bind, Op.now, meets_lift]
  exact ⟨trivial, fun now _ => hok id now hid⟩

/-- A section holds its lock throughout and releases it with any result. -/
theorem meets_dbUtilsWithLock {name : JsString} {task : Op α} {Q : Except Failure α → View → Prop}
    (hlock : v.lock = none)
    (htask : task.Meets (sections P op) (v.enter name) fun r v' => v'.lock = some name ∧ Q r v'.leave)
    (herror : ∀ e, DatabaseError e → Q (.error e) v) :
    (dbUtilsWithLock name task).Meets (sections P op) v Q := by
  rw [dbUtilsWithLock, meets_bind, meets_lift]
  refine ⟨hlock, fun held hheld => ?_⟩
  rw [then_ok, meets_bind, meets_ofExcept]
  cases held with
  | error e => exact herror e hheld
  | ok =>
      rw [then_ok, meets_tryFinally]
      refine htask.mono fun r v' ⟨hlock', hQ⟩ => ?_
      refine meets_lift.mpr ⟨hlock', fun _ _ => ?_⟩
      rw [then_ok, meets_ofExcept]
      exact hQ

/-! ## Harmless operations -/

/-- A failure that the synchronization routes do not answer with the status of success. -/
def Failure.Refuses (e : Failure) : Prop := (sendSyncError e).status ≠ 200

theorem DatabaseError.refuses {e : Failure} (h : DatabaseError e) : e.Refuses := by
  cases e with
  | sync s => exact absurd rfl (h s)
  | uniqueViolation => show (500 : Nat) ≠ 200; decide
  | other m => show (500 : Nat) ≠ 200; decide

def Honest (r : Except Failure α) : Prop := ∀ e, r = .error e → e.Refuses

theorem honest_ok (a : α) : Honest (.ok a) := by
  intro e he
  cases he

theorem honest_error {e : Failure} (h : e.Refuses) : Honest (.error e : Except Failure α) := by
  rintro _ ⟨⟩
  exact h

theorem Honest.bind {β : Type} {x : Except Failure α} {f : α → Except Failure β} (hx : Honest x)
    (hf : ∀ a, Honest (f a)) : Honest (x >>= f) := by
  cases x with
  | error e => exact honest_error (hx e rfl)
  | ok a => exact hf a

/-- The operation leaves the view as it is, and its failures refuse. -/
def Harmless (P : Platform) (op : Operation) (task : Op α) : Prop :=
  ∀ v, task.Meets (sections P op) v fun r v' => v' = v ∧ Honest r

theorem Harmless.meets {task : Op α} (h : Harmless P op task) {Q : Except Failure α → View → Prop}
    (hok : ∀ a, Q (.ok a) v) (herror : ∀ e, e.Refuses → Q (.error e) v) :
    task.Meets (sections P op) v Q := by
  refine (h v).mono fun r v' ⟨hv, hr⟩ => ?_
  subst hv
  cases r with
  | error e => exact herror e (hr e rfl)
  | ok a => exact hok a

theorem Harmless.bind {β : Type} {task : Op α} {f : α → Op β} (h : Harmless P op task)
    (hf : ∀ a, Harmless P op (f a)) : Harmless P op (task >>= f) := by
  intro v
  rw [meets_bind]
  exact h.meets (fun a => hf a v) fun e he => ⟨rfl, honest_error he⟩

theorem harmless_pure (a : α) : Harmless P op (pure a) := fun _ => ⟨rfl, honest_ok a⟩

theorem harmless_throwSync {message : JsString} {statusCode : Nat} {code : Option JsString}
    (h : statusCode ≠ 200) : Harmless P op (Op.throwSync message statusCode code : Op α) :=
  fun _ => ⟨rfl, honest_error h⟩

/-- A command that the view does not follow, with an answer that can be an error. -/
theorem harmless_query {c : Cmd} {f : c.Answer → Except Failure α} (hallows : ∀ v, (sections P op).allows v c)
    (hstep : ∀ v a, (sections P op).step v c a = v)
    (herror : ∀ v a e, (sections P op).expects v c a → f a = .error e → e.Refuses) :
    Harmless P op (Prog.lift c >>= fun a => Prog.ofExcept (f a)) := by
  intro v
  rw [meets_bind, meets_lift]
  refine ⟨hallows v, fun a ha => ?_⟩
  rw [then_ok, meets_ofExcept, hstep]
  exact ⟨rfl, fun e he => herror v a e ha he⟩

theorem harmless_fs (f : FsOp) : Harmless P op (Op.fs f) := by
  refine harmless_query (fun _ => trivial) (fun _ _ => rfl) fun v a e ha he => ?_
  subst he
  cases f with
  | remove => exact ha.elim
  | _ => exact DatabaseError.refuses ha

theorem harmless_now : Harmless P op Op.now := fun _ => ⟨trivial, fun now _ => ⟨rfl, honest_ok now⟩⟩

theorem harmless_projectsDataGetByName (name : JsString) : Harmless P op (projectsDataGetByName name) := by
  refine harmless_query (fun _ => trivial) (fun _ _ => rfl) fun v a e ha he => ?_
  subst he
  exact DatabaseError.refuses ha

theorem harmless_projectsDataList : Harmless P op projectsDataList := by
  refine harmless_query (fun _ => trivial) (fun _ _ => rfl) fun v a e ha he => ?_
  subst he
  exact DatabaseError.refuses ha

theorem harmless_secretsDataGet (id : JsString) : Harmless P op (secretsDataGet id) := by
  refine harmless_query (fun _ => trivial) (fun _ _ => rfl) fun v a e ha he => ?_
  subst he
  exact DatabaseError.refuses ha

theorem Harmless.foldlM {β : Type} {f : β → α → Op β} (hf : ∀ b a, Harmless P op (f b a)) (l : List α)
    (b : β) : Harmless P op (l.foldlM f b) := by
  induction l generalizing b with
  | nil => exact harmless_pure b
  | cons a l ih =>
      rw [List.foldlM_cons]
      exact (hf b a).bind fun b => ih b

/-- A working directory around an operation changes nothing. -/
theorem meets_withWorkDir {task : Op α} {Q : Except Failure α → View → Prop}
    (htask : task.Meets (sections P op) v Q) (herror : ∀ e, e.Refuses → Q (.error e) v) :
    (withWorkDir task).Meets (sections P op) v Q := by
  have hfinally : ∀ r v, Q r v → Finally (sections P op) Op.removeWorkDir Q r v := by
    intro r v hQ
    refine meets_bind.mpr (meets_lift.mpr ⟨trivial, fun a ha => ?_⟩)
    cases a with
    | error e => exact ha.elim
    | ok =>
        rw [then_ok, meets_ofExcept, then_ok, meets_ofExcept]
        exact hQ
  rw [withWorkDir, meets_bind]
  refine (harmless_fs _).meets (fun _ => ?_) herror
  rw [then_ok, meets_tryFinally, meets_bind]
  refine (harmless_fs _).meets (fun _ => ?_) fun e he => hfinally _ _ (herror e he)
  exact htask.mono hfinally

/-! ## The client -/

variable {timeouts : ResticTimeouts} {client : ResticClient} {result : ResticCommandResult}

theorem refuses_other (message : JsString) : (Failure.other message).Refuses := by
  show (500 : Nat) ≠ 200
  decide

theorem honest_throw_other (message : JsString) :
    Honest (throw (.other message) : Except Failure α) := honest_error (refuses_other message)

theorem honest_runOperation (timeoutMs : Nat) (label : JsString) :
    Honest (runOperation timeoutMs label result) := by
  unfold runOperation
  split_ifs
  · refine honest_error ?_
    show (504 : Nat) ≠ 200
    decide
  · refine honest_error ?_
    show (499 : Nat) ≠ 200
    decide
  · exact honest_ok _

theorem honest_parseSnapshotsOutput (stdout : JsString) : Honest (parseSnapshotsOutput P stdout) := by
  unfold parseSnapshotsOutput
  split
  · exact honest_error (refuses_other _)
  · exact honest_ok _
  · exact honest_error (refuses_other _)
  · exact honest_error (refuses_other _)

theorem honest_repoInitializedResult : Honest (repoInitializedResult P timeouts result) := by
  refine (honest_runOperation _ _).bind fun result => ?_
  split_ifs
  · exact honest_error (refuses_other _)
  · exact honest_ok _
  · exact honest_ok _
  · exact honest_throw_other _

theorem honest_initResult : Honest (initResult P timeouts result) := by
  refine (honest_runOperation _ _).bind fun result => ?_
  split_ifs
  · exact honest_throw_other _
  · exact honest_ok _

theorem honest_snapshotsResult : Honest (snapshotsResult P timeouts result) := by
  refine (honest_runOperation _ _).bind fun result => ?_
  split_ifs
  · exact honest_error (refuses_other _)
  · exact honest_ok _
  · exact honest_throw_other _
  · exact honest_parseSnapshotsOutput _

theorem honest_snapshotResult (id : JsString) : Honest (snapshotResult P timeouts id result) := by
  refine (honest_runOperation _ _).bind fun result => ?_
  split_ifs
  · exact honest_error (refuses_other _)
  · exact honest_ok _
  · exact (honest_parseSnapshotsOutput _).bind fun _ => honest_ok _

theorem honest_backupResult : Honest (backupResult P timeouts result) := by
  refine (honest_runOperation _ _).bind fun result => ?_
  split_ifs
  · exact honest_throw_other _
  · exact honest_ok _

theorem honest_restoreResult : Honest (restoreResult timeouts result) := by
  refine (honest_runOperation _ _).bind fun result => ?_
  split_ifs
  · exact honest_throw_other _
  · exact honest_ok _

theorem harmless_repoInitialized : Harmless P op (client.repoInitialized P) := by
  intro v
  rw [ResticClient.repoInitialized, meets_bind, ResticClient.run, meets_lift]
  refine ⟨trivial, fun a _ => ?_⟩
  rw [then_ok, meets_ofExcept]
  exact ⟨rfl, honest_repoInitializedResult⟩

theorem harmless_init : Harmless P op (client.init P) := by
  intro v
  rw [ResticClient.init, meets_bind, ResticClient.run, meets_lift]
  refine ⟨trivial, fun a _ => ?_⟩
  rw [then_ok, meets_ofExcept]
  exact ⟨rfl, honest_initResult⟩

theorem harmless_snapshots : Harmless P op (client.snapshots P) := by
  intro v
  rw [ResticClient.snapshots, meets_bind, ResticClient.run, meets_lift]
  refine ⟨trivial, fun a _ => ?_⟩
  rw [then_ok, meets_ofExcept]
  exact ⟨rfl, honest_snapshotsResult⟩

theorem harmless_snapshot (id : JsString) : Harmless P op (client.snapshot P id) := by
  intro v
  rw [ResticClient.snapshot, meets_bind, ResticClient.run, meets_lift]
  refine ⟨trivial, fun a _ => ?_⟩
  rw [then_ok, meets_ofExcept]
  exact ⟨rfl, honest_snapshotResult id⟩

theorem meets_backup {dir : Dir} {pushedBy : Option JsString}
    {Q : Except Failure (Option JsString) → View → Prop}
    (hok : ∀ createdId, Q (.ok createdId) { v with backup := some (client.project.id, dir) })
    (herror : ∀ e, e.Refuses → Q (.error e) { v with backup := some (client.project.id, dir) }) :
    (client.backup P dir pushedBy).Meets (sections P op) v Q := by
  rw [ResticClient.backup, meets_bind, ResticClient.run, meets_lift]
  refine ⟨trivial, fun a _ => ?_⟩
  rw [then_ok, meets_ofExcept]
  cases hresult : backupResult P client.timeouts a.result with
  | error e => exact herror e (honest_backupResult e hresult)
  | ok createdId => exact hok createdId

/-- A restore that succeeds has exited 0. -/
theorem meets_restore {snapshotId : JsString} {Q : Except Failure (List (JsString × FsNode)) → View → Prop}
    (hok : ∀ listing, Q (.ok listing) { v with restored := some (client.project.id, snapshotId, listing) })
    (herror : ∀ e restored, e.Refuses → Q (.error e) { v with restored := restored }) :
    (client.restore snapshotId).Meets (sections P op) v Q := by
  rw [ResticClient.restore, meets_bind, ResticClient.run, meets_lift]
  refine ⟨trivial, fun a _ => ?_⟩
  rw [then_ok, meets_bind, meets_ofExcept]
  cases hresult : restoreResult client.timeouts a.result with
  | ok =>
      have hstep : (sections P op).step v (.restic client.project.id (.restore snapshotId)) a =
          { v with restored := some (client.project.id, snapshotId, a.restored) } :=
        if_pos (restoreResult_ok hresult)
      rw [hstep]
      exact hok a.restored
  | error e =>
      have hrestored : ∃ restored, (sections P op).step v (.restic client.project.id (.restore snapshotId)) a =
          { v with restored := restored } := by
        by_cases hcode : a.result.code = .number 0
        · exact ⟨_, if_pos hcode⟩
        · exact ⟨v.restored, if_neg hcode⟩
      obtain ⟨restored, hstep⟩ := hrestored
      rw [hstep]
      exact herror e restored (honest_restoreResult e hresult)

end Meets

end SecretsManager
