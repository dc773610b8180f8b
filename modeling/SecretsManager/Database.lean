import SecretsManager.Restic.ResticResult

/-!
# The database

Two tables with their constraints. Every write of the data layer is one transaction: its statements run
on the tables and the constraints are checked, so a violated one leaves the tables as they were. The
lemmas say what each transaction does to the secrets of a project and to its row.
-/

namespace SecretsManager

open Js SortedBy

structure Tables where
  projects : List Project
  secrets : List Secret
  deriving DecidableEq

/-- The primary keys, the unique indexes and the foreign key of the schema. -/
structure Tables.Valid (t : Tables) : Prop where
  projectId : Distinct Project.id t.projects
  projectName : Distinct Project.name t.projects
  secretId : Distinct Secret.id t.secrets
  secretName : Distinct (fun s : Secret => (s.projectId, s.name)) t.secrets
  foreignKey : ∀ s ∈ t.secrets, s.projectId ∈ t.projects.map Project.id

instance (t : Tables) : Decidable t.Valid :=
  decidable_of_iff
    (Distinct Project.id t.projects ∧ Distinct Project.name t.projects ∧ Distinct Secret.id t.secrets ∧
      Distinct (fun s : Secret => (s.projectId, s.name)) t.secrets ∧
      ∀ s ∈ t.secrets, s.projectId ∈ t.projects.map Project.id)
    ⟨fun ⟨h₁, h₂, h₃, h₄, h₅⟩ => ⟨h₁, h₂, h₃, h₄, h₅⟩,
      fun h => ⟨h.projectId, h.projectName, h.secretId, h.secretName, h.foreignKey⟩⟩

structure Db extends Tables where
  valid : toTables.Valid
  deriving DecidableEq

theorem Db.ext_tables {a b : Db} (h : a.toTables = b.toTables) : a = b := by
  cases a
  cases b
  cases h
  rfl

/-! ## Queries -/

namespace Tables

/-- `GET_PROJECT`. The parameter is compared with the stored text; a column that matches other spellings of it too
is an `IdColumn`. -/
def project? (t : Tables) (id : JsString) : Option Project := t.projects.find? fun p => p.id = id

/-- `LIST_FOR_PROJECT`, up to the order, which is that of the names in the collation of the database. -/
def rows (t : Tables) (projectId : JsString) : List Secret :=
  t.secrets.filter fun s => s.projectId = projectId

/-- `GET_SECRET` -/
def secret? (t : Tables) (id : JsString) : Option Secret := t.secrets.find? fun s => s.id = id

end Tables

/-- The names and data of rows. -/
abbrev contents (rows : List Secret) : List SecretContent := rows.map Secret.toSecretContent

/-! ## Statements -/

namespace Sql

def insertProject (p : Project) (t : Tables) : Tables := { t with projects := t.projects ++ [p] }

def deleteProject (id : JsString) (t : Tables) : Tables :=
  { t with projects := t.projects.filter fun p => p.id ≠ id }

def insertSecret (s : Secret) (t : Tables) : Tables := { t with secrets := t.secrets ++ [s] }

def deleteSecret (id : JsString) (t : Tables) : Tables :=
  { t with secrets := t.secrets.filter fun s => s.id ≠ id }

def deleteByProject (projectId : JsString) (t : Tables) : Tables :=
  { t with secrets := t.secrets.filter fun s => s.projectId ≠ projectId }

/-- `UPDATE projects SET … WHERE "id" = ?` -/
def updateProject (id : JsString) (f : Project → Project) (t : Tables) : Tables :=
  { t with projects := t.projects.map fun p => if p.id = id then f p else p }

def updateSyncState (id snapshotId snapshotTime lastSyncContentHash currentContentHash : JsString) :
    Tables → Tables :=
  updateProject id fun p =>
    { p with
      lastSyncSnapshotId := snapshotId
      lastSyncSnapshotTime := snapshotTime
      lastSyncContentHash := lastSyncContentHash
      currentContentHash := currentContentHash }

def updateCurrentHash (id contentHash : JsString) : Tables → Tables :=
  updateProject id fun p => { p with currentContentHash := contentHash }

def updateLastSyncHash (id contentHash : JsString) : Tables → Tables :=
  updateProject id fun p => { p with lastSyncContentHash := contentHash }

/-- The condition of `UPDATE_SECRET`. -/
def matchesVersion (id projectId : JsString) (expectedVersion : Nat) (s : Secret) : Bool :=
  s.id = id && s.projectId = projectId && s.version = expectedVersion

/-- What `UPDATE_SECRET` makes of a row. -/
def updatedSecret (content : SecretContent) (dateUpdated : JsString) (s : Secret) : Secret :=
  { s with toSecretContent := content, dateUpdated := dateUpdated, version := s.version + 1 }

def updateSecret (id projectId : JsString) (expectedVersion : Nat) (content : SecretContent)
    (dateUpdated : JsString) (t : Tables) : Tables :=
  { t with
    secrets := t.secrets.map fun s =>
      if matchesVersion id projectId expectedVersion s then updatedSecret content dateUpdated s else s }

end Sql

/-! ## Transactions -/

structure ProjectSyncState where
  snapshotId : JsString
  snapshotTime : JsString
  contentHash : JsString
  deriving DecidableEq

/-- The writes of the data layer, each with the parameters that its callers pass. -/
inductive Transaction where
  | projectsDataAdd (project : Project)
  | projectsDataDeleteCascade (projectId : JsString)
  | projectsDataUpdateSyncState
      (id snapshotId snapshotTime lastSyncContentHash currentContentHash : JsString)
  | projectsDataUpdateCurrentContentHash (id contentHash : JsString)
  | projectsDataUpdateLastSyncContentHash (id contentHash : JsString)
  | secretsDataAdd (secret : Secret) (currentContentHash : JsString)
  | secretsDataUpdate (id projectId : JsString) (content : SecretContent) (dateUpdated : JsString)
      (expectedVersion : Nat) (currentContentHash : JsString)
  | secretsDataDelete (id projectId currentContentHash : JsString)
  | secretsDataReplaceForProject (projectId : JsString) (secrets : List Secret)
      (syncState : ProjectSyncState)
  deriving DecidableEq

namespace Transaction

open Sql

/-- The tables after the statements, and the number of rows that a conditional update changed. -/
def run : Transaction → Tables → Tables × Nat
  | projectsDataAdd project, t => (insertProject project t, 1)
  | projectsDataDeleteCascade projectId, t => (deleteProject projectId (deleteByProject projectId t), 1)
  | projectsDataUpdateSyncState id snapshotId time lastSync current, t =>
      (updateSyncState id snapshotId time lastSync current t, 1)
  | projectsDataUpdateCurrentContentHash id hash, t => (updateCurrentHash id hash t, 1)
  | projectsDataUpdateLastSyncContentHash id hash, t => (updateLastSyncHash id hash t, 1)
  | secretsDataAdd secret hash, t => (updateCurrentHash secret.projectId hash (insertSecret secret t), 1)
  | secretsDataUpdate id projectId content dateUpdated expectedVersion hash, t =>
      let affected := t.secrets.countP (matchesVersion id projectId expectedVersion)
      let t := updateSecret id projectId expectedVersion content dateUpdated t
      (if affected = 1 then updateCurrentHash projectId hash t else t, affected)
  | secretsDataDelete id projectId hash, t => (updateCurrentHash projectId hash (deleteSecret id t), 1)
  | secretsDataReplaceForProject projectId secrets syncState, t =>
      let t := secrets.foldl (fun t secret => insertSecret secret t) (deleteByProject projectId t)
      (updateSyncState projectId syncState.snapshotId syncState.snapshotTime syncState.contentHash
        syncState.contentHash t, 1)

/-- The ids of the rows that the transaction inserts. -/
def insertedIds : Transaction → List JsString
  | secretsDataAdd secret _ => [secret.id]
  | secretsDataReplaceForProject _ secrets _ => secrets.map Secret.id
  | _ => []

/-- The error of a violated constraint. -/
def violation (t : Tables) : Failure :=
  if ∀ s ∈ t.secrets, s.projectId ∈ t.projects.map Project.id then .uniqueViolation
  else .other (js "FOREIGN KEY constraint failed")

/-- Commits, or rolls back when a constraint is violated. -/
def commit (tx : Transaction) (db : Db) : Except Failure (Db × Nat) :=
  if h : (tx.run db.toTables).1.Valid then .ok (⟨(tx.run db.toTables).1, h⟩, (tx.run db.toTables).2)
  else .error (violation (tx.run db.toTables).1)

theorem commit_ok {tx : Transaction} {db db' : Db} {n : Nat} (h : tx.commit db = .ok (db', n)) :
    tx.run db.toTables = (db'.toTables, n) := by
  unfold commit at h
  split_ifs at h
  cases h
  rfl

end Transaction

/-! ## Lookups in valid tables -/

theorem Tables.Valid.uniqueNames {t : Tables} (h : t.Valid) (projectId : JsString) :
    UniqueNames (contents (t.rows projectId)) := by
  have hsub : Distinct (fun s : Secret => (s.projectId, s.name)) (t.rows projectId) :=
    h.secretName.sublist List.filter_sublist
  rw [UniqueNames, Distinct, List.map_map]
  refine List.Nodup.of_map (fun name => (projectId, name)) ?_
  rw [List.map_map]
  have hmap : (t.rows projectId).map ((fun name => (projectId, name)) ∘
      (SecretContent.name ∘ Secret.toSecretContent)) =
      (t.rows projectId).map fun s : Secret => (s.projectId, s.name) := by
    refine List.map_congr_left fun s hs => ?_
    have hp : s.projectId = projectId := by simpa using List.of_mem_filter hs
    rw [Function.comp, hp]
    rfl
  rw [hmap]
  exact hsub

theorem Tables.mem_rows {t : Tables} {projectId : JsString} {s : Secret} :
    s ∈ t.rows projectId ↔ s ∈ t.secrets ∧ s.projectId = projectId := by
  simp [Tables.rows]

theorem Tables.project?_eq_some {t : Tables} (h : t.Valid) {id : JsString} {p : Project} :
    t.project? id = some p ↔ p ∈ t.projects ∧ p.id = id := by
  constructor
  · intro hp
    exact ⟨List.mem_of_find?_eq_some hp, by simpa using List.find?_some hp⟩
  · rintro ⟨hp, rfl⟩
    cases hf : t.project? p.id with
    | none =>
        have := List.find?_eq_none.mp hf p hp
        simp at this
    | some q =>
        have hq : q.id = p.id := by simpa using List.find?_some hf
        rw [h.projectId.inj (List.mem_of_find?_eq_some hf) hp hq]

theorem Tables.secret_unique {t : Tables} (h : t.Valid) {r s : Secret} (hr : r ∈ t.secrets)
    (hs : s ∈ t.secrets) (hid : r.id = s.id) : r = s :=
  h.secretId.inj hr hs hid

/-! ## What the statements change -/

namespace Sql

variable {t : Tables} {p : JsString}

@[simp] theorem secrets_updateProject (id : JsString) (f : Project → Project) (t : Tables) :
    (updateProject id f t).secrets = t.secrets := rfl

@[simp] theorem rows_updateProject (id : JsString) (f : Project → Project) (t : Tables) (p : JsString) :
    (updateProject id f t).rows p = t.rows p := rfl

@[simp] theorem rows_updateCurrentHash (id hash : JsString) (t : Tables) (p : JsString) :
    (updateCurrentHash id hash t).rows p = t.rows p := rfl

/-- An update that keeps the ids changes the row of its project only. -/
theorem project?_updateProject {id : JsString} {f : Project → Project} (hf : ∀ q, (f q).id = q.id)
    (t : Tables) (p : JsString) :
    (updateProject id f t).project? p = (t.project? p).map fun q => if q.id = id then f q else q := by
  have hkeep : ∀ q : Project, (if q.id = id then f q else q).id = q.id := by
    intro q
    split_ifs
    · exact hf q
    · rfl
  simp only [Tables.project?, updateProject, List.find?_map, Function.comp_def, hkeep]

theorem rows_insertSecret (s : Secret) (t : Tables) (p : JsString) :
    (insertSecret s t).rows p = if s.projectId = p then t.rows p ++ [s] else t.rows p := by
  by_cases h : s.projectId = p <;> simp [insertSecret, Tables.rows, List.filter_append, h]

theorem rows_deleteSecret (id : JsString) (t : Tables) (p : JsString) :
    (deleteSecret id t).rows p = (t.rows p).filter fun s => s.id ≠ id := by
  simp only [deleteSecret, Tables.rows, List.filter_filter, Bool.and_comm]

theorem rows_deleteByProject (id : JsString) (t : Tables) (p : JsString) :
    (deleteByProject id t).rows p = if p = id then [] else t.rows p := by
  split_ifs with h
  · rw [h, Tables.rows, deleteByProject, List.filter_filter, List.filter_eq_nil_iff]
    simp
  · rw [Tables.rows, deleteByProject, List.filter_filter]
    refine List.filter_congr fun s _ => ?_
    by_cases hs : s.projectId = p <;> simp [hs, h]

theorem rows_updateSecret (id projectId : JsString) (version : Nat) (content : SecretContent)
    (date : JsString) (t : Tables) (p : JsString) :
    (updateSecret id projectId version content date t).rows p =
      (t.rows p).map fun s =>
        if matchesVersion id projectId version s then updatedSecret content date s else s := by
  have hkeep : ∀ s : Secret, (if matchesVersion id projectId version s then updatedSecret content date s
      else s).projectId = s.projectId := by
    intro s
    split_ifs <;> rfl
  simp only [Tables.rows, updateSecret, List.filter_map, Function.comp_def, hkeep]

theorem rows_foldl_insertSecret (secrets : List Secret) (t : Tables) (p : JsString) :
    (secrets.foldl (fun t secret => insertSecret secret t) t).rows p =
      t.rows p ++ secrets.filter fun s => s.projectId = p := by
  induction secrets generalizing t with
  | nil => simp
  | cons s secrets ih =>
      rw [List.foldl_cons, ih, rows_insertSecret, List.filter_cons]
      by_cases h : s.projectId = p <;> simp [h]

theorem projects_foldl_insertSecret (secrets : List Secret) (t : Tables) :
    (secrets.foldl (fun t secret => insertSecret secret t) t).projects = t.projects := by
  induction secrets generalizing t with
  | nil => rfl
  | cons s secrets ih => exact ih _

theorem secrets_foldl_insertSecret (secrets : List Secret) (t : Tables) :
    (secrets.foldl (fun t secret => insertSecret secret t) t).secrets = t.secrets ++ secrets := by
  induction secrets generalizing t with
  | nil => simp
  | cons s secrets ih =>
      rw [List.foldl_cons, ih, insertSecret]
      simp

end Sql

end SecretsManager
