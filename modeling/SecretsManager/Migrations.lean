import Mathlib.Data.List.Lex
import Mathlib.Data.Prod.Lex
import Mathlib.Order.Fin.Basic
import SecretsManager.Library.RowNumber

/-!
# The migrations 7 to 11

One secret for each name of a project, versions of secrets, and secrets that belong to a project. The scripts of
SQLite and of PostgreSQL are the same up to the last one: SQLite copies the rows to a new table, PostgreSQL adds a
constraint. A statement that violates a constraint fails.
-/

namespace SecretsManager.Migrations

open RowNumber

/-! ## The schema before -/

/-- Text, as the bytes that both databases compare. -/
abbrev SqlText := List (Fin 256)

/-- A row of `projects` before the migrations. -/
structure ProjectRow where
  id : SqlText
  name : SqlText
  description : Option SqlText
  s3Endpoint : SqlText
  s3Bucket : SqlText
  repoPrefix : SqlText
  s3Region : Option SqlText
  s3BucketLookup : SqlText
  s3AccessKeyId : SqlText
  s3SecretAccessKey : SqlText
  resticPassword : SqlText
  lastSyncSnapshotId : Option SqlText
  lastSyncSnapshotTime : Option SqlText
  dateCreated : SqlText
  lastSyncContentHash : Option SqlText
  deriving DecidableEq

structure SecretRow where
  id : SqlText
  projectId : SqlText
  name : SqlText
  data : Option SqlText
  dateCreated : SqlText
  dateUpdated : SqlText
  deriving DecidableEq

structure UserRow where
  id : SqlText
  name : SqlText
  passwordEncrypted : SqlText
  role : SqlText
  scopes : Option SqlText
  dateCreated : SqlText
  deriving DecidableEq

/-- A database at version 6. The rows of a table have the ids of its primary key. -/
structure SchemaSix where
  projects : List ProjectRow
  secrets : List SecretRow
  users : List UserRow
  projectIds : (projects.map ProjectRow.id).Nodup
  secretIds : (secrets.map SecretRow.id).Nodup

/-! ## The scripts -/

/-- The rows with `currentContentHash`. -/
structure MigratedProject extends ProjectRow where
  currentContentHash : Option SqlText
  deriving DecidableEq

structure MigratedUser extends UserRow where
  tokenVersion : Nat
  deriving DecidableEq

structure MigratedSecret extends SecretRow where
  version : Nat
  deriving DecidableEq

/-- The table of the secrets, with its index on the project and the name and its reference to the projects. -/
structure SecretsTable (Row : Type) where
  rows : List Row
  uniqueIndex : Bool
  foreignKey : Bool
  deriving DecidableEq

/-- `ORDER BY "dateUpdated" DESC, "id"` -/
def updateRank (row : SecretRow) : SqlTextᵒᵈ ×ₗ SqlText := toLex (OrderDual.toDual row.dateUpdated, row.id)

def projectAndName (row : SecretRow) : SqlText × SqlText := (row.projectId, row.name)

/-- The ids of the subquery of the de-duplication. -/
def latestIds (rows : List SecretRow) : List SqlText :=
  (rows.filter fun row => rowNumber projectAndName updateRank rows row = 1).map SecretRow.id

/-- `CREATE UNIQUE INDEX IF NOT EXISTS idx_secrets_project_name` -/
def createUniqueIndex {Row : Type} (toRow : Row → SecretRow) (table : SecretsTable Row) : Option (SecretsTable Row) :=
  if table.uniqueIndex then some table
  else if (table.rows.map (projectAndName ∘ toRow)).Nodup then some { table with uniqueIndex := true }
  else none

/-- `init-0007.sql`, on a table without index and reference. -/
def init0007 (rows : List SecretRow) : Option (SecretsTable SecretRow) :=
  createUniqueIndex id ⟨rows.filter fun row => row.id ∈ latestIds rows, false, false⟩

/-- `init-0008.sql` -/
def init0008 (rows : List ProjectRow) : List MigratedProject := rows.map fun row => ⟨row, none⟩

/-- `init-0009.sql` -/
def init0009 (rows : List UserRow) : List MigratedUser := rows.map fun row => ⟨row, 0⟩

/-- `init-0010.sql` -/
def init0010 (table : SecretsTable SecretRow) : SecretsTable MigratedSecret :=
  ⟨table.rows.map fun row => ⟨row, 1⟩, table.uniqueIndex, table.foreignKey⟩

/-- `INSERT` of a row into the new table: its primary key and its reference are checked. -/
def insertNew (projects : List MigratedProject) (rows : List MigratedSecret) (row : MigratedSecret) : Option (List MigratedSecret) :=
  if row.id ∉ rows.map (fun r => r.id) ∧ row.projectId ∈ projects.map (fun p => p.id) then some (rows ++ [row])
  else none

namespace Sqlite

/-- `init-0011.sql`: the old table is dropped with its index. -/
def init0011 (projects : List MigratedProject) (table : SecretsTable MigratedSecret) : Option (SecretsTable MigratedSecret) := do
  let remaining := table.rows.filter fun row => row.projectId ∈ projects.map fun p => p.id
  let copied ← (remaining.map fun row =>
    { id := row.id
      projectId := row.projectId
      name := row.name
      data := row.data
      dateCreated := row.dateCreated
      dateUpdated := row.dateUpdated
      version := row.version : MigratedSecret }).foldlM (insertNew projects) []
  createUniqueIndex MigratedSecret.toSecretRow ⟨copied, false, true⟩

end Sqlite

namespace Postgres

/-- `init-0011.sql` -/
def init0011 (projects : List MigratedProject) (table : SecretsTable MigratedSecret) : Option (SecretsTable MigratedSecret) :=
  let remaining := table.rows.filter fun row => projects.any fun p => p.id = row.projectId
  if table.foreignKey then some { table with rows := remaining }
  else if ∀ row ∈ remaining, ∃ p ∈ projects, p.id = row.projectId then
    some { table with rows := remaining, foreignKey := true }
  else none

end Postgres

structure SchemaEleven where
  projects : List MigratedProject
  secrets : SecretsTable MigratedSecret
  users : List MigratedUser
  deriving DecidableEq

/-- The migrations 7 to 11, with the last script of the dialect. -/
def migrate (init0011 : List MigratedProject → SecretsTable MigratedSecret → Option (SecretsTable MigratedSecret))
    (db : SchemaSix) : Option SchemaEleven := do
  let secrets ← init0007 db.secrets
  let secrets ← init0011 (init0008 db.projects) (init0010 secrets)
  pure ⟨init0008 db.projects, secrets, init0009 db.users⟩

/-! ## The rows that stay -/

section Rows
variable {rows : List SecretRow} {row : SecretRow}

/-- The row was updated last among those of its project and name, and has the smallest id among such rows. -/
structure Latest (rows : List SecretRow) (row : SecretRow) : Prop where
  mem : row ∈ rows
  last : ∀ other ∈ rows, other.projectId = row.projectId → other.name = row.name →
    other.dateUpdated < row.dateUpdated ∨ other.dateUpdated = row.dateUpdated ∧ row.id ≤ other.id

theorem updateRank_le_iff {row other : SecretRow} : updateRank row ≤ updateRank other ↔
    other.dateUpdated < row.dateUpdated ∨ other.dateUpdated = row.dateUpdated ∧ row.id ≤ other.id := by
  rw [updateRank, updateRank, Prod.Lex.toLex_le_toLex]
  exact or_congr Iff.rfl (and_congr_left fun _ => eq_comm)

theorem latest_iff_rowNumber (hrow : row ∈ rows) :
    rowNumber projectAndName updateRank rows row = 1 ↔ Latest rows row := by
  rw [rowNumber_eq_one_iff]
  constructor
  · exact fun h => ⟨hrow, fun other hother hproject hname =>
      updateRank_le_iff.mp (h other hother (Prod.ext hproject hname))⟩
  · exact fun h other hother hkey =>
      updateRank_le_iff.mpr (h.last other hother (congrArg Prod.fst hkey) (congrArg Prod.snd hkey))

/-- The id at the end of the order tells all rows apart. -/
theorem updateRank_inj (hids : (rows.map SecretRow.id).Nodup) :
    ∀ r ∈ rows, ∀ s ∈ rows, updateRank r = updateRank s → r = s := by
  intro r hr s hs hrank
  have hid : r.id = s.id := congrArg Prod.snd (congrArg ofLex hrank)
  exact List.inj_on_of_nodup_map hids hr hs hid

/-- The de-duplication keeps the rows with number 1. -/
theorem filter_latestIds (hids : (rows.map SecretRow.id).Nodup) :
    (rows.filter fun row => row.id ∈ latestIds rows) =
      rows.filter fun row => rowNumber projectAndName updateRank rows row = 1 := by
  refine List.filter_congr fun row hrow => decide_eq_decide.mpr ?_
  rw [latestIds, List.mem_map]
  constructor
  · rintro ⟨r, hr, hid⟩
    obtain ⟨hr, hfirst⟩ := List.mem_filter.mp hr
    rw [← List.inj_on_of_nodup_map hids hr hrow hid]
    exact of_decide_eq_true hfirst
  · exact fun hfirst => ⟨row, List.mem_filter.mpr ⟨hrow, decide_eq_true hfirst⟩, rfl⟩

theorem nodup_projectAndName (hids : (rows.map SecretRow.id).Nodup) :
    ((rows.filter fun row => rowNumber projectAndName updateRank rows row = 1).map projectAndName).Nodup := by
  refine List.Nodup.map_on (fun r hr s hs hkey => ?_) ((List.Nodup.of_map _ hids).filter _)
  obtain ⟨hr, hrfirst⟩ := List.mem_filter.mp hr
  obtain ⟨hs, hsfirst⟩ := List.mem_filter.mp hs
  exact first_unique (updateRank_inj hids) hs hr hkey (of_decide_eq_true hsfirst) (of_decide_eq_true hrfirst)

theorem init0007_eq (hids : (rows.map SecretRow.id).Nodup) : init0007 rows =
    some ⟨rows.filter fun row => rowNumber projectAndName updateRank rows row = 1, true, false⟩ := by
  rw [init0007, filter_latestIds hids, createUniqueIndex, if_neg Bool.false_ne_true, if_pos]
  exact nodup_projectAndName hids

end Rows

/-! ## The last script -/

section Last
variable {projects : List MigratedProject} {rows : List MigratedSecret}

/-- All rows with new ids and existing projects are copied. -/
theorem foldlM_insertNew {copied : List MigratedSecret} (hids : ((copied ++ rows).map fun r => r.id).Nodup)
    (hprojects : ∀ row ∈ rows, row.projectId ∈ projects.map fun p => p.id) :
    rows.foldlM (insertNew projects) copied = some (copied ++ rows) := by
  induction rows generalizing copied with
  | nil => rw [List.foldlM_nil, List.append_nil]; rfl
  | cons row rows ih =>
      have hnew : row.id ∉ copied.map fun r => r.id := by
        rw [List.map_append, List.map_cons] at hids
        exact fun hmem => List.disjoint_of_nodup_append hids hmem (List.mem_cons_self ..)
      have hinsert : insertNew projects copied row = some (copied ++ [row]) :=
        if_pos ⟨hnew, hprojects row (List.mem_cons_self ..)⟩
      rw [List.foldlM_cons, hinsert]
      have hrest := @ih (copied ++ [row]) (by simpa using hids) fun r hr => hprojects r (List.mem_cons_of_mem _ hr)
      simpa using hrest

theorem sqlite_init0011_eq (hids : (rows.map fun r => r.id).Nodup)
    (hindex : (rows.map (projectAndName ∘ MigratedSecret.toSecretRow)).Nodup) (uniqueIndex foreignKey : Bool) :
    Sqlite.init0011 projects ⟨rows, uniqueIndex, foreignKey⟩ =
      some ⟨rows.filter fun row => row.projectId ∈ projects.map fun p => p.id, true, true⟩ := by
  have hcopy : ∀ remaining : List MigratedSecret, (remaining.map fun row =>
      { id := row.id
        projectId := row.projectId
        name := row.name
        data := row.data
        dateCreated := row.dateCreated
        dateUpdated := row.dateUpdated
        version := row.version : MigratedSecret }) = remaining := fun _ => List.map_id _
  rw [Sqlite.init0011]
  dsimp only
  rw [hcopy, foldlM_insertNew, List.nil_append]
  · rw [Option.bind_eq_bind, Option.bind_some]
    rw [createUniqueIndex, if_neg Bool.false_ne_true, if_pos (hindex.sublist (List.filter_sublist.map _))]
  · rw [List.nil_append]
    exact hids.sublist (List.filter_sublist.map _)
  · exact fun row hrow => of_decide_eq_true (List.mem_filter.mp hrow).2

theorem postgres_init0011_eq (uniqueIndex : Bool) : Postgres.init0011 projects ⟨rows, uniqueIndex, false⟩ =
    some ⟨rows.filter fun row => row.projectId ∈ projects.map fun p => p.id, uniqueIndex, true⟩ := by
  have hexists : ∀ row : MigratedSecret, (projects.any fun p => p.id = row.projectId) = true ↔
      row.projectId ∈ projects.map fun p => p.id := by
    intro row
    rw [List.any_eq_true, List.mem_map]
    exact exists_congr fun p => and_congr_right fun _ => decide_eq_true_iff
  have hsame : (rows.filter fun row => projects.any fun p => p.id = row.projectId) =
      rows.filter fun row => row.projectId ∈ projects.map fun p => p.id :=
    List.filter_congr fun row _ => by rw [Bool.eq_iff_iff, hexists, decide_eq_true_iff]
  rw [Postgres.init0011]
  dsimp only
  rw [if_neg Bool.false_ne_true, if_pos, hsame]
  intro row hrow
  obtain ⟨p, hp, hid⟩ := List.any_eq_true.mp (List.mem_filter.mp hrow).2
  exact ⟨p, hp, of_decide_eq_true hid⟩

end Last

/-! ## Every database -/

/-- The rows after the migrations: of every existing project and name the latest one, with version 1. -/
structure KeepsLatest (db : SchemaSix) (after : SchemaEleven) : Prop where
  projects : after.projects = db.projects.map fun row => ⟨row, none⟩
  users : after.users = db.users.map fun row => ⟨row, 0⟩
  constraints : after.secrets.uniqueIndex = true ∧ after.secrets.foreignKey = true
  rows : ∀ row, row ∈ after.secrets.rows ↔
    row.version = 1 ∧ Latest db.secrets row.toSecretRow ∧ ∃ p ∈ db.projects, p.id = row.projectId
  once : ∀ p ∈ db.projects, ∀ old ∈ db.secrets, old.projectId = p.id → ∃ row, Latest db.secrets row ∧
    (after.secrets.rows.filter fun r => r.projectId = p.id ∧ r.name = old.name) = [⟨row, 1⟩]

/-- The secrets after both last scripts. -/
def keptSecrets (db : SchemaSix) : List MigratedSecret :=
  ((db.secrets.filter fun row => rowNumber projectAndName updateRank db.secrets row = 1).map fun row =>
    (⟨row, 1⟩ : MigratedSecret)).filter fun row => row.projectId ∈ (init0008 db.projects).map fun p => p.id

theorem mem_projects_init0008 {projects : List ProjectRow} {id : SqlText} :
    (id ∈ (init0008 projects).map fun p => p.id) ↔ ∃ p ∈ projects, p.id = id := by
  rw [init0008, List.map_map, List.mem_map]
  rfl

theorem mem_keptSecrets {db : SchemaSix} {row : MigratedSecret} : row ∈ keptSecrets db ↔
    row.version = 1 ∧ Latest db.secrets row.toSecretRow ∧ ∃ p ∈ db.projects, p.id = row.projectId := by
  rw [keptSecrets, List.mem_filter, decide_eq_true_iff, mem_projects_init0008, List.mem_map, ← and_assoc]
  refine and_congr_left fun _ => ?_
  constructor
  · rintro ⟨old, hold, rfl⟩
    obtain ⟨hold, hfirst⟩ := List.mem_filter.mp hold
    exact ⟨rfl, (latest_iff_rowNumber hold).mp (of_decide_eq_true hfirst)⟩
  · rintro ⟨hversion, hlatest⟩
    have hfirst := (latest_iff_rowNumber hlatest.mem).mpr hlatest
    refine ⟨row.toSecretRow, List.mem_filter.mpr ⟨hlatest.mem, decide_eq_true hfirst⟩, ?_⟩
    rw [← hversion]

theorem keepsLatest_kept (db : SchemaSix) :
    KeepsLatest db ⟨init0008 db.projects, ⟨keptSecrets db, true, true⟩, init0009 db.users⟩ where
  projects := rfl
  users := rfl
  constraints := ⟨rfl, rfl⟩
  rows _ := mem_keptSecrets
  once p hp old hold hproject := by
    obtain ⟨row, hrow, hfirst, hfilter⟩ := @filter_first _ _ _ _ _ projectAndName _ _ _
      (List.Nodup.of_map _ db.secretIds) (updateRank_inj db.secretIds) hold
    refine ⟨row, (latest_iff_rowNumber hrow).mp hfirst, ?_⟩
    have hkey : ∀ s : SecretRow, projectAndName s = projectAndName old ↔ s.projectId = p.id ∧ s.name = old.name := by
      intro s
      rw [projectAndName, projectAndName, Prod.mk.injEq, hproject]
    have hexists : p.id ∈ (init0008 db.projects).map fun p => p.id := mem_projects_init0008.mpr ⟨p, hp, rfl⟩
    -- the rows of the name are rows of an existing project
    show (keptSecrets db).filter _ = _
    rw [keptSecrets, List.filter_filter, List.filter_map]
    have hsame : ((db.secrets.filter fun row => rowNumber projectAndName updateRank db.secrets row = 1).filter
        ((fun r : MigratedSecret => decide (r.projectId = p.id ∧ r.name = old.name) &&
          decide (r.projectId ∈ (init0008 db.projects).map fun p => p.id)) ∘ fun row => ⟨row, 1⟩)) = [row] := by
      rw [← hfilter]
      refine List.filter_congr fun s _ => ?_
      rw [Function.comp, Bool.eq_iff_iff, Bool.and_eq_true, decide_eq_true_iff, decide_eq_true_iff, decide_eq_true_iff,
        hkey]
      exact and_iff_left_of_imp fun h => h.1 ▸ hexists
    rw [hsame]
    rfl

theorem migrations_keep_latest (db : SchemaSix) : ∃ after, migrate Sqlite.init0011 db = some after ∧
    migrate Postgres.init0011 db = some after ∧ KeepsLatest db after := by
  have hfirst := init0007_eq db.secretIds
  have hids : (((db.secrets.filter fun row => rowNumber projectAndName updateRank db.secrets row = 1).map fun row =>
      (⟨row, 1⟩ : MigratedSecret)).map fun r => r.id).Nodup := by
    rw [List.map_map]
    exact db.secretIds.sublist (List.filter_sublist.map _)
  have hindex : (((db.secrets.filter fun row => rowNumber projectAndName updateRank db.secrets row = 1).map fun row =>
      (⟨row, 1⟩ : MigratedSecret)).map (projectAndName ∘ MigratedSecret.toSecretRow)).Nodup := by
    rw [List.map_map]
    exact nodup_projectAndName db.secretIds
  refine ⟨_, ?_, ?_, keepsLatest_kept db⟩
  · rw [migrate, hfirst, Option.bind_eq_bind, Option.bind_some, init0010, sqlite_init0011_eq hids hindex]
    rfl
  · rw [migrate, hfirst, Option.bind_eq_bind, Option.bind_some, init0010, postgres_init0011_eq]
    rfl

end SecretsManager.Migrations
