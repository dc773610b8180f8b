import SecretsManager.Library.Sequential
import SecretsManager.Runs
import SecretsManager.Statements

/-!
# Crashes of the hash backfill

The backfill of a starting replica writes up to two hashes of a project, the current one first, and skips
every project that has a current one. A run that stops between two projects, or before it writes at all,
leaves rows that the next run completes. A run that stops between the two writes of one project leaves a row
that every later run skips, with the legacy baseline in it. That is the only way in which crashes change the
outcome (`backfill_survives_iff`).
-/

namespace SecretsManager

open Js Interleaving SortedBy

variable {R : Type} {restic : Restic R} {P : Platform} {t : Nat} {w w' : World R} {db : Db}

/-! ## The writes of a run -/

/-- The transactions that a run has committed, in their order. -/
def writesOf (l : List (ServerEvent R)) : List Transaction :=
  l.filterMap fun e => (committed? e).map Prod.fst

/-- The tables after transactions that were committed one after the other. -/
def Tables.after (tables : Tables) (writes : List Transaction) : Tables :=
  writes.foldl (fun tables tx => (tx.run tables).1) tables

theorem tables_of_reaches {α : Type} {p q : Op α} {l : List (ServerEvent R)}
    (h : p.Reaches (Exec restic t) w l q w') : w'.db.toTables = w.db.toTables.after (writesOf l) := by
  induction h with
  | here => rfl
  | @call c next w a w₁ l q w' hexec _ ih =>
      rw [ih]
      unfold writesOf
      rw [List.filterMap_cons]
      cases hcommitted : committed? (⟨w, c, a, w₁⟩ : ServerEvent R) with
      | none => rw [exec_db hexec hcommitted, Option.map_none]
      | some write =>
          obtain ⟨tx, n⟩ := write
          obtain ⟨_, _, heq⟩ := committed?_eq_some hcommitted
          cases heq
          rw [← show _ = w₁.db.toTables from congrArg Prod.fst (exec_committed hexec).1, Option.map_some]
          rfl

/-- The project of which a transaction writes one hash and nothing else. -/
def hashOwner : Transaction → Option JsString
  | .projectsDataUpdateCurrentContentHash id _ | .projectsDataUpdateLastSyncContentHash id _ => some id
  | _ => none

/-- What such a transaction makes of a row. -/
def writeHash (project : Project) : Transaction → Project
  | .projectsDataUpdateCurrentContentHash id hash =>
      if project.id = id then { project with currentContentHash := hash } else project
  | .projectsDataUpdateLastSyncContentHash id hash =>
      if project.id = id then { project with lastSyncContentHash := hash } else project
  | _ => project

theorem Tables.after_hashes {writes : List Transaction} (h : ∀ tx ∈ writes, ∃ id, hashOwner tx = some id)
    (tables : Tables) :
    tables.after writes =
      { tables with projects := tables.projects.map fun project => writes.foldl writeHash project } := by
  induction writes generalizing tables with
  | nil =>
      simp only [Tables.after, List.foldl_nil, List.map_id']
  | cons tx writes ih =>
      obtain ⟨⟨id, hid⟩, hwrites⟩ := List.forall_mem_cons.mp h
      have hrun : (tx.run tables).1 =
          { tables with projects := tables.projects.map fun project => writeHash project tx } := by
        unfold hashOwner at hid
        split at hid <;> cases hid <;> rfl
      calc tables.after (tx :: writes)
          = (tx.run tables).1.after writes := rfl
        _ = _ := by
            rw [ih hwrites, hrun]
            simp only [List.map_map, Function.comp_def, List.foldl_cons]

theorem writeHash_id (project : Project) (tx : Transaction) : (writeHash project tx).id = project.id := by
  unfold writeHash
  split
  · split_ifs <;> rfl
  · split_ifs <;> rfl
  · rfl

/-- Only the writes for its own project change a row. -/
theorem foldl_writeHash_filter {writes : List Transaction}
    (h : ∀ tx ∈ writes, ∃ id, hashOwner tx = some id) (project : Project) :
    writes.foldl writeHash project =
      (writes.filter fun tx => hashOwner tx = some project.id).foldl writeHash project := by
  induction writes generalizing project with
  | nil => rfl
  | cons tx writes ih =>
      obtain ⟨⟨id, hid⟩, hwrites⟩ := List.forall_mem_cons.mp h
      rw [List.foldl_cons, ih hwrites, writeHash_id, List.filter_cons]
      by_cases howner : hashOwner tx = some project.id
      · rw [if_pos (decide_eq_true howner), List.foldl_cons]
      · have hkeep : writeHash project tx = project := by
          have hne : project.id ≠ id := fun heq => howner (hid.trans (congrArg some heq.symm))
          unfold hashOwner at hid
          split at hid <;> cases hid <;> exact if_neg hne
        rw [if_neg (by simpa using howner), hkeep]

/-! ## The writes of the backfill -/

section Writes
variable (P : Platform) (db : Db) (project : Project)

/-- The content did not change since the synchronization, whose hash is a legacy one. -/
def LegacyBaseline : Prop :=
  project.lastSyncContentHash ≠ [] ∧ project.lastSyncContentHash ≠ rowsHash P (db.rows project.id) ∧
    project.lastSyncContentHash = computeSecretsHashLegacy P (contents (db.rows project.id))

instance : Decidable (LegacyBaseline P db project) := inferInstanceAs (Decidable (_ ∧ _ ∧ _))

def currentWrite : Transaction :=
  .projectsDataUpdateCurrentContentHash project.id (rowsHash P (db.rows project.id))

def baselineWrite : Transaction :=
  .projectsDataUpdateLastSyncContentHash project.id (rowsHash P (db.rows project.id))

/-- What the backfill writes for a project. -/
def backfillWrites : List Transaction :=
  if project.currentContentHash ≠ [] then []
  else if LegacyBaseline P db project then [currentWrite P db project, baselineWrite P db project]
  else [currentWrite P db project]

/-- The row that the backfill leaves. -/
def backfilled : Project :=
  if project.currentContentHash ≠ [] then project
  else
    { project with
      currentContentHash := rowsHash P (db.rows project.id)
      lastSyncContentHash :=
        if LegacyBaseline P db project then rowsHash P (db.rows project.id) else project.lastSyncContentHash }

end Writes

theorem computeSecretsHashLegacy_perm {a b : List SecretContent} (P : Platform) (ha : UniqueNames a)
    (hab : a.Perm b) : computeSecretsHashLegacy P a = computeSecretsHashLegacy P b := by
  have hdistinct : Distinct Prod.fst (a.map fun s => (s.name, s.data)) := by
    rw [Distinct, List.map_map]
    exact ha
  rw [computeSecretsHashLegacy, computeSecretsHashLegacy, hdistinct.sortBy_eq_of_perm (hab.map _)]

section Program
variable {project : Project} {q : Op Unit} {l : List (ServerEvent R)}

/-- A program that starts with a query stops in it without a write, or goes on with what it has read. -/
theorem reaches_secretsList {α : Type} {id : JsString} {f : List Secret → Op α} {q : Op α}
    (h : (secretsDataListForProject id >>= f).Reaches (Exec restic t) w l q w') :
    (writesOf l = [] ∧ ∀ r, q ≠ .ret r) ∨ ∃ rows l', writesOf l = writesOf l' ∧ rows.Perm (w.db.rows id) ∧
      (f rows).Reaches (Exec restic t) w l' q w' := by
  rcases reaches_answer_bind (c := Cmd.secretsList id) (f := fun a => a) (g := f) h with
    ⟨hl, hq⟩ | ⟨a, w₁, rows, l, hexec, rfl, rfl, hrest⟩
  · refine Or.inl ⟨?_, hq⟩
    rcases hl with rfl | ⟨a, w₁, e, -, -, rfl⟩ <;> rfl
  · have hperm := exec_listed hexec
    obtain ⟨rfl, -⟩ := hexec
    exact Or.inr ⟨rows, l, rfl, hperm, hrest⟩

theorem reaches_projectsList {α : Type} {f : List Project → Op α} {q : Op α}
    (h : (projectsDataList >>= f).Reaches (Exec restic t) w l q w') :
    (writesOf l = [] ∧ ∀ r, q ≠ .ret r) ∨ ∃ projects l', writesOf l = writesOf l' ∧
      projects.Perm w.db.projects ∧ (f projects).Reaches (Exec restic t) w l' q w' := by
  rcases reaches_answer_bind (c := Cmd.projectsList) (f := fun a => a) (g := f) h with
    ⟨hl, hq⟩ | ⟨a, w₁, projects, l, hexec, rfl, rfl, hrest⟩
  · refine Or.inl ⟨?_, hq⟩
    rcases hl with rfl | ⟨a, w₁, e, -, -, rfl⟩ <;> rfl
  · obtain ⟨rfl, ⟨_, heq, hperm⟩ | ⟨m, heq⟩⟩ := hexec <;> cases heq
    exact Or.inr ⟨projects, l, rfl, hperm, hrest⟩

theorem reaches_transact {α : Type} {tx : Transaction} {f : Nat → Op α} {q : Op α}
    (h : (Op.transact tx >>= f).Reaches (Exec restic t) w l q w') :
    (writesOf l = [] ∧ ∀ r, q ≠ .ret r) ∨ ∃ n w₁ l', writesOf l = tx :: writesOf l' ∧
      (f n).Reaches (Exec restic t) w₁ l' q w' := by
  rcases reaches_answer_bind (c := Cmd.transact tx) (f := fun a => a) (g := f) h with
    ⟨hl, hq⟩ | ⟨a, w₁, n, l, -, rfl, rfl, hrest⟩
  · refine Or.inl ⟨?_, hq⟩
    rcases hl with rfl | ⟨a, w₁, e, -, rfl, rfl⟩ <;> rfl
  · exact Or.inr ⟨n, w₁, l, rfl, hrest⟩

theorem writes_of_backfillProject (hsecrets : w.db.secrets = db.secrets)
    (h : (backfillProject P project).Reaches (Exec restic t) w l q w') :
    writesOf l <+: backfillWrites P db project ∧
      ((∃ r, q = .ret r) → writesOf l = backfillWrites P db project) := by
  have hrows : w.db.rows project.id = db.rows project.id := by
    unfold Tables.rows
    rw [hsecrets]
  have hnames := db.valid.uniqueNames project.id
  have hstopped : ∀ {writes : List Transaction}, writesOf l = [] → (∀ r, q ≠ .ret r) →
      writesOf l <+: writes ∧ ((∃ r, q = .ret r) → writesOf l = writes) :=
    fun hl hq => ⟨hl ▸ List.nil_prefix, fun ⟨r, hr⟩ => absurd hr (hq r)⟩
  unfold backfillProject at h
  unfold backfillWrites
  split_ifs at h with hcurrent
  · obtain ⟨rfl, -, -⟩ := reaches_ret.mp h
    rw [if_pos hcurrent]
    exact ⟨List.nil_prefix, fun _ => rfl⟩
  · rw [if_neg hcurrent]
    rcases reaches_secretsList h with ⟨hl, hq⟩ | ⟨rows, l₁, hl₁, hperm, h⟩
    · exact hstopped hl hq
    · rw [hrows] at hperm
      have hcanonical : rowsHash P rows = rowsHash P (db.rows project.id) :=
        (rowsHash_perm P hnames hperm.symm).symm
      have hlegacy : computeSecretsHashLegacy P (contents rows) =
          computeSecretsHashLegacy P (contents (db.rows project.id)) :=
        (computeSecretsHashLegacy_perm P hnames (hperm.symm.map _)).symm
      dsimp only at h
      rw [hcanonical, hlegacy] at h
      rcases reaches_transact h with ⟨hl, hq⟩ | ⟨n, w₁, l₂, hl₂, h⟩
      · exact hstopped (hl₁.trans hl) hq
      · by_cases hbaseline : LegacyBaseline P db project
        · rw [if_pos hbaseline]
          rw [if_pos (show _ ∧ _ ∧ _ from hbaseline)] at h
          rcases reaches_transact h with ⟨hl, hq⟩ | ⟨n, w₂, l₃, hl₃, h⟩
          · rw [hl₁, hl₂, hl]
            exact ⟨⟨[_], rfl⟩, fun ⟨r, hr⟩ => absurd hr (hq r)⟩
          · obtain ⟨rfl, -, -⟩ := reaches_ret.mp h
            rw [hl₁, hl₂, hl₃]
            exact ⟨List.prefix_rfl, fun _ => rfl⟩
        · rw [if_neg hbaseline]
          rw [if_neg (show ¬ (_ ∧ _ ∧ _) from hbaseline)] at h
          obtain ⟨rfl, -, -⟩ := reaches_ret.mp h
          rw [hl₁, hl₂]
          exact ⟨List.prefix_rfl, fun _ => rfl⟩

theorem hashOwner_backfillWrites {tx : Transaction} (h : tx ∈ backfillWrites P db project) :
    hashOwner tx = some project.id := by
  unfold backfillWrites at h
  split_ifs at h
  · cases h
  · rcases List.mem_pair.mp h with rfl | rfl <;> rfl
  · rw [List.mem_singleton.mp h]
    rfl

theorem writes_of_forM {projects : List Project} (hsecrets : w.db.secrets = db.secrets)
    (h : (projects.forM (backfillProject P)).Reaches (Exec restic t) w l q w') :
    writesOf l <+: projects.flatMap (backfillWrites P db) ∧
      ((∃ r, q = .ret r) → writesOf l = projects.flatMap (backfillWrites P db)) := by
  induction projects generalizing w l with
  | nil =>
      obtain ⟨rfl, -, -⟩ := reaches_ret.mp h
      exact ⟨List.nil_prefix, fun _ => rfl⟩
  | cons project projects ih =>
      have h : (backfillProject P project >>= fun _ => projects.forM (backfillProject P)).Reaches
          (Exec restic t) w l q w' := h
      rw [List.flatMap_cons]
      rcases reaches_bind h with ⟨p', hp, hq⟩ | ⟨_, w₁, l₁, l₂, rfl, hp, hrest⟩
      · obtain ⟨hstart, -⟩ := writes_of_backfillProject hsecrets hp
        exact ⟨hstart.trans (List.prefix_append ..), fun ⟨r, hr⟩ => absurd hr (hq r)⟩
      · obtain ⟨hstart, hwhole⟩ := writes_of_backfillProject hsecrets hp
        have hsecrets₁ : w₁.db.secrets = db.secrets := by
          rw [tables_of_reaches hp, Tables.after_hashes fun tx htx => ⟨_, hashOwner_backfillWrites (hstart.mem htx)⟩]
          exact hsecrets
        obtain ⟨hrestStart, hwhole₂⟩ := ih hsecrets₁ hrest
        have happend : writesOf (l₁ ++ l₂) = backfillWrites P db project ++ writesOf l₂ := by
          rw [← hwhole ⟨_, rfl⟩]
          exact List.filterMap_append
        rw [happend]
        exact ⟨(List.prefix_append_right_inj _).mpr hrestStart, fun hr => by rw [hwhole₂ hr]⟩

end Program

/-! ## What a run leaves -/

/-- The writes for a row. -/
def writesFor (project : Project) (writes : List Transaction) : List Transaction :=
  writes.filter fun tx => hashOwner tx = some project.id

theorem writesFor_flatMap {projects : List Project} (h : Distinct Project.id projects) {project : Project}
    (hp : project ∈ projects) :
    writesFor project (projects.flatMap (backfillWrites P db)) = backfillWrites P db project := by
  have hother : ∀ p : Project, p.id ≠ project.id → writesFor project (backfillWrites P db p) = [] := by
    intro p hne
    refine List.filter_eq_nil_iff.mpr fun tx htx => ?_
    rw [hashOwner_backfillWrites htx, decide_eq_true_eq, Option.some_inj]
    exact hne
  induction projects with
  | nil => cases hp
  | cons p projects ih =>
      obtain ⟨hdistinct, hrest⟩ := distinct_cons.mp h
      unfold writesFor at hother ih ⊢
      rw [List.flatMap_cons, List.filter_append]
      rcases List.mem_cons.mp hp with rfl | hp
      · have hself : (backfillWrites P db project).filter (fun tx => hashOwner tx = some project.id) =
            backfillWrites P db project :=
          List.filter_eq_self.mpr fun tx htx => decide_eq_true (hashOwner_backfillWrites htx)
        have hnone : (projects.flatMap (backfillWrites P db)).filter
            (fun tx => hashOwner tx = some project.id) = [] := by
          rw [List.filter_flatMap, List.flatMap_eq_nil_iff]
          exact fun q hq => hother q (hdistinct q hq)
        rw [hself, hnone, List.append_nil]
      · rw [hother p fun heq => hdistinct project hp heq.symm, List.nil_append]
        exact ih hrest hp

/-- A run of the backfill, finished or not, writes some of the hashes of each project in their order. -/
structure BackfillRun (P : Platform) (db db' : Db) (writes : List Transaction) : Prop where
  secrets : db'.secrets = db.secrets
  projects : db'.projects = db.projects.map fun project => (writesFor project writes).foldl writeHash project
  prefixes : ∀ project ∈ db.projects, writesFor project writes <+: backfillWrites P db project

theorem backfillRun_of_prefix {writes : List Transaction} {projects : List Project}
    (hperm : projects.Perm db.projects) (hstart : writes <+: projects.flatMap (backfillWrites P db)) {db' : Db}
    (htables : db'.toTables = db.toTables.after writes) : BackfillRun P db db' writes := by
  have howner : ∀ tx ∈ writes, ∃ id, hashOwner tx = some id := by
    intro tx htx
    obtain ⟨p, -, hp⟩ := List.mem_flatMap.mp (hstart.mem htx)
    exact ⟨p.id, hashOwner_backfillWrites hp⟩
  rw [Tables.after_hashes howner] at htables
  refine ⟨by rw [htables], ?_, fun project hp => ?_⟩
  · rw [htables]
    exact List.map_congr_left fun project _ => foldl_writeHash_filter howner project
  · rw [← writesFor_flatMap (db.valid.projectId.perm hperm.symm) (hperm.mem_iff.mpr hp)]
    exact hstart.filter _

theorem backfillRun_of_reaches {q : Op Unit} {l : List (ServerEvent R)}
    (h : (secretsHashBackfillAll P).Reaches (Exec restic t) w l q w') :
    BackfillRun P w.db w'.db (writesOf l) := by
  have htables := tables_of_reaches h
  rcases reaches_projectsList h with ⟨hl, -⟩ | ⟨projects, l₁, hl₁, hperm, hrest⟩
  · exact backfillRun_of_prefix (.refl _) (hl ▸ List.nil_prefix) htables
  · exact backfillRun_of_prefix hperm (hl₁ ▸ (writes_of_forM rfl hrest).1) htables

theorem foldl_backfillWrites (project : Project) :
    (backfillWrites P db project).foldl writeHash project = backfilled P db project := by
  unfold backfillWrites backfilled
  split_ifs
  · rfl
  · simp only [List.foldl_cons, List.foldl_nil, writeHash, currentWrite, baselineWrite, if_true]
  · simp only [List.foldl_cons, List.foldl_nil, writeHash, currentWrite, if_true]

/-- A run to the end fills every row. -/
theorem projects_of_runs (h : (secretsHashBackfillAll P).Runs (Exec restic t) w (.ok ()) w') :
    w'.db.secrets = w.db.secrets ∧ w'.db.projects = w.db.projects.map (backfilled P w.db) := by
  obtain ⟨l, hl⟩ := h.reaches
  have hrun := backfillRun_of_reaches hl
  refine ⟨hrun.secrets, ?_⟩
  rw [hrun.projects]
  refine List.map_congr_left fun project hp => ?_
  rcases reaches_projectsList hl with ⟨-, hq⟩ | ⟨projects, l₁, hl₁, hperm, hrest⟩
  · exact absurd rfl (hq ())
  · rw [hl₁, (writes_of_forM rfl hrest).2 ⟨(), rfl⟩,
      writesFor_flatMap (w.db.valid.projectId.perm hperm.symm) (hperm.mem_iff.mpr hp), foldl_backfillWrites]

/-! ## Crashes -/

/-- The current hash of a project is written and its legacy baseline is not. -/
def Torn (P : Platform) (db : Db) (writes : List Transaction) (project : Project) : Prop :=
  LegacyBaseline P db project ∧ currentWrite P db project ∈ writes ∧ baselineWrite P db project ∉ writes

theorem mem_writesFor {project : Project} {writes : List Transaction} (tx : Transaction)
    (howner : hashOwner tx = some project.id) : tx ∈ writesFor project writes ↔ tx ∈ writes := by
  rw [writesFor, List.mem_filter, decide_eq_true_eq, and_iff_left howner]

section Crash
variable {db' : Db} {writes : List Transaction} (hrun : BackfillRun P db db' writes) {project : Project}
  (hp : project ∈ db.projects)
include hrun hp

/-- A crashed run leaves a row as it was, fills it, or stops between its two writes. -/
theorem BackfillRun.row_cases :
    (writesFor project writes).foldl writeHash project = project ∨
      (writesFor project writes).foldl writeHash project = backfilled P db project ∨
        Torn P db writes project := by
  rw [← foldl_backfillWrites, Torn, ← mem_writesFor (currentWrite P db project) rfl,
    ← mem_writesFor (baselineWrite P db project) rfl]
  have hstart := hrun.prefixes project hp
  unfold backfillWrites at hstart ⊢
  split_ifs at hstart ⊢ with hcurrent hbaseline
  · rw [List.prefix_nil.mp hstart]
    exact Or.inl rfl
  · rcases List.prefix_cons_iff.mp hstart with hnone | ⟨rest, hsome, hrest⟩
    · rw [hnone]
      exact Or.inl rfl
    · rcases List.prefix_cons_iff.mp hrest with rfl | ⟨_, rfl, hnil⟩
      · rw [hsome]
        exact Or.inr (Or.inr ⟨hbaseline, List.mem_singleton_self _, by simp [currentWrite, baselineWrite]⟩)
      · rw [hsome, List.prefix_nil.mp hnil]
        exact Or.inr (Or.inl rfl)
  · rcases List.prefix_cons_iff.mp hstart with hnone | ⟨rest, hsome, hrest⟩
    · rw [hnone]
      exact Or.inl rfl
    · rw [hsome, List.prefix_nil.mp hrest]
      exact Or.inr (Or.inl rfl)

/-- A row whose writes are torn has the current hash and the legacy baseline. -/
theorem BackfillRun.row_of_torn (htorn : Torn P db writes project) : project.currentContentHash = [] ∧
    (writesFor project writes).foldl writeHash project =
      { project with currentContentHash := rowsHash P (db.rows project.id) } := by
  obtain ⟨hbaseline, hcurrentWrite, hbaselineWrite⟩ := htorn
  rw [← mem_writesFor _ rfl] at hcurrentWrite hbaselineWrite
  have hstart := hrun.prefixes project hp
  unfold backfillWrites at hstart
  split_ifs at hstart with hcurrent
  · rw [List.prefix_nil.mp hstart] at hcurrentWrite
    cases hcurrentWrite
  · refine ⟨not_not.mp hcurrent, ?_⟩
    rcases List.prefix_cons_iff.mp hstart with hnone | ⟨rest, hsome, hrest⟩
    · rw [hnone] at hcurrentWrite
      cases hcurrentWrite
    · rcases List.prefix_cons_iff.mp hrest with rfl | ⟨_, rfl, -⟩
      · rw [hsome]
        exact if_pos rfl
      · rw [hsome] at hbaselineWrite
        simp at hbaselineWrite

end Crash

/-! ## Rows that a full run leaves -/

theorem rows_of_secrets {db' : Db} (h : db'.secrets = db.secrets) (id : JsString) : db'.rows id = db.rows id := by
  unfold Tables.rows
  rw [h]

theorem backfilled_of_secrets {db' : Db} (h : db'.secrets = db.secrets) : backfilled P db' = backfilled P db := by
  funext project
  have hbaseline : LegacyBaseline P db' project ↔ LegacyBaseline P db project := by
    unfold LegacyBaseline
    rw [rows_of_secrets h]
  simp only [backfilled, hbaseline, rows_of_secrets h]

theorem backfilled_id (project : Project) : (backfilled P db project).id = project.id := by
  unfold backfilled
  split_ifs <;> rfl

theorem backfilled_of_current {project : Project} (h : project.currentContentHash ≠ []) :
    backfilled P db project = project := if_pos h

theorem backfilled_backfilled (hdigest : ∀ text, P.sha256 text ≠ []) (project : Project) :
    backfilled P db (backfilled P db project) = backfilled P db project := by
  refine backfilled_of_current ?_
  unfold backfilled
  split_ifs with hcurrent
  · exact hcurrent
  · exact hdigest _
  · exact hdigest _

/-- The baseline that a full run leaves is the hash of the content. -/
def Normalized (P : Platform) (db : Db) (id : JsString) : Prop :=
  ∃ project ∈ db.projects, project.id = id ∧
    (backfilled P db project).lastSyncContentHash = rowsHash P (db.rows id)

theorem normalized_of_legacy {project : Project} (hp : project ∈ db.projects)
    (hcurrent : project.currentContentHash = []) (hbaseline : LegacyBaseline P db project) :
    Normalized P db project.id := by
  refine ⟨project, hp, rfl, ?_⟩
  unfold backfilled
  rw [if_neg (not_not.mpr hcurrent)]
  exact if_pos hbaseline

section Crash
variable {db' : Db} {writes : List Transaction} (hdigest : ∀ text, P.sha256 text ≠ [])
  (hrun : BackfillRun P db db' writes)
include hdigest hrun

/-- A crash that tears no row changes nothing of what a full run leaves. -/
theorem BackfillRun.projects_eq (h : ∀ project ∈ db.projects, ¬ Torn P db writes project) :
    db'.projects.map (backfilled P db') = db.projects.map (backfilled P db) := by
  rw [backfilled_of_secrets hrun.secrets, hrun.projects, List.map_map]
  refine List.map_congr_left fun project hp => ?_
  rw [Function.comp]
  rcases hrun.row_cases hp with hrow | hrow | htorn
  · rw [hrow]
  · rw [hrow, backfilled_backfilled hdigest]
  · exact absurd htorn (h project hp)

/-- A crash normalizes no baseline for the full run. -/
theorem BackfillRun.normalized {id : JsString} (h : Normalized P db' id) : Normalized P db id := by
  obtain ⟨row, hrow, hid, hbaseline⟩ := h
  rw [backfilled_of_secrets hrun.secrets, rows_of_secrets hrun.secrets] at hbaseline
  rw [hrun.projects] at hrow
  obtain ⟨project, hp, rfl⟩ := List.mem_map.mp hrow
  rcases hrun.row_cases hp with hrow | hrow | htorn
  · rw [hrow] at hid hbaseline
    exact ⟨project, hp, hid, hbaseline⟩
  · rw [hrow, backfilled_backfilled hdigest] at hbaseline
    rw [hrow, backfilled_id] at hid
    exact ⟨project, hp, hid, hbaseline⟩
  · obtain ⟨hcurrent, hrow⟩ := hrun.row_of_torn hp htorn
    rw [hrow] at hid
    obtain rfl : project.id = id := hid
    exact normalized_of_legacy hp hcurrent htorn.1

/-- A torn row keeps its legacy baseline for good. -/
theorem BackfillRun.not_normalized {project : Project} (hp : project ∈ db.projects)
    (htorn : Torn P db writes project) : Normalized P db project.id ∧ ¬ Normalized P db' project.id := by
  obtain ⟨hcurrent, hrow⟩ := hrun.row_of_torn hp htorn
  refine ⟨normalized_of_legacy hp hcurrent htorn.1, ?_⟩
  rintro ⟨row, hmem, hid, hbaseline⟩
  have hleft : { project with currentContentHash := rowsHash P (db.rows project.id) } ∈ db'.projects := by
    rw [hrun.projects, ← hrow]
    exact List.mem_map_of_mem hp
  have heq : row = { project with currentContentHash := rowsHash P (db.rows project.id) } :=
    db'.valid.projectId.inj hmem hleft hid
  rw [heq, backfilled_of_current (hdigest _), rows_of_secrets hrun.secrets] at hbaseline
  exact htorn.1.2.1 hbaseline

end Crash

/-! ## Any number of crashes -/

/-- Runs of the backfill that stopped, one after the other, each with the database before it and the
transactions that it has committed. -/
inductive CrashedRuns (P : Platform) (restic : Restic R) :
    World R → List (Db × List Transaction) → World R → Prop where
  | none (w : World R) : CrashedRuns P restic w [] w
  | crash {t : Nat} {w w₁ w' : World R} {l : List (ServerEvent R)} {q : Op Unit}
      {runs : List (Db × List Transaction)} :
      (secretsHashBackfillAll P).Reaches (Exec restic t) w l q w₁ → CrashedRuns P restic w₁ runs w' →
        CrashedRuns P restic w ((w.db, writesOf l) :: runs) w'

def SameHashes (db db' : Db) : Prop :=
  ∀ id, (db.project? id).map (fun p => (p.currentContentHash, p.lastSyncContentHash)) =
    (db'.project? id).map fun p => (p.currentContentHash, p.lastSyncContentHash)

/-- Every project is reported to have local changes in both or in neither. -/
def SameReports (db db' : Db) : Prop :=
  ∀ id, (db.project? id).map (fun p => computeHasLocalChanges p (db.rows id).length) =
    (db'.project? id).map fun p => computeHasLocalChanges p (db'.rows id).length

/-- A full run after the crashes gives what a full run without them gives. -/
def Survives (P : Platform) (restic : Restic R) (w w₁ : World R) : Prop :=
  ∀ t t' w₂ w₃, (secretsHashBackfillAll P).Runs (Exec restic t) w₁ (.ok ()) w₂ →
    (secretsHashBackfillAll P).Runs (Exec restic t') w (.ok ()) w₃ →
      SameHashes w₂.db w₃.db ∧ SameReports w₂.db w₃.db

theorem CrashedRuns.secrets {runs : List (Db × List Transaction)} (h : CrashedRuns P restic w runs w') :
    w'.db.secrets = w.db.secrets := by
  induction h with
  | none => rfl
  | crash hreaches _ ih => exact ih.trans (backfillRun_of_reaches hreaches).secrets

section Runs
variable {runs : List (Db × List Transaction)} (hdigest : ∀ text, P.sha256 text ≠ [])
  (h : CrashedRuns P restic w runs w')
include hdigest h

theorem CrashedRuns.projects_eq (hruns : ∀ run ∈ runs, ∀ project ∈ run.1.projects, ¬ Torn P run.1 run.2 project) :
    w'.db.projects.map (backfilled P w'.db) = w.db.projects.map (backfilled P w.db) := by
  induction h with
  | none => rfl
  | crash hreaches _ ih =>
      obtain ⟨hfirst, hrest⟩ := List.forall_mem_cons.mp hruns
      exact (ih hrest).trans ((backfillRun_of_reaches hreaches).projects_eq hdigest hfirst)

theorem CrashedRuns.normalized {id : JsString} (hnormalized : Normalized P w'.db id) : Normalized P w.db id := by
  induction h with
  | none => exact hnormalized
  | crash hreaches _ ih => exact (backfillRun_of_reaches hreaches).normalized hdigest (ih hnormalized)

/-- A torn row is normalized by a full run without the crashes and by none after them. -/
theorem CrashedRuns.not_normalized {run : Db × List Transaction} (hrun : run ∈ runs) {project : Project}
    (hp : project ∈ run.1.projects) (htorn : Torn P run.1 run.2 project) :
    Normalized P w.db project.id ∧ ¬ Normalized P w'.db project.id := by
  induction h with
  | none => cases hrun
  | crash hreaches hrest ih =>
      have hbackfill := backfillRun_of_reaches hreaches
      rcases List.mem_cons.mp hrun with rfl | hrun
      · obtain ⟨hbefore, hafter⟩ := hbackfill.not_normalized hdigest hp htorn
        exact ⟨hbefore, fun hend => hafter (hrest.normalized hdigest hend)⟩
      · obtain ⟨hbefore, hafter⟩ := ih hrun
        exact ⟨hbackfill.normalized hdigest hbefore, hafter⟩

end Runs

/-! ## A run to the end -/

theorem exists_exec_hash (restic : Restic R) (t : Nat) (w : World R) {tx : Transaction} {id : JsString}
    {f : Project → Project} (hrun : ∀ tables, tx.run tables = (Sql.updateProject id f tables, 1))
    (hid : ∀ p, (f p).id = p.id) (hname : ∀ p, (f p).name = p.name) :
    ∃ w', Exec restic t w (.transact tx) (.ok 1) w' := by
  have hvalid : (tx.run w.db.toTables).1.Valid := by
    rw [hrun]
    exact (Sql.valid_updateProject hid hname).mpr w.db.valid
  have hcount : (tx.run w.db.toTables).2 = 1 := by rw [hrun]
  refine ⟨_, Or.inr (Or.inr ⟨⟨_, hvalid⟩, 1, ?_, rfl, rfl⟩)⟩
  rw [Transaction.commit, dif_pos hvalid, hcount]

theorem exists_runs_backfillProject (P : Platform) (restic : Restic R) (t : Nat) (w : World R) (project : Project) :
    ∃ w', (backfillProject P project).Runs (Exec restic t) w (.ok ()) w' := by
  unfold backfillProject
  split_ifs
  · exact ⟨w, .ret⟩
  · have hcurrentRun : ∀ tables, (currentWrite P w.db project).run tables = _ := fun _ => rfl
    have hbaselineRun : ∀ tables, (baselineWrite P w.db project).run tables = _ := fun _ => rfl
    obtain ⟨w₁, hcurrent⟩ := exists_exec_hash restic t w hcurrentRun (fun _ => rfl) fun _ => rfl
    obtain ⟨w₂, hbaseline⟩ := exists_exec_hash restic t w₁ hbaselineRun (fun _ => rfl) fun _ => rfl
    have hrest : ∃ w', (if LegacyBaseline P w.db project then
        Op.transact (baselineWrite P w.db project) >>= fun _ => pure () else pure () : Op Unit).Runs
          (Exec restic t) w₁ (.ok ()) w' := by
      split_ifs
      · exact ⟨w₂, .call hbaseline .ret⟩
      · exact ⟨w₁, .ret⟩
    obtain ⟨w', hrest⟩ := hrest
    exact ⟨w', .call ⟨rfl, Or.inl ⟨_, rfl, .refl _⟩⟩ (.call hcurrent hrest)⟩

theorem exists_runs_backfill (P : Platform) (restic : Restic R) (t : Nat) (w : World R) :
    ∃ w', (secretsHashBackfillAll P).Runs (Exec restic t) w (.ok ()) w' := by
  have hloop : ∀ (projects : List Project) (w : World R),
      ∃ w', (projects.forM (backfillProject P)).Runs (Exec restic t) w (.ok ()) w' := by
    intro projects
    induction projects with
    | nil => exact fun w => ⟨w, .ret⟩
    | cons project projects ih =>
        intro w
        obtain ⟨w₁, hfirst⟩ := exists_runs_backfillProject P restic t w project
        obtain ⟨w₂, hrest⟩ := ih w₁
        exact ⟨w₂, runs_bind_ok.mpr ⟨(), w₁, hfirst, hrest⟩⟩
  obtain ⟨w', h⟩ := hloop w.db.projects w
  exact ⟨w', .call ⟨rfl, Or.inl ⟨_, rfl, .refl _⟩⟩ h⟩

/-- A run can tear every row that needs both writes. -/
theorem exists_torn (restic : Restic R) (t : Nat) {project : Project} (hp : project ∈ w.db.projects)
    (hcurrent : project.currentContentHash = []) (hbaseline : LegacyBaseline P w.db project) :
    ∃ l q w', (secretsHashBackfillAll P).Reaches (Exec restic t) w l q w' ∧
      writesOf l = [currentWrite P w.db project] ∧ Torn P w.db (writesOf l) project := by
  have hrun : ∀ tables, (currentWrite P w.db project).run tables = _ := fun _ => rfl
  obtain ⟨w', hexec⟩ := exists_exec_hash restic t w hrun (fun _ => rfl) fun _ => rfl
  have hproject : ∃ q, (backfillProject P project).Reaches (Exec restic t) w
      [⟨w, .secretsList project.id, .ok (w.db.rows project.id), w⟩,
        ⟨w, .transact (currentWrite P w.db project), .ok 1, w'⟩] q w' := by
    unfold backfillProject
    rw [if_neg (not_not.mpr hcurrent)]
    exact ⟨_, .call ⟨rfl, Or.inl ⟨_, rfl, .refl _⟩⟩ (.call hexec .here)⟩
  obtain ⟨q, hproject⟩ := hproject
  have hlisted : Exec restic t w .projectsList (.ok (project :: w.db.projects.erase project)) w :=
    ⟨rfl, Or.inl ⟨_, rfl, (List.perm_cons_erase hp).symm⟩⟩
  refine ⟨_, _, w', .call hlisted (hproject.bind _), rfl, hbaseline, List.mem_singleton_self _, fun h => ?_⟩
  have heq : baselineWrite P w.db project = currentWrite P w.db project := List.mem_singleton.mp h
  cases heq

/-- What a full run shows of the baseline of a project. -/
theorem normalized_iff_of_runs {id : JsString} (h : (secretsHashBackfillAll P).Runs (Exec restic t) w (.ok ()) w') :
    Normalized P w.db id ↔
      ∃ row, w'.db.project? id = some row ∧ row.lastSyncContentHash = rowsHash P (w.db.rows id) := by
  have hprojects := (projects_of_runs h).2
  constructor
  · rintro ⟨project, hp, hid, hbaseline⟩
    refine ⟨backfilled P w.db project, (Tables.project?_eq_some w'.db.valid).mpr ⟨?_, ?_⟩, hbaseline⟩
    · rw [hprojects]
      exact List.mem_map_of_mem hp
    · rw [backfilled_id, hid]
  · rintro ⟨row, hrow, hbaseline⟩
    obtain ⟨hmem, hid⟩ := (Tables.project?_eq_some w'.db.valid).mp hrow
    rw [hprojects] at hmem
    obtain ⟨project, hp, rfl⟩ := List.mem_map.mp hmem
    rw [backfilled_id] at hid
    exact ⟨project, hp, hid, hbaseline⟩

/-- **The backfill survives its crashes if and only if none of them comes between the two writes of a project.** -/
theorem backfill_survives_iff (hdigest : ∀ text, P.sha256 text ≠ []) {w₁ : World R}
    {runs : List (Db × List Transaction)} (h : CrashedRuns P restic w runs w₁) :
    Survives P restic w w₁ ↔ ∀ run ∈ runs, ∀ project ∈ run.1.projects, ¬ Torn P run.1 run.2 project := by
  constructor
  · intro hsurvives run hrun project hp htorn
    obtain ⟨w₂, hresumed⟩ := exists_runs_backfill P restic 0 w₁
    obtain ⟨w₃, hwhole⟩ := exists_runs_backfill P restic 0 w
    obtain ⟨hsame, -⟩ := hsurvives 0 0 w₂ w₃ hresumed hwhole
    obtain ⟨hbefore, hafter⟩ := h.not_normalized hdigest hrun hp htorn
    obtain ⟨row, hrow, hbaseline⟩ := (normalized_iff_of_runs hwhole).mp hbefore
    have hid := hsame project.id
    rw [hrow, Option.map_some, Option.map_eq_some_iff] at hid
    obtain ⟨row', hrow', heq⟩ := hid
    refine hafter ((normalized_iff_of_runs hresumed).mpr ⟨row', hrow', ?_⟩)
    rw [(Prod.mk.inj heq).2, hbaseline, rows_of_secrets h.secrets]
  · intro hruns t t' w₂ w₃ hresumed hwhole
    obtain ⟨hsecrets₂, hprojects₂⟩ := projects_of_runs hresumed
    obtain ⟨hsecrets₃, hprojects₃⟩ := projects_of_runs hwhole
    have hdb : w₂.db = w₃.db := by
      have hprojects : w₂.db.projects = w₃.db.projects := by
        rw [hprojects₂, hprojects₃, h.projects_eq hdigest hruns]
      have hsecrets : w₂.db.secrets = w₃.db.secrets := by rw [hsecrets₂, hsecrets₃, h.secrets]
      refine Db.ext_tables ?_
      calc w₂.db.toTables = ⟨w₂.db.projects, w₂.db.secrets⟩ := rfl
        _ = w₃.db.toTables := by rw [hprojects, hsecrets]
    rw [hdb]
    exact ⟨fun _ => rfl, fun _ => rfl⟩

section Example

/-- A secret whose keys are stored in the order of their creation. -/
def legacySecret : Secret :=
  { exampleSecret "k" "1" 1 with data := ⟨[(js "B", js "2"), (js "A", js "1")], by decide⟩ }

/-- A project that was synchronized before the hash was canonical, and not changed since. -/
def legacyProject : Project :=
  { exampleProject with
    lastSyncSnapshotId := js "s1"
    lastSyncContentHash := js "0fed733c78e08f17be25c91c6aee5f7ee7ca02ee49d9a0332a31a5d01e45695f"
    currentContentHash := [] }

def legacyDb : Db := ⟨⟨[legacyProject], [legacySecret]⟩, by decide⟩

noncomputable def backfillPlatform : Platform :=
  .ofDigests
    [(js "[\x7b\"name\":\"api\",\"data\":\x7b\"A\":\"1\",\"B\":\"2\"\x7d\x7d]",
      js "af77a6d1247270dba05889b39e4a4d62fdb0af3ac0ffec630ab85d815be5b203"),
    (js "[\x7b\"name\":\"api\",\"data\":\x7b\"B\":\"2\",\"A\":\"1\"\x7d\x7d]",
      js "0fed733c78e08f17be25c91c6aee5f7ee7ca02ee49d9a0332a31a5d01e45695f")]

theorem legacyBaseline_legacyProject : LegacyBaseline backfillPlatform legacyDb legacyProject := by decide

/-- The replica stops after it has read the list of the projects. -/
theorem backfill_survives_iff_list : ∃ w₁, CrashedRuns backfillPlatform Snapshots.restic
    (World.initial legacyDb []) [(legacyDb, [])] w₁ ∧
      Survives backfillPlatform Snapshots.restic (World.initial legacyDb []) w₁ := by
  have hcrash : CrashedRuns backfillPlatform Snapshots.restic (World.initial legacyDb []) [(legacyDb, [])]
      (World.initial legacyDb []) :=
    .crash (t := 0) (.call ⟨rfl, Or.inl ⟨_, rfl, .refl _⟩⟩ .here) (.none _)
  refine ⟨_, hcrash, (backfill_survives_iff (tableDigest_ne_nil (by decide)) hcrash).mpr ?_⟩
  rintro run hrun project - ⟨-, hcurrent, -⟩
  rw [List.mem_singleton.mp hrun] at hcurrent
  cases hcurrent

def canonicalHash : JsString := js "af77a6d1247270dba05889b39e4a4d62fdb0af3ac0ffec630ab85d815be5b203"

/-- The row after the first write, and after both. -/
def tornRow : Project := { legacyProject with currentContentHash := canonicalHash }

def filledRow : Project := { tornRow with lastSyncContentHash := canonicalHash }

/-- A stop between the two writes: the project is reported to have local changes that it does not have. -/
theorem not_backfill_survives : ∃ w₁ w₂ w₃,
    CrashedRuns backfillPlatform Snapshots.restic (World.initial legacyDb [])
        [(legacyDb, [currentWrite backfillPlatform legacyDb legacyProject])] w₁ ∧
      (secretsHashBackfillAll backfillPlatform).Runs (Exec Snapshots.restic 1) w₁ (.ok ()) w₂ ∧
      (secretsHashBackfillAll backfillPlatform).Runs (Exec Snapshots.restic 0) (World.initial legacyDb [])
        (.ok ()) w₃ ∧ ¬ SameHashes w₂.db w₃.db ∧ ¬ SameReports w₂.db w₃.db := by
  have hmem : legacyProject ∈ legacyDb.projects := List.mem_singleton_self _
  obtain ⟨l, q, w₁, hreaches, hwrites, htorn⟩ := exists_torn (w := World.initial legacyDb []) Snapshots.restic 0
    hmem rfl legacyBaseline_legacyProject
  obtain ⟨w₂, hresumed⟩ := exists_runs_backfill backfillPlatform Snapshots.restic 1 w₁
  obtain ⟨w₃, hwhole⟩ := exists_runs_backfill backfillPlatform Snapshots.restic 0 (World.initial legacyDb [])
  refine ⟨w₁, w₂, w₃, hwrites ▸ .crash hreaches (.none w₁), hresumed, hwhole, ?_⟩
  have hrun := backfillRun_of_reaches hreaches
  have hleft : w₂.db.project? (js "p") = some tornRow := by
    have htornRow : tornRow =
        { legacyProject with currentContentHash := rowsHash backfillPlatform (legacyDb.rows legacyProject.id) } := by
      decide
    have hcrashed : w₁.db.projects = [tornRow] := by
      rw [htornRow]
      exact hrun.projects.trans (congrArg (fun row => [row]) (hrun.row_of_torn hmem htorn).2)
    unfold Tables.project?
    rw [(projects_of_runs hresumed).2, hcrashed, List.map_singleton, backfilled_of_current (by decide)]
    rfl
  have hfilled : w₃.db.project? (js "p") = some filledRow := by
    have hrow : backfilled backfillPlatform legacyDb legacyProject = filledRow := by decide
    have hprojects : w₃.db.projects = [backfilled backfillPlatform legacyDb legacyProject] :=
      (projects_of_runs hwhole).2
    unfold Tables.project?
    rw [hprojects, hrow]
    rfl
  constructor
  · intro hsame
    have hid := hsame (js "p")
    rw [hleft, hfilled] at hid
    revert hid
    decide
  · intro hsame
    have hid := hsame (js "p")
    rw [hleft, hfilled, Option.map_some, Option.map_some] at hid
    have hreport : true = false := Option.some.inj hid
    cases hreport

end Example

end SecretsManager
