import SecretsManager.Secrets.SecretRequests
import SecretsManager.Secrets.LocalChanges

/-!
# The store without its constraints

The unique index of the secrets and their foreign key are safety nets: the write sections alone keep every
secret in a stored project and the names of a project distinct. To say so, the same programs run on tables
that check the primary keys and the project names only. Every run of theirs is a run of the server
(`looseServer_steps_iff`), so the two constraints never refuse anything. The write sections are those of the id
that the request spells: a request that spells it as no row does enters a section of its own.
-/

namespace SecretsManager

open Js Interleaving SortedBy Sql

variable {R : Type} {restic : Restic R} {P : Platform} {timeouts : ResticTimeouts}
  {admits : Operation → Prop}

/-! ## The loose store -/

/-- The primary keys and the unique names of the projects. -/
structure Tables.Keyed (t : Tables) : Prop where
  projectId : Distinct Project.id t.projects
  projectName : Distinct Project.name t.projects
  secretId : Distinct Secret.id t.secrets

instance (t : Tables) : Decidable t.Keyed :=
  decidable_of_iff
    (Distinct Project.id t.projects ∧ Distinct Project.name t.projects ∧ Distinct Secret.id t.secrets)
    ⟨fun ⟨h₁, h₂, h₃⟩ => ⟨h₁, h₂, h₃⟩, fun h => ⟨h.projectId, h.projectName, h.secretId⟩⟩

/-- No two secrets of a project have the same name, and each belongs to a stored project. -/
structure Tables.Consistent (t : Tables) : Prop where
  secretName : Distinct (fun s : Secret => (s.projectId, s.name)) t.secrets
  project : ∀ s ∈ t.secrets, ∃ p ∈ t.projects, p.id = s.projectId

theorem Tables.valid_iff {t : Tables} : t.Valid ↔ t.Keyed ∧ t.Consistent := by
  constructor
  · intro h
    exact ⟨⟨h.projectId, h.projectName, h.secretId⟩, h.secretName, fun s hs => List.mem_map.mp (h.foreignKey s hs)⟩
  · rintro ⟨hkeyed, hconsistent⟩
    exact ⟨hkeyed.projectId, hkeyed.projectName, hkeyed.secretId, hconsistent.secretName,
      fun s hs => List.mem_map.mpr (hconsistent.project s hs)⟩

/-- Commits without a look at the index and the foreign key of the secrets. -/
def Transaction.commitLoose (tx : Transaction) (t : Tables) : Except Failure (Tables × Nat) :=
  if (tx.run t).1.Keyed then .ok (tx.run t) else .error .uniqueViolation

structure LooseWorld (R : Type) where
  tables : Tables
  locks : List (JsString × Nat)
  issued : List (JsString × Nat)
  stored : List JsString
  repository : R

/-- What a command answers and changes, as in `Exec`, on the loose store. -/
def LooseExec (restic : Restic R) (t : Nat) (w : LooseWorld R) : (c : Cmd) → c.Answer → LooseWorld R → Prop
  | .projectsGet id, a, w' => w' = w ∧ (a = .ok (w.tables.project? id) ∨ ∃ m, a = .error (.other m))
  | .projectsGetByName name, a, w' =>
      w' = w ∧ (a = .ok (w.tables.projects.find? fun p => p.name = name) ∨ ∃ m, a = .error (.other m))
  | .projectsList, a, w' =>
      w' = w ∧ ((∃ l, a = .ok l ∧ l.Perm w.tables.projects) ∨ ∃ m, a = .error (.other m))
  | .secretsList projectId, a, w' =>
      w' = w ∧ ((∃ l, a = .ok l ∧ l.Perm (w.tables.rows projectId)) ∨ ∃ m, a = .error (.other m))
  | .secretsGet id, a, w' => w' = w ∧ (a = .ok (w.tables.secret? id) ∨ ∃ m, a = .error (.other m))
  | .transact tx, a, w' =>
      (∃ m, a = .error (.other m) ∧ w' = w) ∨
        (∃ e, tx.commitLoose w.tables = .error e ∧ a = .error e ∧ w' = w) ∨
          ∃ tables n, tx.commitLoose w.tables = .ok (tables, n) ∧ a = .ok n ∧
            w' = { w with tables := tables, stored := tx.insertedIds ++ w.stored }
  | .acquire lock, a, w' =>
      (∃ m, a = .error (.other m) ∧ w' = w) ∨
        a = .ok () ∧ (∀ t', (lock, t') ∉ w.locks) ∧ w' = { w with locks := (lock, t) :: w.locks }
  | .release lock, _, w' => w' = { w with locks := w.locks.filter fun l => l ≠ (lock, t) }
  | .uuid, id, w' => (∀ t', (id, t') ∉ w.issued) ∧ w' = { w with issued := (id, t) :: w.issued }
  | .now, _, w' => w' = w
  | .restic projectId op, a, w' =>
      ∃ r, restic.run w.repository projectId op a r ∧ w' = { w with repository := r }
  | .fs op, a, w' => w' = w ∧ (a = .ok () ∨ op ≠ .remove ∧ ∃ m, a = .error (.other m))

/-- The programs of the server on the loose store. -/
def looseServer (P : Platform) (timeouts : ResticTimeouts) (restic : Restic R) (admits : Operation → Prop) :
    System (LooseWorld R) Cmd Cmd.Answer Failure Response Operation where
  admits := admits
  body := serve P timeouts
  exec := fun t _ _ => LooseExec restic t
  environment := fun w w' => ∃ r, restic.outside w.repository r ∧ w' = { w with repository := r }

/-- The world without the proof that its tables are valid. -/
def World.loose (w : World R) : LooseWorld R := ⟨w.db.toTables, w.locks, w.issued, w.stored, w.repository⟩

/-! ## Where both stores do the same -/

/-- On consistent tables the two commits give the same tables or the same error. -/
theorem commit_of_commitLoose {tx : Transaction} {db : Db} (h : (tx.run db.toTables).1.Consistent) :
    (tx.commit db).map (fun x => (x.1.toTables, x.2)) = tx.commitLoose db.toTables := by
  unfold Transaction.commit Transaction.commitLoose
  by_cases hkeyed : (tx.run db.toTables).1.Keyed
  · rw [dif_pos (Tables.valid_iff.mpr ⟨hkeyed, h⟩), if_pos hkeyed]
    rfl
  · rw [dif_neg fun hvalid => hkeyed (Tables.valid_iff.mp hvalid).1, if_neg hkeyed, Transaction.violation,
      if_pos fun s hs => List.mem_map.mpr (h.project s hs)]
    rfl

/-- The transaction leaves consistent tables. -/
def Cmd.Safe (c : Cmd) (t : Tables) : Prop := ∀ tx, c = .transact tx → (tx.run t).1.Consistent

theorem exec_of_loose {t : Nat} {w : World R} {c : Cmd} {a : c.Answer} {v : LooseWorld R}
    (hsafe : c.Safe w.db.toTables) (h : LooseExec restic t w.loose c a v) :
    ∃ w' : World R, w'.loose = v ∧ Exec restic t w c a w' := by
  cases c with
  | transact tx =>
      have hcommit := commit_of_commitLoose (hsafe tx rfl)
      rcases h with ⟨m, rfl, rfl⟩ | ⟨e, he, rfl, rfl⟩ | ⟨tables, n, hok, rfl, rfl⟩
      · exact ⟨w, rfl, Or.inl ⟨m, rfl, rfl⟩⟩
      · rw [show tx.commitLoose w.db.toTables = .error e from he] at hcommit
        cases hreal : tx.commit w.db with
        | ok x =>
            rw [hreal] at hcommit
            cases hcommit
        | error e' =>
            rw [hreal] at hcommit
            obtain rfl : e' = e := Except.error.inj hcommit
            exact ⟨w, rfl, Or.inr (Or.inl ⟨e', hreal, rfl, rfl⟩)⟩
      · rw [show tx.commitLoose w.db.toTables = .ok (tables, n) from hok] at hcommit
        cases hreal : tx.commit w.db with
        | error e' =>
            rw [hreal] at hcommit
            cases hcommit
        | ok x =>
            rw [hreal] at hcommit
            obtain ⟨rfl, rfl⟩ := Prod.mk.inj (Except.ok.inj hcommit)
            exact ⟨{ w with db := x.1, stored := tx.insertedIds ++ w.stored }, rfl,
              Or.inr (Or.inr ⟨x.1, x.2, hreal, rfl, rfl⟩)⟩
  | acquire lock =>
      rcases h with ⟨m, rfl, rfl⟩ | ⟨rfl, hfree, rfl⟩
      · exact ⟨w, rfl, Or.inl ⟨m, rfl, rfl⟩⟩
      · exact ⟨{ w with locks := (lock, t) :: w.locks }, rfl, Or.inr ⟨rfl, hfree, rfl⟩⟩
  | release lock => exact ⟨{ w with locks := w.locks.filter fun l => l ≠ (lock, t) }, h.symm, rfl⟩
  | uuid =>
      obtain ⟨hnew, rfl⟩ := h
      exact ⟨{ w with issued := (a, t) :: w.issued }, rfl, hnew, rfl⟩
  | now => exact ⟨w, h.symm, rfl⟩
  | restic projectId op =>
      obtain ⟨r, hrun, rfl⟩ := h
      exact ⟨{ w with repository := r }, rfl, r, hrun, rfl⟩
  | _ => exact ⟨w, h.1.symm, rfl, h.2⟩

theorem loose_of_exec {t : Nat} {w w' : World R} {c : Cmd} {a : c.Answer} (hsafe : c.Safe w.db.toTables)
    (h : Exec restic t w c a w') : LooseExec restic t w.loose c a w'.loose := by
  cases c with
  | transact tx =>
      have hcommit := commit_of_commitLoose (hsafe tx rfl)
      rcases h with ⟨m, rfl, rfl⟩ | ⟨e, he, rfl, rfl⟩ | ⟨db, n, hok, rfl, rfl⟩
      · exact Or.inl ⟨m, rfl, rfl⟩
      · rw [he] at hcommit
        exact Or.inr (Or.inl ⟨e, hcommit.symm, rfl, rfl⟩)
      · rw [hok] at hcommit
        exact Or.inr (Or.inr ⟨db.toTables, n, hcommit.symm, rfl, rfl⟩)
  | acquire lock =>
      rcases h with ⟨m, rfl, rfl⟩ | ⟨rfl, hfree, rfl⟩
      · exact Or.inl ⟨m, rfl, rfl⟩
      · exact Or.inr ⟨rfl, hfree, rfl⟩
  | release lock | now =>
      rw [show w' = _ from h]
      rfl
  | uuid =>
      obtain ⟨hnew, rfl⟩ := h
      exact ⟨hnew, rfl⟩
  | restic projectId op =>
      obtain ⟨r, hrun, rfl⟩ := h
      exact ⟨r, hrun, rfl⟩
  | _ =>
      obtain ⟨rfl, ha⟩ := h
      exact ⟨rfl, ha⟩

/-! ## What keeps the tables consistent -/

/-- A new secret belongs to a project that the section has found, and a name that is new in the list of the
section is given to one secret only. -/
def KeepsNames (v : View) : Transaction → Prop
  | .secretsDataAdd secret _ => v.Finds secret.projectId ∧
      ∃ rows, v.Lists secret.projectId rows ∧ ∀ s ∈ rows, s.name ≠ secret.name
  | .secretsDataUpdate id projectId content _ _ _ => ∃ rows s, v.Lists projectId rows ∧ s ∈ rows ∧ s.id = id ∧
      (content.name = s.name ∨ ∀ r ∈ rows, r.id ≠ id → r.name ≠ content.name)
  | _ => True

theorem ByRequest.keepsNames {op : Operation} {v : View} {tx : Transaction} (h : ByRequest op v tx) :
    KeepsNames v tx := by
  cases tx with
  | secretsDataAdd secret hash => exact ⟨h.1, h.2.1⟩
  | secretsDataUpdate id projectId content date version hash =>
      obtain ⟨rows, s, hlists, hs, hid, hchange⟩ := h
      refine ⟨rows, s, hlists, hs, hid, ?_⟩
      cases op with
      | updateSecret projectId secretId body =>
          rw [← hid]
          exact hchange.2.2
      | updateSecretKey projectId secretId body =>
          obtain ⟨-, value, rfl⟩ := hchange
          exact Or.inl rfl
      | _ => exact hchange.elim
  | _ => trivial

/-! ## Consistent transactions -/

section Consistent
variable {t : Nat} {op : Operation} {v : View} {w : World R} {tx : Transaction}

/-- A restored directory lists each file name once. -/
def Restic.ListsOnce (restic : Restic R) : Prop :=
  ∀ {r projectId snapshotId a r'}, restic.run r projectId (.restore snapshotId) a r' →
    a.result.code = .number 0 → Distinct Prod.fst a.restored

def View.ListedOnce (v : View) : Prop :=
  ∀ projectId snapshotId listing, v.restored = some (projectId, snapshotId, listing) → Distinct Prod.fst listing

/-- An inserted secret belongs to a project that is there. -/
theorem project_of_inserted (hk : Knows restic t op v w) (hallows : AllowsTransaction P op v tx)
    (hkeeps : KeepsNames v tx) {s : Secret} (hs : s ∈ (tx.run w.db.toTables).1.secrets)
    (hid : s.id ∈ tx.insertedIds) (hnew : s ∉ w.db.secrets) : ∃ p ∈ w.db.projects, p.id = s.projectId := by
  cases tx with
  | secretsDataAdd secret hash =>
      rcases List.mem_append.mp hs with hs | hs
      · exact absurd hs hnew
      · rw [List.mem_singleton.mp hs]
        exact hk.found hkeeps.1
  | secretsDataReplaceForProject projectId secrets state =>
      rw [Transaction.secrets_run_replace] at hs
      rcases List.mem_append.mp hs with hs | hs
      · exact absurd (List.mem_of_mem_filter hs) hnew
      · rw [(hallows.fresh s hs).1]
        exact hk.found hallows.found
  | _ => cases hid

/-- Every secret still belongs to a project. -/
theorem project_run (hk : Knows restic t op v w) (hallows : AllowsTransaction P op v tx) (hkeeps : KeepsNames v tx) :
    ∀ s ∈ (tx.run w.db.toTables).1.secrets, ∃ p ∈ (tx.run w.db.toTables).1.projects, p.id = s.projectId := by
  intro s hs
  have hbefore : ∃ p ∈ w.db.projects, p.id = s.projectId := by
    have hold : ∀ s ∈ w.db.secrets, ∃ p ∈ w.db.projects, p.id = s.projectId := fun s hs =>
      List.mem_map.mp (w.db.valid.foreignKey s hs)
    by_cases hmem : s ∈ w.db.secrets
    · exact hold s hmem
    rcases Transaction.mem_secrets_run hs with (h | hid) | ⟨s₀, hs₀, -, hproject, -⟩
    · exact absurd h hmem
    · exact project_of_inserted hk hallows hkeeps hs hid hmem
    · rw [← hproject]
      exact hold s₀ hs₀
  obtain ⟨p, hp, hid⟩ := hbefore
  -- the secrets of a deleted project are deleted with it
  have hkept : tx ≠ .projectsDataDeleteCascade p.id := by
    rintro rfl
    have hne : s.projectId ≠ p.id := by simpa using List.of_mem_filter (show s ∈ w.db.secrets.filter _ from hs)
    exact hne hid.symm
  obtain ⟨p', hp', hid'⟩ := Transaction.project_stays hp hkept
  exact ⟨p', hp', hid'.trans hid⟩

/-- The names of a project stay distinct under a change of one row. -/
theorem secretName_update (hk : Knows restic t op v w) {id projectId : JsString} {content : SecretContent}
    {date hash : JsString} {version : Nat}
    (hkeeps : KeepsNames v (.secretsDataUpdate id projectId content date version hash)) :
    Distinct (fun s : Secret => (s.projectId, s.name))
      (Sql.updateSecret id projectId version content date w.db.toTables).secrets := by
  obtain ⟨rows, s, hlists, hs, hid, hname⟩ := hkeeps
  have hrows := hk.list hlists
  obtain ⟨hsdb, hsproject⟩ := Tables.mem_rows.mp (hrows.mem_iff.mp hs)
  have hdb := w.db.valid
  -- the changed row is `s`, and no other row of the project has its new name
  have hchanged : ∀ r ∈ w.db.secrets, matchesVersion id projectId version r = true → r = s := fun r hr hm =>
    hdb.secretId.inj hr hsdb (by simp only [matchesVersion, Bool.and_eq_true, decide_eq_true_eq] at hm
                                 exact hm.1.1.trans hid.symm)
  have hfree : ∀ r ∈ w.db.secrets, r.projectId = projectId → r.name = content.name → r = s := by
    intro r hr hproject hrname
    rcases hname with hsame | hother
    · exact hdb.secretName.inj hr hsdb (Prod.ext (hproject.trans hsproject.symm) (hrname.trans hsame))
    · by_contra hne
      refine hother r (hrows.mem_iff.mpr (Tables.mem_rows.mpr ⟨hr, hproject⟩)) (fun hrid => hne ?_) hrname
      exact hdb.secretId.inj hr hsdb (hrid.trans hid.symm)
  rw [Distinct, Sql.updateSecret, List.map_map]
  refine List.Nodup.map_on (fun r hr r' hr' heq => ?_) (List.Nodup.of_map _ hdb.secretId)
  simp only [Function.comp] at heq
  by_cases hm : matchesVersion id projectId version r = true <;>
    by_cases hm' : matchesVersion id projectId version r' = true
  · rw [hchanged r hr hm, hchanged r' hr' hm']
  · rw [if_pos hm, if_neg hm', hchanged r hr hm] at heq
    obtain ⟨hproject, hsame⟩ := Prod.mk.inj heq
    rw [hchanged r hr hm]
    exact (hfree r' hr' (hproject.symm.trans hsproject) hsame.symm).symm
  · rw [if_neg hm, if_pos hm', hchanged r' hr' hm'] at heq
    obtain ⟨hproject, hsame⟩ := Prod.mk.inj heq
    rw [hchanged r' hr' hm']
    exact hfree r hr (hproject.trans hsproject) hsame
  · rw [if_neg hm, if_neg hm'] at heq
    exact hdb.secretName.inj hr hr' heq

/-- The names of a project stay distinct. -/
theorem secretName_run (hk : Knows restic t op v w) (honce : v.ListedOnce)
    (hallows : AllowsTransaction P op v tx) (hkeeps : KeepsNames v tx) :
    Distinct (fun s : Secret => (s.projectId, s.name)) (tx.run w.db.toTables).1.secrets := by
  have hdb := w.db.valid.secretName
  cases tx with
  | projectsDataDeleteCascade projectId => exact hdb.sublist List.filter_sublist
  | secretsDataAdd secret hash =>
      obtain ⟨hfound, rows, hlists, hnew⟩ := hkeeps
      refine distinct_append.mpr ⟨hdb, List.nodup_singleton _, fun s hs s' hs' heq => ?_⟩
      rw [List.mem_singleton.mp hs'] at heq
      obtain ⟨hproject, hname⟩ := Prod.mk.inj heq
      exact hnew s ((hk.list hlists).mem_iff.mpr (Tables.mem_rows.mpr ⟨hs, hproject⟩)) hname
  | secretsDataUpdate id projectId content date version hash =>
      rw [Transaction.secrets_run_update]
      exact secretName_update hk hkeeps
  | secretsDataDelete id projectId hash => exact hdb.sublist List.filter_sublist
  | secretsDataReplaceForProject projectId secrets state =>
      obtain ⟨listing, hrestored, hread⟩ := hallows.content
      have hnames := uniqueNames_readSnapshotSecrets (honce _ _ _ hrestored) hread
      rw [Transaction.secrets_run_replace]
      refine distinct_append.mpr ⟨hdb.sublist List.filter_sublist, ?_, fun s hs s' hs' heq => ?_⟩
      · refine List.Nodup.of_map Prod.snd ?_
        rw [UniqueNames, Distinct, contents, List.map_map] at hnames
        rwa [List.map_map]
      · have hne : s.projectId ≠ projectId := by simpa using List.of_mem_filter hs
        exact hne ((Prod.mk.inj heq).1.trans (hallows.fresh s' hs').1)
  | projectsDataAdd project | projectsDataUpdateSyncState id snapshotId time lastSync current
  | projectsDataUpdateCurrentContentHash id hash | projectsDataUpdateLastSyncContentHash id hash => exact hdb

/-- **An allowed transaction leaves consistent tables.** -/
theorem consistent_run (hk : Knows restic t op v w) (honce : v.ListedOnce)
    (hallows : AllowsTransaction P op v tx) (hkeeps : KeepsNames v tx) : (tx.run w.db.toTables).1.Consistent :=
  ⟨secretName_run hk honce hallows hkeeps, project_run hk hallows hkeeps⟩

end Consistent

/-! ## The two servers -/

section Servers

theorem listedOnce_step {t : Nat} {v : View} {w w' : World R} {c : Cmd} {a : c.Answer} (honce : restic.ListsOnce)
    (hv : v.ListedOnce) (h : Exec restic t w c a w') : (v.step c a).ListedOnce := by
  cases c with
  | projectsGet id | secretsList projectId =>
      cases a with
      | error e => exact hv
      | ok rows =>
          rw [View.step]
          split_ifs <;> exact hv
  | transact tx | acquire lock => cases a <;> exact hv
  | restic projectId rop =>
      cases rop with
      | restore snapshotId =>
          obtain ⟨r, hrun, -⟩ := h
          rw [View.step]
          split_ifs with hcode
          · intro projectId' snapshotId' listing hr
            cases hr
            exact honce hrun hcode
          · exact hv
      | _ => exact hv
  | _ => exact hv

/-- Both disciplines together. -/
theorem storeOutline (P : Platform) (timeouts : ResticTimeouts) (honce : restic.ListsOnce)
    (admits : Operation → Prop) :
    Outline (server P timeouts restic admits) (fun op => (sections P op).prod (requests op)) (.start, .start)
      (fun w => Inv w ∧ True) (fun t op x w => Knows restic t op x.1 w ∧ x.2.ListedOnce)
      fun op r x => Outcome P op r x.1 ∧ True :=
  (serverOutline P timeouts restic admits).prod
    (requestsOutline P timeouts restic admits (fun _ _ _ h => by cases h) (listedOnce_step honce))

variable {w₀ : World R}

/-- In a good configuration every command of the server is safe. -/
theorem cmd_safe {t : Nat} {op : Operation} {trace : List (ServerEvent R)} {w : World R} {c : Cmd}
    (hassert : Knows restic t op (((sections P op).prod (requests op)).after (.start, .start) trace).1 w ∧
      (((sections P op).prod (requests op)).after (.start, .start) trace).2.ListedOnce)
    (hallows : ((sections P op).prod (requests op)).allows
      (((sections P op).prod (requests op)).after (.start, .start) trace) c) : c.Safe w.db.toTables := by
  rw [Monitor.prod_after] at hassert hallows
  rintro tx rfl
  exact consistent_run hassert.1 hassert.2 hallows.1 (hallows.2.2 tx rfl).keepsNames

/-- **Every run on the loose store is a run of the server**, and the other way round. -/
theorem looseServer_steps_iff (honce : restic.ListsOnce) (h₀ : Inv w₀)
    {cfg : Config (World R) Cmd Cmd.Answer Failure Response Operation}
    (h : (server P timeouts restic admits).Reachable w₀ cfg)
    {cfg' : Config (LooseWorld R) Cmd Cmd.Answer Failure Response Operation} :
    (looseServer P timeouts restic admits).Steps (cfg.map World.loose) cfg' ↔
      ∃ next, (server P timeouts restic admits).Steps cfg next ∧ next.map World.loose = cfg' := by
  have O := storeOutline P timeouts honce admits
  have hgood := O.good ⟨h₀, trivial⟩ h
  constructor
  · refine O.simulates (f := World.loose) ⟨fun _ h => h, fun _ => rfl, fun _ hassert hallows hexec => ?_, fun _ henv => ?_⟩ hgood
    · exact exec_of_loose (cmd_safe hassert hallows) hexec
    · obtain ⟨r, hr, rfl⟩ := henv
      exact ⟨_, rfl, r, hr, rfl⟩
  · rintro ⟨next, hnext, rfl⟩
    refine O.simulated (f := World.loose) (fun _ h => h) (fun _ => rfl) (fun _ hassert hallows hexec => ?_) (fun henv => ?_) hgood hnext
    · exact loose_of_exec (cmd_safe hassert hallows) hexec
    · obtain ⟨r, hr, rfl⟩ := henv
      exact ⟨r, hr, rfl⟩

/-- Without creations a project that is gone stays away. -/
theorem projects_gone (honce : restic.ListsOnce) (hcreate : ∀ body, ¬ admits (.createProject body)) (h₀ : Inv w₀)
    {cfg next : Config (World R) Cmd Cmd.Answer Failure Response Operation}
    (h : (server P timeouts restic admits).Reachable w₀ cfg) (hsteps : (server P timeouts restic admits).Steps cfg next) :
    ∀ p' ∈ next.world.db.projects, ∃ p ∈ cfg.world.db.projects, p.id = p'.id := by
  have O := storeOutline P timeouts honce admits
  refine O.steps_rel (Q := fun w w' => ∀ p' ∈ w'.db.projects, ∃ p ∈ w.db.projects, p.id = p'.id)
    (fun w p hp => ⟨p, hp, rfl⟩) (fun hab hbc p hp => ?_) (fun {t op earlier e} he => ?_) (fun _ henv => ?_)
    (O.good ⟨h₀, trivial⟩ h) hsteps
  · obtain ⟨q, hq, hqp⟩ := hbc p hp
    obtain ⟨q', hq', hqq⟩ := hab q hq
    exact ⟨q', hq', hqq.trans hqp⟩
  · cases hcommitted : committed? e with
    | none =>
        rw [exec_db he.exec hcommitted]
        exact fun p hp => ⟨p, hp, rfl⟩
    | some x =>
        obtain ⟨w, w', rfl⟩ := committed?_eq_some hcommitted
        have hallowed := he.allowed
        rw [Monitor.prod_after] at hallowed
        intro p' hp'
        have hexec : Exec restic t w (.transact x.1) (.ok x.2) w' := he.exec
        have hrun : p' ∈ (x.1.run w.db.toTables).1.projects := by
          rw [(exec_committed hexec).1]
          exact hp'
        rcases Transaction.mem_projects_run hrun with hadd | ⟨p, hp, rfl, -⟩
        · -- only a creation inserts a project
          have hissues : op.Issues x.1 := hallowed.2.1
          rw [hadd] at hissues
          cases op with
          | createProject body => exact absurd he.admits (hcreate body)
          | _ => exact hissues.elim
        · exact ⟨p, hp, (Transaction.changeRow_id _ _ _).symm⟩
  · obtain ⟨r, -, rfl⟩ := henv
    exact fun p hp => ⟨p, hp, rfl⟩

/-- On the server that takes the ids as stored. -/
theorem consistent_looseServer (honce : restic.ListsOnce) (h₀ : Inv w₀)
    {cfg : Config (LooseWorld R) Cmd Cmd.Answer Failure Response Operation}
    (h : (looseServer P timeouts restic admits).Reachable w₀.loose cfg) :
    cfg.world.tables.Consistent ∧
      ((∀ body, ¬ admits (.createProject body)) → ∀ projectId, (∀ p ∈ cfg.world.tables.projects, p.id ≠ projectId) →
        ∀ cfg', (looseServer P timeouts restic admits).Steps cfg cfg' →
          (∀ p ∈ cfg'.world.tables.projects, p.id ≠ projectId) ∧ cfg'.world.tables.rows projectId = []) := by
  obtain ⟨real, hreal, rfl⟩ := (looseServer_steps_iff honce h₀ .refl).mp h
  refine ⟨(Tables.valid_iff.mp real.world.db.valid).2, fun hcreate projectId hgone cfg' hsteps => ?_⟩
  obtain ⟨next, hnext, rfl⟩ := (looseServer_steps_iff honce h₀ hreal).mp hsteps
  have hstays : ∀ p ∈ next.world.db.projects, p.id ≠ projectId := by
    intro p hp hid
    obtain ⟨q, hq, hqp⟩ := projects_gone honce hcreate h₀ hreal hnext p hp
    exact hgone q hq (hqp.trans hid)
  refine ⟨hstays, List.eq_nil_iff_forall_not_mem.mpr fun s hs => ?_⟩
  obtain ⟨hs, hproject⟩ := Tables.mem_rows.mp hs
  obtain ⟨p, hp, hid⟩ := (Tables.valid_iff.mp next.world.db.valid).2.project s hs
  exact hstays p hp (hid.trans hproject)

end Servers

/-! ## On columns of ids -/

section Column
variable {ids : IdColumn}

/-- The programs of the server on the loose store with these columns of ids. -/
def looseServerOn (ids : IdColumn) (P : Platform) (timeouts : ResticTimeouts) (restic : Restic R)
    (admits : Operation → Prop) : System (LooseWorld R) Cmd Cmd.Answer Failure Response Operation :=
  storeServer P timeouts (fun t => ColumnExec ids (LooseExec restic t))
    (fun w w' => ∃ r, restic.outside w.repository r ∧ w' = { w with repository := r }) admits

theorem backs_looseExec (restic : Restic R) :
    Backs (fun w : LooseWorld R => w.tables) (LooseExec restic)
      fun w w' => ∃ r, restic.outside w.repository r ∧ w' = { w with repository := r } where
  fails {t w c a} h := by
    cases c with
    | projectsGet id | secretsGet id => exact ⟨rfl, Or.inr h⟩
    | secretsList projectId => exact ⟨rfl, Or.inr h⟩
    | transact tx =>
        obtain ⟨m, rfl⟩ := h
        exact Or.inl ⟨m, rfl, rfl⟩
    | _ => exact h.elim
  project h := by
    rcases h.2 with hrow | ⟨m, hrow⟩
    · exact List.mem_of_find?_eq_some (Except.ok.inj hrow).symm
    · cases hrow
  projects h p hp := by
    rcases h.2 with ⟨l, hl, hperm⟩ | ⟨m, hl⟩
    · cases hl
      exact hperm.mem_iff.mp hp
    · cases hl
  secrets h s hs := by
    rcases h.2 with ⟨l, hl, hperm⟩ | ⟨m, hl⟩
    · cases hl
      exact (Tables.mem_rows.mp (hperm.mem_iff.mp hs)).1
    · cases hl
  run {t w c a w'} h := by
    cases c with
    | transact tx =>
        rcases h with ⟨m, rfl, rfl⟩ | ⟨e, he, rfl, rfl⟩ | ⟨tables, n, hok, rfl, rfl⟩
        · exact Or.inl rfl
        · exact Or.inl rfl
        · refine Or.inr ⟨tx, rfl, ?_⟩
          unfold Transaction.commitLoose at hok
          split_ifs at hok
          rw [Except.ok.inj hok]
    | acquire lock =>
        rcases h with ⟨m, rfl, rfl⟩ | ⟨rfl, hfree, rfl⟩
        · exact Or.inl rfl
        · exact Or.inl rfl
    | release lock | now =>
        rw [show w' = _ from h]
        exact Or.inl rfl
    | uuid =>
        obtain ⟨-, rfl⟩ := h
        exact Or.inl rfl
    | restic projectId op =>
        obtain ⟨r, -, rfl⟩ := h
        exact Or.inl rfl
    | _ =>
        rw [h.1]
        exact Or.inl rfl
  environment := by
    rintro w w' ⟨r, -, rfl⟩
    rfl

/-- **Locking alone keeps the store consistent**, on a database whose ids the creations and the secret routes spell as
it stores them. -/
theorem looseServer_consistent (honce : restic.ListsOnce) (hspelled : ∀ op, admits op → op.Spelled ids) {w₀ : World R}
    (h₀ : Inv w₀) (hstored : w₀.db.toTables.Stored ids)
    {cfg : Config (LooseWorld R) Cmd Cmd.Answer Failure Response Operation}
    (h : (looseServerOn ids P timeouts restic admits).Reachable w₀.loose cfg) :
    cfg.world.tables.Consistent ∧
      ((∀ body, ¬ admits (.createProject body)) → ∀ projectId, (∀ p ∈ cfg.world.tables.projects, p.id ≠ projectId) →
        ∀ cfg', (looseServerOn ids P timeouts restic admits).Steps cfg cfg' →
          (∀ p ∈ cfg'.world.tables.projects, p.id ≠ projectId) ∧ cfg'.world.tables.rows projectId = []) := by
  have L : Lockstep (looseServerOn ids P timeouts restic admits)
      (looseServer P timeouts restic fun op => ∃ op', admits op' ∧ op = op'.respell ids) (Respells ids)
      fun w => w.tables.Stored ids :=
    lockstep_respells (backs_looseExec restic) hspelled fun op hop => ⟨op, hop, rfl⟩
  obtain ⟨hkept, mirror, hmirror, hbeside⟩ := L.reachable h hstored
  obtain ⟨hconsistent, hgone⟩ := consistent_looseServer honce h₀ hmirror
  rw [hbeside.world] at hconsistent hgone
  refine ⟨hconsistent, fun hcreate projectId hnone cfg' hsteps => ?_⟩
  obtain ⟨-, mirror', hsteps', hbeside'⟩ := L.steps hkept hbeside hsteps
  have hcreate' : ∀ body, ¬ ∃ op', admits op' ∧ Operation.createProject body = op'.respell ids := by
    rintro body ⟨op', hop', hrespell⟩
    cases op' with
    | createProject body' => exact hcreate body' hop'
    | _ => cases hrespell
  rw [← hbeside'.world]
  exact hgone hcreate' projectId hnone mirror' hsteps'

end Column

section Example

theorem listsOnce_of_faithful (hf : restic.Faithful) : restic.ListsOnce := by
  intro r projectId snapshotId a r' hrun hcode
  obtain ⟨dir, -, hlisting⟩ := hf.restore hrun hcode
  exact dir.distinct.perm hlisting.symm

/-- A project is deleted between the backup of a push and its record. -/
def deletedPushMoves : List (Move Operation JsString) :=
  .spawn (.push (js "p") none) :: steps 0 9 ++ .spawn (.deleteProject (js "p")) :: steps 1 5 ++ steps 0 5

/-- The answer of a command on the loose store, as `act` has it. -/
def actLoose (run : R → ResticOp → ResticAnswer × R) (t : Nat) (w : LooseWorld R) :
    (c : Cmd) → JsString → Option (c.Answer × LooseWorld R)
  | .projectsGet id, _ => some (.ok (w.tables.project? id), w)
  | .projectsGetByName name, _ => some (.ok (w.tables.projects.find? fun p => p.name = name), w)
  | .projectsList, _ => some (.ok w.tables.projects, w)
  | .secretsList projectId, _ => some (.ok (w.tables.rows projectId), w)
  | .secretsGet id, _ => some (.ok (w.tables.secret? id), w)
  | .transact tx, _ =>
      match tx.commitLoose w.tables with
      | .error e => some (.error e, w)
      | .ok (tables, n) => some (.ok n, { w with tables := tables, stored := tx.insertedIds ++ w.stored })
  | .acquire lock, _ =>
      if ∀ l ∈ w.locks, l.1 ≠ lock then some (.ok (), { w with locks := (lock, t) :: w.locks }) else none
  | .release lock, _ => some ((), { w with locks := w.locks.filter fun l => l ≠ (lock, t) })
  | .uuid, id =>
      if ∀ i ∈ w.issued, i.1 ≠ id then some (id, { w with issued := (id, t) :: w.issued }) else none
  | .now, now => some (now, w)
  | .restic _ op, _ => some ((run w.repository op).1, { w with repository := (run w.repository op).2 })
  | .fs _, _ => some (.ok (), w)

theorem actLoose_exec {run : R → ResticOp → ResticAnswer × R}
    (hrun : ∀ r projectId op, restic.run r projectId op (run r op).1 (run r op).2) {t : Nat} {w w' : LooseWorld R}
    {c : Cmd} {fresh : JsString} {a : c.Answer} (h : actLoose run t w c fresh = some (a, w')) :
    LooseExec restic t w c a w' := by
  cases c with
  | projectsGet id | projectsGetByName name | secretsGet id | fs op =>
      cases h
      exact ⟨rfl, Or.inl rfl⟩
  | projectsList | secretsList projectId =>
      cases h
      exact ⟨rfl, Or.inl ⟨_, rfl, .refl _⟩⟩
  | transact tx =>
      rw [actLoose] at h
      split at h
      · rename_i e hcommit
        cases h
        exact Or.inr (Or.inl ⟨e, hcommit, rfl, rfl⟩)
      · rename_i tables n hcommit
        cases h
        exact Or.inr (Or.inr ⟨tables, n, hcommit, rfl, rfl⟩)
  | acquire lock =>
      rw [actLoose] at h
      split_ifs at h with hfree
      cases h
      exact Or.inr ⟨rfl, fun t' hmem => hfree _ hmem rfl, rfl⟩
  | release lock =>
      cases h
      rfl
  | uuid =>
      rw [actLoose] at h
      split_ifs at h with hnew
      cases h
      exact ⟨fun t' hmem => hnew _ hmem rfl, rfl⟩
  | now =>
      cases h
      rfl
  | restic projectId op =>
      cases h
      exact ⟨_, hrun _ _ _, rfl⟩

noncomputable def playLoose (ids : IdColumn) (moves : List (Move Operation JsString)) (w : LooseWorld Snapshots) :
    Option (Config (LooseWorld Snapshots) Cmd Cmd.Answer Failure Response Operation) :=
  play (serve runPlatform exampleTimeouts) (fun t _ _ => actOn ids (actLoose Snapshots.run t)) moves ⟨w, []⟩

theorem playLoose_reachable {ids : IdColumn} {admits : Operation → Prop} {moves : List (Move Operation JsString)}
    (hadmits : ∀ op, Move.spawn op ∈ moves → admits op) {w : LooseWorld Snapshots}
    {cfg : Config (LooseWorld Snapshots) Cmd Cmd.Answer Failure Response Operation}
    (h : playLoose ids moves w = some cfg) :
    (looseServerOn ids runPlatform exampleTimeouts Snapshots.restic admits).Reachable w cfg := by
  have huuid : ∀ {t w fresh id w'}, actLoose Snapshots.run t w .uuid fresh = some (id, w') → id = fresh := by
    intro t w fresh id w' h
    rw [actLoose] at h
    split_ifs at h
    cases h
    rfl
  have hact : ∀ (t : Nat) (op : Operation) (trace : List (Event (LooseWorld Snapshots) Cmd Cmd.Answer))
      (w : LooseWorld Snapshots) (c : Cmd) (fresh : JsString) (a : c.Answer) (w' : LooseWorld Snapshots),
      actOn ids (actLoose Snapshots.run t) w c fresh = some (a, w') →
      (looseServerOn ids runPlatform exampleTimeouts Snapshots.restic admits).exec t op trace w c a w' :=
    fun _ _ _ _ _ _ _ _ h => actOn_exec (actLoose_exec fun _ _ _ => rfl) huuid h
  exact play_steps hact hadmits h

/-- The push that ends after the deletion leaves no trace of the project. -/
theorem looseServer_consistent_deletedPush :
    ∃ cfg, (looseServerOn .text runPlatform exampleTimeouts Snapshots.restic fun op =>
          (∀ body, op ≠ .createProject body) ∧ op.Spelled .text).Reachable (World.initial neverSyncedDb []).loose cfg ∧
      (∀ th ∈ cfg.threads, th.prog.result?.isSome = true) ∧ cfg.world.tables = ⟨[], []⟩ ∧
      cfg.world.tables.Consistent ∧
      ∀ cfg', (looseServerOn .text runPlatform exampleTimeouts Snapshots.restic fun op =>
          (∀ body, op ≠ .createProject body) ∧ op.Spelled .text).Steps cfg cfg' →
        cfg'.world.tables.rows (js "p") = [] := by
  obtain ⟨cfg, hplay, hended⟩ : ∃ cfg,
      playLoose .text deletedPushMoves (World.initial neverSyncedDb []).loose = some cfg ∧
      (cfg.threads.all fun th => th.prog.result?.isSome) = true :=
    Option.map_eq_some_iff.mp rfl
  have htables : (playLoose .text deletedPushMoves (World.initial neverSyncedDb []).loose).map
      (fun cfg => cfg.world.tables) = some ⟨[], []⟩ := rfl
  rw [hplay, Option.map_some, Option.some.injEq] at htables
  have hadmits : ∀ op, Move.spawn op ∈ deletedPushMoves → (∀ body, op ≠ .createProject body) ∧ op.Spelled .text := by
    intro op hop
    simp only [deletedPushMoves, steps, List.mem_append, List.mem_cons, List.mem_replicate, Move.spawn.injEq,
      reduceCtorEq, and_false, or_false] at hop
    rcases hop with rfl | rfl
    · exact ⟨fun body h => Operation.noConfusion h, trivial⟩
    · exact ⟨fun body h => Operation.noConfusion h, trivial⟩
  have honce : Snapshots.restic.ListsOnce := listsOnce_of_faithful Snapshots.faithful_restic
  have hreachable := playLoose_reachable hadmits hplay
  obtain ⟨hconsistent, hgone⟩ := looseServer_consistent honce (fun _ hop => hop.2) (inv_initial neverSyncedDb [])
    (by decide) hreachable
  refine ⟨cfg, hreachable, List.all_eq_true.mp hended, htables, hconsistent, fun cfg' hsteps => ?_⟩
  refine (hgone (fun body h => h.1 body rfl) (js "p") (fun p hp => ?_) cfg' hsteps).2
  rw [htables] at hp
  cases hp

def thirdUuid : JsString := js "3d813cbb-47fb-42ba-91df-831e1593ac29"

/-- Two secrets of one name are created under two spellings of the project id. -/
def twiceMoves : List (Move Operation JsString) :=
  .spawn (.createSecret lowerId dbBody) :: steps 0 3 ++ .spawn (.createSecret upperId dbBody) :: steps 1 3 ++
    [.run 0 otherUuid] ++ steps 0 3 ++ [.run 1 thirdUuid] ++ steps 1 3

/-- Both requests have ended with status 201, and the project has two secrets of one name. -/
theorem not_looseServer_consistent :
    ∃ cfg, (looseServerOn .uuid runPlatform exampleTimeouts Snapshots.restic fun op =>
        ∀ body, op ≠ .createProject body).Reachable (World.initial uuidDb []).loose cfg ∧
      uuidDb.toTables.Stored .uuid ∧ (cfg.threads.map fun th => th.prog.result?.map fun r => r.toOption.map Response.status) =
        [some (some 201), some (some 201)] ∧ cfg.world.locks = [] ∧
      (cfg.world.tables.secrets.map fun s => (s.projectId, s.name)) =
        [(lowerId, js "api"), (lowerId, js "db"), (lowerId, js "db")] ∧
      ¬ cfg.world.tables.Consistent := by
  obtain ⟨cfg, hplay, hended⟩ : ∃ cfg, playLoose .uuid twiceMoves (World.initial uuidDb []).loose = some cfg ∧
      (cfg.threads.map fun th => th.prog.result?.map fun r => r.toOption.map Response.status) =
        [some (some 201), some (some 201)] :=
    Option.map_eq_some_iff.mp rfl
  have hend : (playLoose .uuid twiceMoves (World.initial uuidDb []).loose).map (fun cfg =>
      (cfg.world.locks, cfg.world.tables.secrets.map fun s => (s.projectId, s.name))) =
      some ([], [(lowerId, js "api"), (lowerId, js "db"), (lowerId, js "db")]) := rfl
  rw [hplay, Option.map_some, Option.some.injEq] at hend
  obtain ⟨hlocks, hnames⟩ := Prod.mk.inj hend
  have hadmits : ∀ op, Move.spawn op ∈ twiceMoves → ∀ body, op ≠ .createProject body := by
    intro op hop
    simp only [twiceMoves, steps, List.mem_append, List.mem_cons, List.mem_replicate, Move.spawn.injEq,
      reduceCtorEq, and_false, or_false, List.not_mem_nil] at hop
    rcases hop with rfl | rfl
    · exact fun body h => by cases h
    · exact fun body h => by cases h
  refine ⟨cfg, playLoose_reachable hadmits hplay, by decide, hended, hlocks, hnames, fun hconsistent => ?_⟩
  have hdistinct := hconsistent.secretName
  rw [Distinct, hnames] at hdistinct
  exact absurd hdistinct (by decide)

end Example

end SecretsManager
