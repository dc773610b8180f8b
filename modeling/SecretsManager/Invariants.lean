import SecretsManager.Transactions

/-!
# The outline of the server

The locks are exclusive and the generated ids are new and owned. From this, an operation knows more than
it has seen: the list that it read under the write lock is that of the database until it writes itself,
its unused ids are stored nowhere, and what it restored is the content of the snapshot, when restic
restores what was backed up.
-/

namespace SecretsManager

open Js Interleaving SortedBy

variable {R : Type} {restic : Restic R} {P : Platform} {timeouts : ResticTimeouts}
  {admits : Operation → Prop}

/-! ## The invariant -/

/-- A lock and an id have one owner, and the rows have ids that were generated and stored. -/
structure Inv (w : World R) : Prop where
  exclusive : ∀ {lock t t'}, (lock, t) ∈ w.locks → (lock, t') ∈ w.locks → t = t'
  owner : ∀ {id t t'}, (id, t) ∈ w.issued → (id, t') ∈ w.issued → t = t'
  issued : ∀ id ∈ w.stored, ∃ t, (id, t) ∈ w.issued
  stored : ∀ s ∈ w.db.secrets, s.id ∈ w.stored

/-- Restic restores what was backed up: a restore that exits 0 gives the files of the snapshot, and the
content of a snapshot never changes. -/
structure Restic.Faithful (restic : Restic R) : Prop where
  restore : ∀ {r projectId snapshotId a r'}, restic.run r projectId (.restore snapshotId) a r' →
    a.result.code = .number 0 →
    ∃ dir, restic.snapshot? r' projectId snapshotId = some dir ∧ dir.Listing a.restored
  keeps : ∀ {r projectId op a r'}, restic.run r projectId op a r' → ∀ {projectId' snapshotId dir},
    restic.snapshot? r projectId' snapshotId = some dir → restic.snapshot? r' projectId' snapshotId = some dir
  outside : ∀ {r r'}, restic.outside r r' → ∀ {projectId snapshotId dir},
    restic.snapshot? r projectId snapshotId = some dir → restic.snapshot? r' projectId snapshotId = some dir

/-- The listing has the entries of the snapshot. -/
def Restic.Restored (restic : Restic R) (r : R) (projectId snapshotId : JsString)
    (listing : List (JsString × FsNode)) : Prop :=
  ∃ dir, restic.snapshot? r projectId snapshotId = some dir ∧ dir.Listing listing

/-- The unused ids of a view are those of the operation `t`, and stored nowhere. -/
def Owns (t : Nat) (v : View) (w : World R) : Prop := ∀ id ∈ v.ids, (id, t) ∈ w.issued ∧ id ∉ w.stored

/-- What the operation `t` knows of the world from its view. -/
structure Knows (restic : Restic R) (t : Nat) (_op : Operation) (v : View) (w : World R) : Prop where
  lock : ∀ {lock}, v.lock = some lock → (lock, t) ∈ w.locks
  found : ∀ {projectId}, v.Finds projectId → ∃ p ∈ w.db.projects, p.id = projectId
  list : ∀ {projectId rows}, v.Lists projectId rows → rows.Perm (w.db.rows projectId)
  ids : ∀ id ∈ v.ids, (id, t) ∈ w.issued ∧ id ∉ w.stored
  restored : restic.Faithful → ∀ {projectId snapshotId listing},
    v.restored = some (projectId, snapshotId, listing) →
    restic.Restored w.repository projectId snapshotId listing

theorem knows_start (t : Nat) (op : Operation) (w : World R) : Knows restic t op .start w where
  lock h := by cases h
  found h := by cases h.2
  list h := by cases h.2
  ids id h := by cases h
  restored _ _ _ _ h := by cases h

/-- What an operation knows depends on its own locks and ids, the rows of its section and the snapshots. -/
theorem Knows.of_world {t : Nat} {op : Operation} {v : View} {w w' : World R} (h : Knows restic t op v w)
    (hlocks : ∀ lock, (lock, t) ∈ w.locks → (lock, t) ∈ w'.locks)
    (hprojects : ∀ projectId, v.Holds projectId → (∃ p ∈ w.db.projects, p.id = projectId) →
      ∃ p ∈ w'.db.projects, p.id = projectId)
    (hrows : ∀ projectId rows, v.Lists projectId rows → w'.db.rows projectId = w.db.rows projectId)
    (hids : ∀ id ∈ v.ids, (id, t) ∈ w.issued → id ∉ w.stored → (id, t) ∈ w'.issued ∧ id ∉ w'.stored)
    (hsnapshots : restic.Faithful → ∀ projectId snapshotId dir,
      restic.snapshot? w.repository projectId snapshotId = some dir →
      restic.snapshot? w'.repository projectId snapshotId = some dir) : Knows restic t op v w' where
  lock hl := hlocks _ (h.lock hl)
  found hf := hprojects _ hf.1 (h.found hf)
  list hl := by
    rw [hrows _ _ hl]
    exact h.list hl
  ids id hid := hids id hid (h.ids id hid).1 (h.ids id hid).2
  restored hf _ _ _ hr := by
    obtain ⟨dir, hdir, hlisting⟩ := h.restored hf hr
    exact ⟨dir, hsnapshots hf _ _ _ hdir, hlisting⟩

/-! ## The answers -/

theorem databaseError_other (m : JsString) : DatabaseError (.other m) := fun s h => by cases h

theorem databaseError_violation (t : Tables) : DatabaseError (Transaction.violation t) := by
  unfold Transaction.violation
  intro s h
  split_ifs at h

theorem databaseError_commit {tx : Transaction} {db : Db} {e : Failure} (h : tx.commit db = .error e) :
    DatabaseError e := by
  unfold Transaction.commit at h
  split_ifs at h
  rw [← Except.error.inj h]
  exact databaseError_violation _

/-- What a transaction can do: fail and change nothing, or commit. -/
theorem exec_transact {t : Nat} {w w' : World R} {tx : Transaction} {a : Except Failure Nat}
    (h : Exec restic t w (.transact tx) a w') :
    (∃ e, a = .error e ∧ DatabaseError e ∧ w' = w) ∨
      ∃ db n, tx.run w.db.toTables = (db.toTables, n) ∧ a = .ok n ∧
        w' = { w with db := db, stored := tx.insertedIds ++ w.stored } := by
  rcases h with ⟨m, rfl, rfl⟩ | ⟨e, hcommit, rfl, rfl⟩ | ⟨db, n, hcommit, rfl, rfl⟩
  · exact Or.inl ⟨_, rfl, databaseError_other m, rfl⟩
  · exact Or.inl ⟨_, rfl, databaseError_commit hcommit, rfl⟩
  · exact Or.inr ⟨db, n, Transaction.commit_ok hcommit, rfl, rfl⟩

theorem Tables.project?_id {t : Tables} {id : JsString} {p : Project} (h : t.project? id = some p) :
    p.id = id := by
  simpa using List.find?_some h

/-- Every answer is expected. -/
theorem exec_expects {t : Nat} {v : View} {w w' : World R} {c : Cmd} {a : c.Answer}
    (howns : Owns t v w) (h : Exec restic t w c a w') : v.expects c a := by
  cases c with
  | projectsGet id =>
      obtain ⟨-, rfl | ⟨m, rfl⟩⟩ := h
      · exact fun p hp => Tables.project?_id hp
      · exact databaseError_other m
  | projectsGetByName name =>
      obtain ⟨-, rfl | ⟨m, rfl⟩⟩ := h
      · trivial
      · exact databaseError_other m
  | projectsList =>
      obtain ⟨-, ⟨l, rfl, -⟩ | ⟨m, rfl⟩⟩ := h
      · trivial
      · exact databaseError_other m
  | secretsList projectId =>
      obtain ⟨-, ⟨l, rfl, hl⟩ | ⟨m, rfl⟩⟩ := h
      · exact fun s hs => (Tables.mem_rows.mp (hl.mem_iff.mp hs)).2
      · exact databaseError_other m
  | secretsGet id =>
      obtain ⟨-, rfl | ⟨m, rfl⟩⟩ := h
      · trivial
      · exact databaseError_other m
  | transact tx =>
      rcases exec_transact h with ⟨e, rfl, he, -⟩ | ⟨db, n, -, rfl, -⟩
      · exact he
      · trivial
  | acquire lock =>
      rcases h with ⟨m, rfl, -⟩ | ⟨rfl, -⟩
      · exact databaseError_other m
      · trivial
  | release lock => trivial
  | uuid => exact fun hid => h.1 t (howns a hid).1
  | now => trivial
  | restic projectId op => cases op <;> trivial
  | fs op =>
      obtain ⟨-, rfl | ⟨hop, m, rfl⟩⟩ := h
      · cases op <;> trivial
      · cases op with
        | remove => exact absurd rfl hop
        | _ => exact databaseError_other m

/-! ## The allowed transactions -/

section Allowed
variable {t : Nat} {op : Operation} {v : View} {w w' : World R} {tx : Transaction}

theorem allows_writes (h : AllowsTransaction P op v tx) {projectId : JsString}
    (hw : tx.writes = some projectId) : v.Holds projectId := by
  cases tx with
  | secretsDataAdd secret hash =>
      cases hw
      obtain ⟨-, -, -, -, rows, hlists, -⟩ := h
      exact hlists.1
  | secretsDataUpdate id projectId content date version hash =>
      cases hw
      obtain ⟨rows, s, hlists, -⟩ := h.row
      exact hlists.1
  | secretsDataDelete id projectId hash =>
      cases hw
      obtain ⟨-, rows, hlists, -⟩ := h
      exact hlists.1
  | secretsDataReplaceForProject projectId secrets state =>
      cases hw
      obtain ⟨sent, rows, -, hlists, -⟩ := h.compared
      exact hlists.1
  | projectsDataDeleteCascade projectId =>
      cases hw
      exact h.1
  | _ => cases hw

theorem allows_insertedIds (h : AllowsTransaction P op v tx) : ∀ id ∈ tx.insertedIds, id ∈ v.ids := by
  intro id hid
  cases tx with
  | secretsDataAdd secret hash =>
      rw [List.mem_singleton.mp hid]
      exact h.2.2.2.1
  | secretsDataReplaceForProject projectId secrets state =>
      obtain ⟨s, hs, rfl⟩ := List.mem_map.mp hid
      exact (h.fresh s hs).2.2
  | _ => cases hid

theorem allows_confined (hk : Knows restic t op v w) (h : AllowsTransaction P op v tx) :
    tx.Confined w.db.toTables := by
  cases tx with
  | secretsDataDelete id projectId hash =>
      obtain ⟨-, rows, hlists, ⟨s, hs, hid⟩, -⟩ := h
      intro s' hs' hid'
      obtain ⟨hmem, hproject⟩ := Tables.mem_rows.mp ((hk.list hlists).mem_iff.mp hs)
      rw [Tables.secret_unique w.db.valid hs' hmem (hid'.trans hid.symm)]
      exact hproject
  | secretsDataReplaceForProject projectId secrets state => exact fun s hs => (h.fresh s hs).1
  | _ => trivial

/-! ## One step -/

/-- Every step keeps the invariant. -/
theorem inv_exec {c : Cmd} {a : c.Answer} (hinv : Inv w) (howns : Owns t v w)
    (hallows : Allows P op v c) (h : Exec restic t w c a w') : Inv w' := by
  cases c with
  | projectsGet id | projectsGetByName name | projectsList | secretsList projectId | secretsGet id | fs op =>
      rw [h.1]
      exact hinv
  | now =>
      rw [show w' = w from h]
      exact hinv
  | transact tx =>
      rcases exec_transact h with ⟨e, -, -, rfl⟩ | ⟨db, n, hrun, -, rfl⟩
      · exact hinv
      · refine ⟨hinv.exclusive, hinv.owner, fun id hid => ?_, fun s hs => ?_⟩
        · rcases List.mem_append.mp hid with hid | hid
          · exact ⟨t, (howns id (allows_insertedIds hallows id hid)).1⟩
          · exact hinv.issued id hid
        · have hs' : s ∈ (tx.run w.db.toTables).1.secrets := by
            rw [hrun]
            exact hs
          rcases Transaction.mem_secrets_run hs' with (hs | hs) | ⟨s₀, hs₀, hid, -⟩
          · exact List.mem_append_right _ (hinv.stored s hs)
          · exact List.mem_append_left _ hs
          · rw [← hid]
            exact List.mem_append_right _ (hinv.stored s₀ hs₀)
  | acquire lock =>
      rcases h with ⟨m, -, rfl⟩ | ⟨-, hfree, rfl⟩
      · exact hinv
      · refine ⟨fun {lock' t₁ t₂} h₁ h₂ => ?_, hinv.owner, hinv.issued, hinv.stored⟩
        rcases List.mem_cons.mp h₁ with h₁ | h₁ <;> rcases List.mem_cons.mp h₂ with h₂ | h₂
        · cases h₁
          cases h₂
          rfl
        · cases h₁
          exact absurd h₂ (hfree _)
        · cases h₂
          exact absurd h₁ (hfree _)
        · exact hinv.exclusive h₁ h₂
  | release lock =>
      rw [show w' = _ from h]
      exact ⟨fun h₁ h₂ => hinv.exclusive (List.mem_of_mem_filter h₁) (List.mem_of_mem_filter h₂),
        hinv.owner, hinv.issued, hinv.stored⟩
  | uuid =>
      obtain ⟨hnew, rfl⟩ := h
      refine ⟨hinv.exclusive, fun {id t₁ t₂} h₁ h₂ => ?_, fun id hid => ?_, hinv.stored⟩
      · rcases List.mem_cons.mp h₁ with h₁ | h₁ <;> rcases List.mem_cons.mp h₂ with h₂ | h₂
        · cases h₁
          cases h₂
          rfl
        · cases h₁
          exact absurd h₂ (hnew _)
        · cases h₂
          exact absurd h₁ (hnew _)
        · exact hinv.owner h₁ h₂
      · obtain ⟨t', ht'⟩ := hinv.issued id hid
        exact ⟨t', List.mem_cons_of_mem _ ht'⟩
  | restic projectId op =>
      obtain ⟨r, -, rfl⟩ := h
      exact ⟨hinv.exclusive, hinv.owner, hinv.issued, hinv.stored⟩

/-- A transaction uses ids up, and a generated one is new. -/
theorem owns_exec {c : Cmd} {a : c.Answer} (hinv : Inv w) (howns : Owns t v w) (h : Exec restic t w c a w') :
    Owns t (v.step c a) w' := by
  cases c with
  | projectsGet id | secretsList projectId =>
      obtain ⟨rfl, -⟩ := h
      cases a with
      | error e => exact howns
      | ok answer =>
          rw [View.step]
          split_ifs <;> exact howns
  | projectsGetByName name | projectsList | secretsGet id | fs op =>
      rw [h.1]
      exact howns
  | now =>
      rw [show w' = w from h]
      exact howns
  | transact tx =>
      rcases exec_transact h with ⟨e, rfl, -, rfl⟩ | ⟨db, n, -, rfl, rfl⟩
      · exact howns
      · intro id hid
        obtain ⟨hid, hnew⟩ := List.mem_filter.mp hid
        obtain ⟨hissued, hstored⟩ := howns id hid
        refine ⟨hissued, fun hmem => ?_⟩
        rcases List.mem_append.mp hmem with hmem | hmem
        · exact of_decide_eq_true hnew hmem
        · exact hstored hmem
  | acquire lock =>
      rcases h with ⟨m, rfl, rfl⟩ | ⟨rfl, -, rfl⟩
      · exact howns
      · exact howns
  | release lock =>
      rw [show w' = _ from h]
      exact howns
  | uuid =>
      obtain ⟨hnew, rfl⟩ := h
      intro id hid
      rcases List.mem_cons.mp hid with rfl | hid
      · refine ⟨List.mem_cons_self .., fun hstored => ?_⟩
        obtain ⟨t', ht'⟩ := hinv.issued _ hstored
        exact hnew t' ht'
      · exact ⟨List.mem_cons_of_mem _ (howns id hid).1, (howns id hid).2⟩
  | restic projectId rop =>
      obtain ⟨r, -, rfl⟩ := h
      cases rop with
      | restore snapshotId =>
          rw [View.step]
          split_ifs <;> exact howns
      | _ => exact howns

/-- Another operation stores its own ids only. -/
theorem owns_exec_of_ne {c : Cmd} {a : c.Answer} {t' : Nat} {v' : View} (hne : t' ≠ t) (hinv : Inv w) (howns : Owns t v w)
    (hallows : Allows P op v c) (h : Exec restic t w c a w') (howns' : Owns t' v' w) : Owns t' v' w' := by
  cases c with
  | projectsGet id | projectsGetByName name | projectsList | secretsList projectId | secretsGet id | fs op =>
      rw [h.1]
      exact howns'
  | now =>
      rw [show w' = w from h]
      exact howns'
  | transact tx =>
      rcases exec_transact h with ⟨e, -, -, rfl⟩ | ⟨db, n, -, -, rfl⟩
      · exact howns'
      · intro id hid
        obtain ⟨hissued, hstored⟩ := howns' id hid
        refine ⟨hissued, fun hmem => ?_⟩
        rcases List.mem_append.mp hmem with hmem | hmem
        · exact hne (hinv.owner hissued (howns id (allows_insertedIds hallows id hmem)).1)
        · exact hstored hmem
  | acquire lock =>
      rcases h with ⟨m, -, rfl⟩ | ⟨-, -, rfl⟩
      · exact howns'
      · exact howns'
  | release lock =>
      rw [show w' = _ from h]
      exact howns'
  | uuid =>
      obtain ⟨-, rfl⟩ := h
      exact fun id hid => ⟨List.mem_cons_of_mem _ (howns' id hid).1, (howns' id hid).2⟩
  | restic projectId rop =>
      obtain ⟨r, -, rfl⟩ := h
      exact howns'

/-- A step extends what its own operation knows. -/
theorem knows_exec {c : Cmd} {a : c.Answer} (hinv : Inv w) (hk : Knows restic t op v w)
    (h : Exec restic t w c a w') : Knows restic t op (v.step c a) w' := by
  have howns := owns_exec hinv hk.ids h
  cases c with
  | projectsGet id =>
      obtain ⟨rfl, rfl | ⟨m, rfl⟩⟩ := h
      · rw [View.step]
        split_ifs
        · refine ⟨hk.lock, fun {projectId} hf => ?_, hk.list, hk.ids, hk.restored⟩
          obtain ⟨p, hp, hid⟩ := Option.map_eq_some_iff.mp hf.2
          rw [← hid]
          exact ⟨p, List.mem_of_find?_eq_some hp, Tables.project?_id hp⟩
        · exact ⟨hk.lock, hk.found, hk.list, hk.ids, hk.restored⟩
      · exact hk
  | projectsGetByName name | projectsList | secretsGet id | fs op =>
      rw [h.1]
      exact hk
  | now =>
      rw [show w' = w from h]
      exact hk
  | secretsList projectId =>
      obtain ⟨rfl, ⟨l, rfl, hl⟩ | ⟨m, rfl⟩⟩ := h
      · rw [View.step]
        split_ifs
        · refine ⟨hk.lock, hk.found, fun {projectId' rows} hlists => ?_, hk.ids, hk.restored⟩
          cases hlists.2
          exact hl
        · exact ⟨hk.lock, hk.found, hk.list, hk.ids, hk.restored⟩
      · exact hk
  | transact tx =>
      rcases exec_transact h with ⟨e, rfl, -, rfl⟩ | ⟨db, n, hrun, rfl, rfl⟩
      · exact hk
      · exact ⟨hk.lock, (fun hf => by cases hf.2), (fun hlists => by cases hlists.2), howns, hk.restored⟩
  | acquire lock =>
      rcases h with ⟨m, rfl, rfl⟩ | ⟨rfl, hfree, rfl⟩
      · exact hk
      · refine ⟨fun hl => ?_, (fun hf => by cases hf.2), (fun hlists => by cases hlists.2), hk.ids, hk.restored⟩
        cases hl
        exact List.mem_cons_self ..
  | release lock =>
      rw [show w' = _ from h]
      exact ⟨(fun hl => by cases hl), (fun hf => by cases hf.2), (fun hlists => by cases hlists.2), hk.ids,
        hk.restored⟩
  | uuid =>
      obtain ⟨-, rfl⟩ := h
      exact ⟨hk.lock, hk.found, hk.list, howns, hk.restored⟩
  | restic projectId rop =>
      obtain ⟨r, hrun, rfl⟩ := h
      have hk' : Knows restic t op v { w with repository := r } :=
        hk.of_world (fun _ h => h) (fun _ _ h => h) (fun _ _ _ => rfl) (fun _ _ h₁ h₂ => ⟨h₁, h₂⟩) fun hf _ _ _ =>
          hf.keeps hrun
      cases rop with
      | restore snapshotId =>
          rw [View.step]
          split_ifs with hcode
          · refine ⟨hk'.lock, hk'.found, hk'.list, hk'.ids, fun hf {projectId' snapshotId' listing} hr => ?_⟩
            cases hr
            exact hf.restore hrun hcode
          · exact hk'
      | backup dir pushedBy => exact ⟨hk'.lock, hk'.found, hk'.list, hk'.ids, hk'.restored⟩
      | repositoryCheck | init | snapshots | snapshot id => exact hk'

/-- A step leaves what the other operations know. -/
theorem knows_exec_of_ne {c : Cmd} {a : c.Answer} {t' : Nat} {op' : Operation} {v' : View} (hne : t' ≠ t)
    (hinv : Inv w) (hk : Knows restic t op v w) (hallows : Allows P op v c) (h : Exec restic t w c a w')
    (hk' : Knows restic t' op' v' w) : Knows restic t' op' v' w' := by
  have howns := owns_exec_of_ne hne hinv hk.ids hallows h hk'.ids
  cases c with
  | projectsGet id | projectsGetByName name | projectsList | secretsList projectId | secretsGet id | fs op =>
      rw [h.1]
      exact hk'
  | now =>
      rw [show w' = w from h]
      exact hk'
  | transact tx =>
      rcases exec_transact h with ⟨e, -, -, rfl⟩ | ⟨db, n, hrun, -, rfl⟩
      · exact hk'
      · have hdb : db.toTables = (tx.run w.db.toTables).1 := by rw [hrun]
        -- the section of the other operation excludes a write of its project
        have hother : ∀ projectId, v'.Holds projectId → tx.writes ≠ some projectId := fun projectId hholds hwrites =>
          hne (hinv.exclusive (hk'.lock hholds) (hk.lock (allows_writes hallows hwrites)))
        refine hk'.of_world (fun _ h => h) (fun projectId hholds hp => ?_) (fun projectId rows hlists => ?_)
          (fun id hid _ _ => howns id hid) fun _ _ _ _ h => h
        · obtain ⟨p, hp, rfl⟩ := hp
          show ∃ p' ∈ db.toTables.projects, p'.id = p.id
          rw [hdb]
          refine Transaction.project_stays hp fun htx => hother _ hholds ?_
          rw [htx]
          rfl
        · show db.toTables.rows projectId = _
          rw [hdb]
          exact Transaction.rows_run_of_ne (allows_confined hk hallows) (hother _ hlists.1)
  | acquire lock =>
      rcases h with ⟨m, -, rfl⟩ | ⟨-, hfree, rfl⟩
      · exact hk'
      · exact hk'.of_world (fun _ h => List.mem_cons_of_mem _ h) (fun _ _ h => h) (fun _ _ _ => rfl)
          (fun _ _ h₁ h₂ => ⟨h₁, h₂⟩) fun _ _ _ _ h => h
  | release lock =>
      rw [show w' = _ from h]
      refine hk'.of_world (fun lock' h => List.mem_filter.mpr ⟨h, ?_⟩) (fun _ _ h => h) (fun _ _ _ => rfl)
          (fun _ _ h₁ h₂ => ⟨h₁, h₂⟩) fun _ _ _ _ h => h
      refine decide_eq_true fun heq => hne ?_
      exact (Prod.mk.inj heq).2
  | uuid =>
      obtain ⟨hnew, rfl⟩ := h
      exact hk'.of_world (fun _ h => h) (fun _ _ h => h) (fun _ _ _ => rfl)
        (fun _ _ h₁ h₂ => ⟨List.mem_cons_of_mem _ h₁, h₂⟩) fun _ _ _ _ h => h
  | restic projectId rop =>
      obtain ⟨r, hrun, rfl⟩ := h
      exact hk'.of_world (fun _ h => h) (fun _ _ h => h) (fun _ _ _ => rfl) (fun _ _ h₁ h₂ => ⟨h₁, h₂⟩) fun hf _ _ _ =>
        hf.keeps hrun

end Allowed

/-- **The outline of the server**: every operation keeps the discipline, and the discipline the invariant. -/
theorem serverOutline (P : Platform) (timeouts : ResticTimeouts) (restic : Restic R)
    (admits : Operation → Prop) :
    Outline (server P timeouts restic admits) (sections P) .start Inv (Knows restic) (Outcome P) where
  body op _ := meets_serve timeouts op
  expects _ hk h := exec_expects hk.ids h
  spawn t op w _ := knows_start t op w
  inv hinv hk hallows h := inv_exec hinv hk.ids hallows h
  self hinv hk _ h := knows_exec hinv hk h
  other := knows_exec_of_ne
  environment := by
    rintro w _ hinv ⟨r, hr, rfl⟩
    refine ⟨⟨hinv.exclusive, hinv.owner, hinv.issued, hinv.stored⟩, fun t op v hk => ?_⟩
    exact hk.of_world (fun _ h => h) (fun _ _ h => h) (fun _ _ _ => rfl) (fun _ _ h₁ h₂ => ⟨h₁, h₂⟩) fun hf _ _ _ =>
      hf.outside hr

end SecretsManager
