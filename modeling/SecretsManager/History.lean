import SecretsManager.Invariants

/-!
# What a view remembers

The view of an operation is computed from its events. This module goes back: a transaction of the view is
an event that committed it, and a list that the view has seen is the answer of an event.
-/

namespace SecretsManager

open Js Interleaving

variable {R : Type} {restic : Restic R} {P : Platform} {op : Operation} {t : Nat}

abbrev ServerEvent (R : Type) : Type := Event (World R) Cmd Cmd.Answer

/-- The view of an operation after its events. -/
def viewAfter (trace : List (ServerEvent R)) : View := trace.foldl (fun v e => v.step e.cmd e.answer) .start

theorem viewAfter_append (trace : List (ServerEvent R)) (e : ServerEvent R) :
    viewAfter (trace ++ [e]) = (viewAfter trace).step e.cmd e.answer := by
  simp [viewAfter]

/-- The transaction that the event has committed, with its count. -/
def committed? : ServerEvent R → Option (Transaction × Nat)
  | ⟨_, .transact tx, .ok n, _⟩ => some (tx, n)
  | _ => none

theorem committed?_eq_some {e : ServerEvent R} {tx : Transaction} {n : Nat} (h : committed? e = some (tx, n)) :
    ∃ w w', e = ⟨w, .transact tx, .ok n, w'⟩ := by
  unfold committed? at h
  split at h
  · cases h
    exact ⟨_, _, rfl⟩
  · cases h

theorem View.step_done (v : View) (e : ServerEvent R) :
    (v.step e.cmd e.answer).done = v.done ++ (committed? e).toList := by
  obtain ⟨w, c, a, w'⟩ := e
  have hnone : ∀ v' : View, v'.done = v.done → v'.done = v.done ++ (none : Option (Transaction × Nat)).toList := by
    intro v' h
    rw [h, Option.toList_none, List.append_nil]
  cases c with
  | transact tx =>
      cases a with
      | error e => exact hnone v rfl
      | ok n => rfl
  | projectsGet id | secretsList projectId =>
      cases a with
      | error e => exact hnone v rfl
      | ok answer =>
          refine hnone _ ?_
          rw [View.step]
          split_ifs <;> rfl
  | acquire lock => cases a <;> exact hnone _ rfl
  | restic projectId op =>
      cases op with
      | restore snapshotId =>
          refine hnone _ ?_
          rw [View.step]
          split_ifs <;> rfl
      | _ => exact hnone _ rfl
  | _ => exact hnone _ rfl

/-- The transactions of a view are those that its events have committed, in their order. -/
theorem done_viewAfter (trace : List (ServerEvent R)) : (viewAfter trace).done = trace.filterMap committed? := by
  induction trace using List.reverseRecOn with
  | nil => rfl
  | append_singleton trace e ih =>
      rw [viewAfter_append, View.step_done, ih, List.filterMap_append,
        List.filterMap_cons, List.filterMap_nil]
      cases committed? e <;> rfl

theorem exec_committed {w w' : World R} {tx : Transaction} {n : Nat}
    (h : Exec restic t w (.transact tx) (.ok n) w') :
    tx.run w.db.toTables = (w'.db.toTables, n) ∧ w'.stored = tx.insertedIds ++ w.stored := by
  rcases exec_transact h with ⟨_, herror, -⟩ | ⟨db, n', hrun, hn, rfl⟩
  · cases herror
  · cases hn
    exact ⟨hrun, rfl⟩

/-- An event without a committed transaction leaves the database and the stored ids. -/
theorem exec_keeps {e : ServerEvent R} (h : Exec restic t e.before e.cmd e.answer e.after)
    (hnone : committed? e = none) : e.after.db = e.before.db ∧ e.after.stored = e.before.stored := by
  obtain ⟨w, c, a, w'⟩ := e
  dsimp only at h ⊢
  cases c with
  | transact tx =>
      rcases exec_transact h with ⟨e, -, -, rfl⟩ | ⟨db, n, -, rfl, -⟩
      · exact ⟨rfl, rfl⟩
      · cases hnone
  | acquire lock =>
      rcases h with ⟨m, -, rfl⟩ | ⟨-, -, rfl⟩
      · exact ⟨rfl, rfl⟩
      · exact ⟨rfl, rfl⟩
  | release lock =>
      rw [show w' = _ from h]
      exact ⟨rfl, rfl⟩
  | uuid =>
      obtain ⟨-, rfl⟩ := h
      exact ⟨rfl, rfl⟩
  | now =>
      rw [show w' = _ from h]
      exact ⟨rfl, rfl⟩
  | restic projectId op =>
      obtain ⟨r, -, rfl⟩ := h
      exact ⟨rfl, rfl⟩
  | _ =>
      rw [h.1]
      exact ⟨rfl, rfl⟩

theorem exec_db {e : ServerEvent R} (h : Exec restic t e.before e.cmd e.answer e.after)
    (hnone : committed? e = none) : e.after.db = e.before.db :=
  (exec_keeps h hnone).1

/-! ## Lists -/

/-- The answer of the event, when it has listed the secrets of a project. -/
def list? : ServerEvent R → Option (JsString × List Secret)
  | ⟨_, .secretsList projectId, .ok rows, _⟩ => some (projectId, rows)
  | _ => none

theorem list?_eq_some {e : ServerEvent R} {projectId : JsString} {rows : List Secret}
    (h : list? e = some (projectId, rows)) : ∃ w w', e = ⟨w, .secretsList projectId, .ok rows, w'⟩ := by
  unfold list? at h
  split at h
  · cases h
    exact ⟨_, _, rfl⟩
  · cases h

theorem View.step_listed (v : View) (e : ServerEvent R) :
    (v.step e.cmd e.answer).listed = if v.lock.isSome then v.listed else (list? e).or v.listed := by
  obtain ⟨w, c, a, w'⟩ := e
  have hkeep : ∀ v' : View, v'.listed = v.listed →
      v'.listed = if v.lock.isSome then v.listed else (none : Option (JsString × List Secret)).or v.listed := by
    intro v' h
    rw [h, Option.none_or, ite_self]
  cases c with
  | secretsList projectId =>
      cases a with
      | error e => exact hkeep v rfl
      | ok rows =>
          rw [View.step]
          split_ifs <;> rfl
  | transact tx =>
      cases a <;> exact hkeep _ rfl
  | projectsGet id =>
      cases a with
      | error e => exact hkeep v rfl
      | ok row =>
          refine hkeep _ ?_
          rw [View.step]
          split_ifs <;> rfl
  | acquire lock => cases a <;> exact hkeep _ rfl
  | restic projectId op =>
      cases op with
      | restore snapshotId =>
          refine hkeep _ ?_
          rw [View.step]
          split_ifs <;> rfl
      | _ => exact hkeep _ rfl
  | _ => exact hkeep _ rfl

theorem exec_listed {w w' : World R} {projectId : JsString} {rows : List Secret}
    (h : Exec restic t w (.secretsList projectId) (.ok rows) w') : rows.Perm (w.db.rows projectId) := by
  obtain ⟨-, ⟨l, hl, hperm⟩ | ⟨m, hm⟩⟩ := h
  · cases hl
    exact hperm
  · cases hm

/-- The list of a view is the answer of an event outside the write sections. -/
theorem listed_viewAfter {trace : List (ServerEvent R)} {projectId : JsString} {rows : List Secret}
    (h : (viewAfter trace).listed = some (projectId, rows)) :
    ∃ earlier w w' later, trace = earlier ++ ⟨w, .secretsList projectId, .ok rows, w'⟩ :: later ∧
      (viewAfter earlier).lock = none := by
  induction trace using List.reverseRecOn with
  | nil => cases h
  | append_singleton trace e ih =>
      have hold : (viewAfter trace).listed = some (projectId, rows) → ∃ earlier w w' later,
          trace ++ [e] = earlier ++ ⟨w, .secretsList projectId, .ok rows, w'⟩ :: later ∧
            (viewAfter earlier).lock = none := by
        intro h
        obtain ⟨earlier, w, w', later, rfl, hlock⟩ := ih h
        exact ⟨earlier, w, w', later ++ [e], by simp, hlock⟩
      rw [viewAfter_append, View.step_listed] at h
      split_ifs at h with hlock
      · exact hold h
      · rcases Option.or_eq_some_iff.mp h with h | ⟨-, h⟩
        · obtain ⟨w, w', rfl⟩ := list?_eq_some h
          exact ⟨trace, w, w', [], rfl, by simpa using hlock⟩
        · exact hold h

/-! ## Lawful traces -/

section Lawful
variable {timeouts : ResticTimeouts} {admits : Operation → Prop}

/-- Every event of the operation has happened within the outline of the server. -/
def Lawful (P : Platform) (timeouts : ResticTimeouts) (restic : Restic R) (admits : Operation → Prop) (t : Nat)
    (op : Operation) (trace : List (ServerEvent R)) : Prop :=
  ∀ earlier e later, trace = earlier ++ e :: later →
    Happened (server P timeouts restic admits) (sections P) .start Inv (Knows restic) t op earlier e

theorem Lawful.of_append {earlier later : List (ServerEvent R)}
    (h : Lawful P timeouts restic admits t op (earlier ++ later)) :
    Lawful P timeouts restic admits t op earlier := by
  rintro a e b rfl
  exact h a e (b ++ later) (by simp)

theorem Lawful.last {trace : List (ServerEvent R)} {e : ServerEvent R}
    (h : Lawful P timeouts restic admits t op (trace ++ [e])) :
    Happened (server P timeouts restic admits) (sections P) .start Inv (Knows restic) t op trace e :=
  h trace e [] rfl

theorem Lawful.kept {trace : List (ServerEvent R)} (h : Lawful P timeouts restic admits t op trace)
    {x : ServerEvent R} (hx : x ∈ trace) (hnone : committed? x = none) : x.after.db = x.before.db := by
  obtain ⟨earlier, later, hsplit⟩ := List.append_of_mem hx
  exact exec_db (h earlier x later hsplit).exec hnone

/-- The operation has listed these rows of the project outside its write sections, as they were stored. -/
def Listed (trace : List (ServerEvent R)) (projectId : JsString) (rows : List Secret) : Prop :=
  ∃ earlier w w' later, trace = earlier ++ ⟨w, .secretsList projectId, .ok rows, w'⟩ :: later ∧
    (viewAfter earlier).lock = none ∧ rows.Perm (w.db.rows projectId)

theorem Lawful.listed {trace later : List (ServerEvent R)} (h : Lawful P timeouts restic admits t op (trace ++ later))
    {projectId : JsString} {rows : List Secret} (hlisted : (viewAfter trace).listed = some (projectId, rows)) :
    Listed (trace ++ later) projectId rows := by
  obtain ⟨earlier, w, w', rest, rfl, hlock⟩ := listed_viewAfter hlisted
  have hsplit : (earlier ++ ⟨w, .secretsList projectId, .ok rows, w'⟩ :: rest) ++ later =
      earlier ++ ⟨w, .secretsList projectId, .ok rows, w'⟩ :: (rest ++ later) := by simp
  have hexec : Exec restic t w (.secretsList projectId) (.ok rows) w' := (h _ _ _ hsplit).exec
  exact ⟨earlier, w, w', rest ++ later, hsplit, hlock, exec_listed hexec⟩

/-- An operation that has committed one transaction has left the database at all other events. -/
theorem Lawful.one_committed {trace : List (ServerEvent R)} (h : Lawful P timeouts restic admits t op trace)
    {x : Transaction × Nat} (hdone : (viewAfter trace).done = [x]) : ∃ earlier e later,
      trace = earlier ++ e :: later ∧ committed? e = some x ∧
        ∀ y ∈ earlier ++ later, y.after.db = y.before.db := by
  rw [done_viewAfter, List.filterMap_eq_cons_iff] at hdone
  obtain ⟨earlier, e, later, rfl, hearlier, he, hlater⟩ := hdone
  refine ⟨earlier, e, later, rfl, he, fun y hy => ?_⟩
  rcases List.mem_append.mp hy with hy | hy
  · exact h.kept (List.mem_append_left _ hy) (hearlier y hy)
  · exact h.kept (List.mem_append_right _ (List.mem_cons_of_mem _ hy)) (List.filterMap_eq_nil_iff.mp hlater y hy)

end Lawful

/-! ## Snapshots -/

section Snapshots
variable {timeouts : ResticTimeouts} {admits : Operation → Prop} {projectId snapshotId : JsString}

/-- Every snapshot of the one world is there in the other, with its files. -/
def Restic.Keeps (restic : Restic R) (w w' : World R) : Prop :=
  ∀ projectId snapshotId dir, restic.snapshot? w.repository projectId snapshotId = some dir →
    restic.snapshot? w'.repository projectId snapshotId = some dir

theorem keeps_exec (hf : restic.Faithful) {e : ServerEvent R}
    (h : Exec restic t e.before e.cmd e.answer e.after) : restic.Keeps e.before e.after := by
  obtain ⟨w, c, a, w'⟩ := e
  dsimp only at h ⊢
  cases c with
  | restic projectId op =>
      obtain ⟨r, hrun, rfl⟩ := h
      exact fun _ _ _ => hf.keeps hrun
  | transact tx =>
      rcases exec_transact h with ⟨e, -, -, rfl⟩ | ⟨db, n, -, -, rfl⟩
      · exact fun _ _ _ hdir => hdir
      · exact fun _ _ _ hdir => hdir
  | acquire lock =>
      rcases h with ⟨m, -, rfl⟩ | ⟨-, -, rfl⟩
      · exact fun _ _ _ hdir => hdir
      · exact fun _ _ _ hdir => hdir
  | release lock =>
      rw [show w' = _ from h]
      exact fun _ _ _ hdir => hdir
  | uuid =>
      obtain ⟨-, rfl⟩ := h
      exact fun _ _ _ hdir => hdir
  | now =>
      rw [show w' = _ from h]
      exact fun _ _ _ hdir => hdir
  | _ =>
      rw [h.1]
      exact fun _ _ _ hdir => hdir

theorem keeps_past (hf : restic.Faithful) {w₀ : World R} (h₀ : Inv w₀)
    {cfg : Config (World R) Cmd Cmd.Answer Failure Response Operation}
    (h : (server P timeouts restic admits).Reachable w₀ cfg) :
    ∀ th ∈ cfg.threads, ∀ e ∈ th.trace, restic.Keeps e.before cfg.world ∧ restic.Keeps e.after cfg.world := by
  refine (serverOutline P timeouts restic admits).past_rel (fun w _ _ _ h => h)
    (fun {a b c} (hab : restic.Keeps a b) (hbc : restic.Keeps b c) _ _ _ hdir => hbc _ _ _ (hab _ _ _ hdir))
    (fun h => keeps_exec hf h.exec) ?_ h₀ h
  rintro w _ - ⟨r, hr, rfl⟩
  exact fun _ _ _ => hf.outside hr

/-- The content of a snapshot, as a pull reads it. -/
def SnapshotContent (P : Platform) (restic : Restic R) (w : World R) (projectId snapshotId : JsString)
    (content : List SecretContent) : Prop :=
  ∃ dir, restic.snapshot? w.repository projectId snapshotId = some dir ∧
    readSnapshotSecrets P dir.entries = .ok content

theorem SnapshotContent.kept {w w' : World R} {content : List SecretContent}
    (h : SnapshotContent P restic w projectId snapshotId content) (hkeeps : restic.Keeps w w') :
    SnapshotContent P restic w' projectId snapshotId content := by
  obtain ⟨dir, hdir, hread⟩ := h
  exact ⟨dir, hkeeps _ _ _ hdir, hread⟩

theorem SnapshotContent.unique {w : World R} {content content' : List SecretContent}
    (h : SnapshotContent P restic w projectId snapshotId content)
    (h' : SnapshotContent P restic w projectId snapshotId content') : content = content' := by
  obtain ⟨dir, hdir, hread⟩ := h
  obtain ⟨dir', hdir', hread'⟩ := h'
  obtain rfl : dir = dir' := Option.some.inj (hdir.symm.trans hdir')
  exact Except.ok.inj (hread.symm.trans hread')

theorem SnapshotContent.names {w : World R} {content : List SecretContent}
    (h : SnapshotContent P restic w projectId snapshotId content) : UniqueNames content := by
  obtain ⟨dir, -, hread⟩ := h
  exact uniqueNames_readSnapshotSecrets dir.distinct hread

/-- The secrets after a replacement are the content of its snapshot, and the project has it as the last
synchronized one. -/
theorem applied_of_replaces (hf : restic.Faithful) {op : Operation} {v : View} {w w' : World R} {n : Nat}
    {secrets : List Secret} {state : ProjectSyncState} (hknows : Knows restic t op v w)
    (hreplaces : Replaces P op v projectId secrets state)
    (hexec : Exec restic t w (.transact (.secretsDataReplaceForProject projectId secrets state)) (.ok n) w') :
    (∃ p, w'.db.project? projectId = some p ∧ p.lastSyncSnapshotId = state.snapshotId) ∧
      ∃ content, SnapshotContent P restic w projectId state.snapshotId content ∧
        contentMap (contents (w'.db.rows projectId)) = contentMap content := by
  have hrun := (exec_committed hexec).1
  have hrows : w'.db.rows projectId = secrets := by
    have hreplaced : ((Transaction.secretsDataReplaceForProject projectId secrets state).run
        w.db.toTables).1.rows projectId = secrets :=
      Transaction.rows_run_replace fun s hs => (hreplaces.fresh s hs).1
    rwa [hrun] at hreplaced
  constructor
  · obtain ⟨p, hp, hid⟩ := hknows.found hreplaces.found
    have hproject : ∃ p', ((Transaction.secretsDataReplaceForProject projectId secrets state).run
        w.db.toTables).1.project? projectId = some p' ∧ p'.lastSyncSnapshotId = state.snapshotId :=
      Transaction.project?_run_replace ((Tables.project?_eq_some w.db.valid).mpr ⟨hp, hid⟩)
    rwa [hrun] at hproject
  · obtain ⟨listing, hrestored, hread⟩ := hreplaces.content
    obtain ⟨dir, hdir, hlisting⟩ := hknows.restored hf hrestored
    obtain ⟨content, hread', hperm⟩ := readSnapshotSecrets_perm hread hlisting
    refine ⟨content, ⟨dir, hdir, hread'⟩, ?_⟩
    rw [hrows]
    exact contentMap_eq_of_perm ((uniqueNames_readSnapshotSecrets dir.distinct hread').perm hperm.symm) hperm

end Snapshots

end SecretsManager
