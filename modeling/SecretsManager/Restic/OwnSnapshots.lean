import SecretsManager.IssuedTransactions
import SecretsManager.Secrets.SavedBack

/-!
# The snapshot that a push records

A push looks for its snapshot by the id in the output of the backup, and by the difference of two listings when
no lookup finds it. With a restic that reports the id that it has created and lists all that it holds, the
difference is never needed: whatever other writers add, the recorded snapshot has the files of the backup. With
requests that update no key `__proto__`, all that the flag of local changes rests on then holds of every run.
-/

namespace SecretsManager

open Js JsObject Interleaving

variable {R : Type} {restic : Restic R} {P : Platform} {timeouts : ResticTimeouts} {admits : Operation → Prop}

/-- The output of a backup that succeeds has the id of a snapshot with the files, and a listing that succeeds
has every snapshot. -/
structure Restic.Reports (P : Platform) (timeouts : ResticTimeouts) (restic : Restic R) : Prop where
  backup : ∀ {r projectId dir pushedBy a r' createdId}, restic.run r projectId (.backup dir pushedBy) a r' →
    backupResult P timeouts a.result = .ok createdId →
    ∃ id, createdId = some id ∧ id ≠ [] ∧ restic.snapshot? r' projectId id = some dir
  listing : ∀ {r projectId a r' snapshots}, restic.run r projectId .snapshots a r' →
    snapshotsResult P timeouts a.result = .ok snapshots →
    ∀ {id dir}, restic.snapshot? r projectId id = some dir → ∃ s ∈ snapshots, s.id = id

/-! ## The last backup -/

/-- Its project and files, and the id in its output when it succeeded. -/
structure LastBackup where
  projectId : JsString
  dir : Dir
  createdId : Option JsString

namespace LastBackup

section Platform
variable (P : Platform) (timeouts : ResticTimeouts)

def step (b : Option LastBackup) : (c : Cmd) → c.Answer → Option LastBackup
  | .restic projectId (.backup dir _), a =>
      some ⟨projectId, dir, (backupResult P timeouts a.result).toOption.join⟩
  | _, _ => b

/-- Only the snapshot of the last backup is recorded. -/
def allows (b : Option LastBackup) : Cmd → Prop
  | .transact (.projectsDataUpdateSyncState projectId snapshotId _ _ _) =>
      ∃ dir, b = some ⟨projectId, dir, some snapshotId⟩
  | _ => True

def expects (b : Option LastBackup) : (c : Cmd) → c.Answer → Prop
  | .restic _ (.backup _ _), a => ∀ createdId, backupResult P timeouts a.result = .ok createdId →
      ∃ id, createdId = some id ∧ id ≠ []
  | .restic projectId .snapshots, a => ∀ snapshots, snapshotsResult P timeouts a.result = .ok snapshots →
      ∀ dir id, b = some ⟨projectId, dir, some id⟩ → ∃ s ∈ snapshots, s.id = id
  | _, _ => True

def monitor : Monitor Cmd Cmd.Answer (Option LastBackup) := ⟨step P timeouts, allows, expects P timeouts⟩

end Platform

/-! ## What a push allows itself -/

section Meets
variable {α β : Type} {b : Option LastBackup} {client : ResticClient}

/-- Neither a backup nor a transaction. -/
def Neutral : Cmd → Prop
  | .restic _ (.backup _ _) | .transact _ => False
  | _ => True

theorem neutral_monitor {c : Cmd} (hc : Neutral c) :
    (monitor P timeouts).allows b c ∧ ∀ a, (monitor P timeouts).step b c a = b := by
  cases c with
  | restic projectId op => cases op <;> first | exact hc.elim | exact ⟨trivial, fun _ => rfl⟩
  | transact tx => exact hc.elim
  | _ => exact ⟨trivial, fun _ => rfl⟩

theorem neutral_meets {task : Op α} (h : task.Only Neutral) {Q : Except Failure α → Option LastBackup → Prop}
    (hQ : ∀ r, Q r b) : task.Meets (monitor P timeouts) b Q :=
  h.meets (fun _ hc => neutral_monitor hc) hQ

/-- After a neutral part anything can follow. -/
theorem neutral_then {task : Op α} {f : α → Op β} (h : task.Only Neutral)
    (hf : ∀ a, (f a).Meets (monitor P timeouts) b fun _ _ => True) :
    (task >>= f).Meets (monitor P timeouts) b fun _ _ => True := by
  rw [meets_bind]
  refine neutral_meets h fun r => ?_
  cases r with
  | error e => trivial
  | ok a => exact hf a

/-- What the lookups find has the id that they look for. -/
theorem meets_lookupCreated {createdId : JsString} {Q : Except Failure (Option ResticSnapshot) → Option LastBackup → Prop}
    (hQ : ∀ r, (∀ s, r = .ok (some s) → s.id = createdId) → Q r b) (attempts : Nat) :
    (lookupCreated P client createdId attempts).Meets (monitor P timeouts) b Q := by
  induction attempts with
  | zero => exact hQ _ fun s hs => by cases hs
  | succ attempts ih =>
      rw [lookupCreated, meets_bind, ResticClient.snapshot, meets_bind, ResticClient.run, meets_lift]
      refine ⟨trivial, fun a _ => ?_⟩
      rw [then_ok, meets_ofExcept]
      cases hresult : snapshotResult P client.timeouts createdId a.result with
      | error e => exact hQ _ fun s hs => by cases hs
      | ok found =>
          cases found with
          | none => exact ih
          | some s =>
              refine hQ _ fun s' hs' => ?_
              obtain rfl : s = s' := by simpa using hs'
              exact snapshotResult_id hresult

/-- The listing has the created snapshot, so the difference of the listings is not needed. -/
theorem meets_resolveCreatedSnapshot {dir : Dir} {id : JsString} (hid : id ≠ []) (knownIds : List JsString) :
    (resolveCreatedSnapshot P client (some id) knownIds).Meets (monitor P client.timeouts)
      (some ⟨client.project.id, dir, some id⟩) fun r b =>
        b = some ⟨client.project.id, dir, some id⟩ ∧ ∀ s, r = .ok s → s.id = id := by
  have hcreated : (some id).filter (fun id => decide (id ≠ [])) = some id := by
    rw [Option.filter_some, if_pos (decide_eq_true hid)]
  rw [resolveCreatedSnapshot, hcreated]
  dsimp only
  rw [meets_bind]
  refine meets_lookupCreated (fun r hfound => ?_) _
  cases r with
  | error e => exact ⟨rfl, fun s hs => by cases hs⟩
  | ok found =>
      rw [then_ok]
      cases found with
      | some s =>
          refine ⟨rfl, fun s' hs' => ?_⟩
          cases hs'
          exact hfound s rfl
      | none =>
          dsimp only
          rw [meets_bind, ResticClient.snapshots, meets_bind, ResticClient.run, meets_lift]
          refine ⟨trivial, fun a ha => ?_⟩
          rw [then_ok, meets_ofExcept]
          cases hresult : snapshotsResult P client.timeouts a.result with
          | error e => exact ⟨rfl, fun s hs => by cases hs⟩
          | ok snapshots =>
              rw [then_ok]
              obtain ⟨s, hs, hsid⟩ := ha snapshots hresult dir id rfl
              cases hfind : snapshots.find? fun snapshot => snapshot.id = id with
              | none => exact absurd hsid (of_decide_eq_false (Bool.eq_false_of_not_eq_true
                  (List.find?_eq_none.mp hfind s hs)))
              | some found =>
                  have hfound : found.id = id := by simpa using List.find?_some hfind
                  refine ⟨rfl, fun s' hs' => ?_⟩
                  cases hs'
                  exact hfound

/-- The record is that of the created snapshot. -/
theorem meets_finalizePush {projectId observed pushedHash : JsString} {dir : Dir} {created : ResticSnapshot} :
    (projectWriteLocksRun projectId (finalizePushSection P projectId observed pushedHash created)).Meets
      (monitor P timeouts) (some ⟨projectId, dir, some created.id⟩) fun _ _ => True := by
  have hneutral : ∀ {γ : Type} {task : Op γ}, task.Only Neutral → task.Only fun c =>
      (monitor P timeouts).allows (some ⟨projectId, dir, some created.id⟩) c ∧ ∀ a, (monitor P timeouts).step
        (some ⟨projectId, dir, some created.id⟩) c a = some ⟨projectId, dir, some created.id⟩ :=
    fun h => h.mono fun _ hc => neutral_monitor hc
  refine Prog.Only.meets (p := fun c => (monitor P timeouts).allows (some ⟨projectId, dir, some created.id⟩) c ∧
    ∀ a, (monitor P timeouts).step (some ⟨projectId, dir, some created.id⟩) c a =
      some ⟨projectId, dir, some created.id⟩) ?_ (fun _ hc => hc) fun _ => trivial
  refine Prog.Only.bind (only_lift.mpr ⟨trivial, fun _ => rfl⟩) fun held => Prog.Only.bind only_ofExcept fun _ => ?_
  refine Prog.Only.tryFinally ?_ (only_lift.mpr ⟨trivial, fun _ => rfl⟩)
  refine (hneutral (only_query (by exact trivial))).bind fun row => ?_
  cases row with
  | none => exact only_fail
  | some fresh =>
      dsimp only
      split_ifs
      · exact only_fail
      · refine (hneutral (only_query (by exact trivial))).bind fun secrets => ?_
        exact Prog.Only.bind (Prog.Only.bind (only_lift.mpr ⟨⟨dir, rfl⟩, fun _ => rfl⟩) fun _ => only_ofExcept)
          fun _ => only_pure

theorem meets_pushSecrets (client : ResticClient) (pushedBy : Option JsString) :
    (pushSecrets P client pushedBy).Meets (monitor P client.timeouts) b fun _ _ => True := by
  refine neutral_then (only_query (by exact trivial)) fun secrets => ?_
  refine neutral_then (Prog.Only.foldlM (only_exportSecret fun _ => trivial) _ _) fun dir => ?_
  refine neutral_then (only_prepareRepository trivial trivial trivial) fun snapshots => ?_
  refine neutral_then only_checkNoConflict fun _ => ?_
  rw [meets_bind, ResticClient.backup, meets_bind, ResticClient.run, meets_lift]
  refine ⟨trivial, fun a ha => ?_⟩
  rw [then_ok, meets_ofExcept]
  cases hresult : backupResult P client.timeouts a.result with
  | error e => trivial
  | ok createdId =>
      obtain ⟨id, rfl, hid⟩ := ha createdId hresult
      have hstep : (monitor P client.timeouts).step b (.restic client.project.id (.backup dir pushedBy)) a =
          some ⟨client.project.id, dir, some id⟩ := by
        show some (⟨client.project.id, dir, (backupResult P client.timeouts a.result).toOption.join⟩ : LastBackup) = _
        rw [hresult]
        rfl
      rw [then_ok, hstep, meets_bind]
      refine (meets_resolveCreatedSnapshot hid _).mono fun r b' hr => ?_
      obtain ⟨hb, hown⟩ := hr
      cases r with
      | error e => trivial
      | ok created =>
          obtain rfl := hown created rfl
          rw [then_ok, hb, meets_bind]
          refine meets_finalizePush.mono fun r b'' _ => ?_
          cases r <;> trivial

theorem meets_push {projectId : JsString} {pushedBy : Option JsString} :
    (push P timeouts projectId pushedBy).Meets (monitor P timeouts) b fun _ _ => True := by
  refine neutral_then (only_query (by exact trivial)) fun row => ?_
  cases row with
  | none => trivial
  | some project =>
      dsimp only
      rw [meets_tryCatch, meets_bind]
      have hpush : (resticSyncPush P timeouts project pushedBy).Meets (monitor P timeouts) b fun _ _ => True := by
        refine neutral_then (Prog.Only.bind (only_query (by exact trivial)) fun _ => only_pure) fun fresh => ?_
        refine neutral_then (only_query (by exact trivial)) fun _ => ?_
        rw [meets_tryFinally]
        refine (neutral_then (only_query (by exact trivial)) fun _ => meets_pushSecrets ⟨fresh, timeouts⟩ pushedBy).mono
          fun r b' _ => ?_
        refine neutral_meets (only_query (by exact trivial)) fun removed => ?_
        cases removed with
        | error e => trivial
        | ok => exact meets_ofExcept.mpr trivial
      refine hpush.mono fun r b' _ => ?_
      cases r <;> trivial

/-- No operation records another snapshot than that of its last backup. -/
theorem meets_serve (op : Operation) : (serve P timeouts op).Meets (monitor P timeouts) b fun _ _ => True := by
  by_cases hpush : ∃ projectId pushedBy, op = .push projectId pushedBy
  · obtain ⟨projectId, pushedBy, rfl⟩ := hpush
    exact meets_push
  · refine (only_issues op).meets_true fun b c hc => ?_
    cases c with
    | transact tx =>
        cases tx with
        | projectsDataUpdateSyncState id snapshotId time lastSync current =>
            cases op with
            | push projectId pushedBy => exact absurd ⟨projectId, pushedBy, rfl⟩ hpush
            | _ => exact hc.elim
        | _ => trivial
    | _ => trivial

end Meets

/-! ## The outline -/

/-- The repository has the snapshot of the last backup. -/
def Kept (restic : Restic R) (b : Option LastBackup) (w : World R) : Prop :=
  ∀ backup ∈ b, ∀ id ∈ backup.createdId, restic.snapshot? w.repository backup.projectId id = some backup.dir

theorem Kept.of_keeps {b : Option LastBackup} {w w' : World R} (h : Kept restic b w) (hkeeps : restic.Keeps w w') :
    Kept restic b w' := fun backup hb id hid => hkeeps _ _ _ (h backup hb id hid)

theorem kept_exec (hf : restic.Faithful) (hreports : restic.Reports P timeouts) {t : Nat} {w w' : World R}
    {b : Option LastBackup} {c : Cmd} {a : c.Answer} (h : Kept restic b w) (hexec : Exec restic t w c a w') :
    Kept restic (step P timeouts b c a) w' := by
  have hold : Kept restic b w' := h.of_keeps (keeps_exec (e := ⟨w, c, a, w'⟩) hf hexec)
  cases c with
  | restic projectId op =>
      cases op with
      | backup dir pushedBy =>
          rintro backup hb id hid
          obtain rfl := Option.some.inj hb
          obtain ⟨r', hrun, rfl⟩ := hexec
          cases hresult : backupResult P timeouts a.result with
          | error e =>
              rw [hresult] at hid
              cases hid
          | ok createdId =>
              rw [hresult] at hid
              obtain ⟨id', rfl, -, hsnapshot⟩ := hreports.backup hrun hresult
              cases hid
              exact hsnapshot
      | _ => exact hold
  | _ => exact hold

theorem exec_expects (hreports : restic.Reports P timeouts) {t : Nat} {w w' : World R} {b : Option LastBackup}
    {c : Cmd} {a : c.Answer} (h : Kept restic b w) (hexec : Exec restic t w c a w') : expects P timeouts b c a := by
  cases c with
  | restic projectId op =>
      obtain ⟨r', hrun, -⟩ := hexec
      cases op with
      | backup dir pushedBy =>
          intro createdId hresult
          obtain ⟨id, hid, hne, -⟩ := hreports.backup hrun hresult
          exact ⟨id, hid, hne⟩
      | snapshots =>
          rintro snapshots hresult dir id rfl
          exact hreports.listing hrun hresult (h _ rfl id rfl)
      | _ => trivial
  | _ => trivial

theorem outline (hf : restic.Faithful) (hreports : restic.Reports P timeouts) :
    Outline (server P timeouts restic admits) (fun _ => monitor P timeouts) none (fun _ => True)
      (fun _ _ b w => Kept restic b w) fun _ _ _ => True where
  body op _ := meets_serve op
  expects _ hkept hexec := exec_expects hreports hkept hexec
  spawn _ _ _ _ backup hb := by cases hb
  inv _ _ _ _ := trivial
  self _ hkept _ hexec := kept_exec hf hreports hkept hexec
  other _ _ _ _ hexec hkept := hkept.of_keeps (keeps_exec (e := ⟨_, _, _, _⟩) hf hexec)
  environment _ henv := by
    refine ⟨trivial, fun _ _ b hkept backup hb id hid => ?_⟩
    obtain ⟨r, hr, rfl⟩ := henv
    exact hf.outside hr (hkept backup hb id hid)

/-- The view has the project and the files of the last backup. -/
theorem backup_viewAfter (trace : List (ServerEvent R)) : (viewAfter trace).backup =
    ((monitor P timeouts).after none trace).map fun backup => (backup.projectId, backup.dir) := by
  induction trace using List.reverseRecOn with
  | nil => rfl
  | append_singleton trace e ih =>
      rw [viewAfter_append, Monitor.after_append]
      obtain ⟨w, c, a, w'⟩ := e
      cases c with
      | restic projectId op =>
          cases op with
          | backup dir pushedBy => rfl
          | restore snapshotId =>
              rw [View.step]
              split_ifs <;> exact ih
          | _ => exact ih
      | projectsGet id | secretsList projectId =>
          cases a with
          | error e => exact ih
          | ok answer =>
              rw [View.step]
              split_ifs <;> exact ih
      | transact tx | acquire lock => cases a <;> exact ih
      | _ => exact ih

end LastBackup

/-! ## Every run -/

section Runs
variable {db : Db} {repository : R} {cfg : Config (World R) Cmd Cmd.Answer Failure Response Operation}

/-- No assumption about what a push records is needed. -/
theorem recordsOwnSnapshot_throughout (hf : restic.Faithful) (hreports : restic.Reports P timeouts)
    (h : (server P timeouts restic admits).Reachable (.initial db repository) cfg) :
    System.Past (fun _ _ earlier e => RecordsOwnSnapshot restic earlier e) cfg := by
  intro t th hth earlier e later hsplit projectId snapshotId time lastSync current n dir hcommitted hbackup
  have hgood := (LastBackup.outline hf hreports).good trivial h
  have hhappened := (hgood.threads t th hth).past earlier e later hsplit
  have hkept := hhappened.assert
  have hallowed := hhappened.allowed
  obtain ⟨w, w', rfl⟩ := committed?_eq_some hcommitted
  obtain ⟨dir', hlast⟩ := hallowed
  have hbacked : (viewAfter earlier).backup =
      ((LastBackup.monitor P timeouts).after none earlier).map fun backup => (backup.projectId, backup.dir) :=
    LastBackup.backup_viewAfter earlier
  rw [hbacked, hlast] at hbackup
  obtain rfl : dir' = dir := (Prod.mk.inj (Option.some.inj hbackup)).2
  exact hkept _ hlast snapshotId rfl

/-- **A push records its own snapshot.** However the operations of the replicas interleave, and whatever other
writers add to the repository, a recorded synchronization names a snapshot that still has the files of the
secrets of the project as the push listed them, and the recorded baseline is the hash of these. -/
theorem push_records_own_snapshot (hf : restic.Faithful) (hreports : restic.Reports P timeouts)
    (h : (server P timeouts restic admits).Reachable (.initial db repository) cfg)
    {th : Thread (World R) Cmd Cmd.Answer Failure Response Operation} (hth : th ∈ cfg.threads)
    {e : ServerEvent R} (he : e ∈ th.trace) {projectId snapshotId time lastSync current : JsString} {n : Nat}
    (hcommitted : committed? e = some (.projectsDataUpdateSyncState projectId snapshotId time lastSync current, n)) :
    ∃ rows dir, Listed th.trace projectId rows ∧ exportSecrets (contents rows) = some dir ∧
      lastSync = rowsHash P rows ∧ restic.snapshot? cfg.world.repository projectId snapshotId = some dir := by
  obtain ⟨t, ht⟩ := List.getElem?_of_mem hth
  obtain ⟨earlier, later, hsplit⟩ := List.append_of_mem he
  have hown := recordsOwnSnapshot_throughout hf hreports h t th ht earlier e later hsplit
  have hlawful : Lawful P timeouts restic admits t th.req th.trace :=
    (((serverOutline P timeouts restic admits).good (inv_initial db repository) h).threads t th ht).past
  have hallowed := (hlawful earlier e later hsplit).allowed
  have hkeeps := (keeps_past hf (inv_initial db repository) h th hth e he).1
  obtain ⟨w, w', rfl⟩ := committed?_eq_some hcommitted
  obtain ⟨rows, dir, hlisted, rfl, hbackup, hexport⟩ := hallowed.pushed
  refine ⟨rows, dir, ?_, hexport, rfl, hkeeps _ _ _ (hown _ _ _ _ _ _ dir hcommitted hbackup)⟩
  rw [hsplit] at hlawful ⊢
  exact hlawful.listed hlisted

end Runs

section Example

/-- A repository with room for two snapshots. -/
abbrev SmallRepository := List Dir

namespace SmallRepository

def ids : SmallRepository → List JsString
  | [] => []
  | [_] => [js "s1"]
  | _ :: _ :: _ => [js "s1", js "s2"]

def snapshot? (r : SmallRepository) (id : JsString) : Option Dir :=
  if id = js "s1" then r[0]? else if id = js "s2" then r[1]? else none

def run (r : SmallRepository) : ResticOp → ResticAnswer × SmallRepository
  | .repositoryCheck | .snapshots => (⟨exited 0 (Snapshots.listingText r.ids) [], []⟩, r)
  | .init => (⟨exited 1 [] (js "Fatal: create repository failed: config file already exists"), []⟩, r)
  | .snapshot id =>
      match r.snapshot? id with
      | some _ => (⟨exited 0 (Snapshots.listingText [id]) [], []⟩, r)
      | none => (⟨exited 1 [] (js "no matching ID found for prefix"), []⟩, r)
  | .backup dir _ =>
      match r with
      | [] => (⟨exited 0 (Snapshots.summaryText (js "s1")) [], []⟩, [dir])
      | [first] => (⟨exited 0 (Snapshots.summaryText (js "s2")) [], []⟩, [first, dir])
      | r => (⟨exited 1 [] (js "no space left on device"), []⟩, r)
  | .restore id =>
      match r.snapshot? id with
      | some dir => (⟨exited 0 [] [], dir.entries⟩, r)
      | none => (⟨exited 1 [] (js "no matching ID found for prefix"), []⟩, r)

def asRestic : Restic SmallRepository where
  run r _ op a r' := (a, r') = run r op
  outside _ _ := False
  snapshot? r _ id := r.snapshot? id

theorem snapshot?_append {r : SmallRepository} {id : JsString} {dir : Dir} (h : r.snapshot? id = some dir)
    (more : SmallRepository) : snapshot? (r ++ more) id = some dir := by
  unfold snapshot? at h ⊢
  have hget : ∀ {i : Nat}, r[i]? = some dir → (r ++ more)[i]? = some dir := by
    intro i hi
    rw [List.getElem?_append_left (List.getElem?_eq_some_iff.mp hi).1, hi]
  split_ifs at h ⊢
  · exact hget h
  · exact hget h

theorem faithful_asRestic : asRestic.Faithful where
  restore {r projectId id a r'} h hcode := by
    have hrun : (a, r') = run r (.restore id) := h
    rw [run] at hrun
    split at hrun
    · rename_i dir hdir
      cases hrun
      exact ⟨dir, hdir, .refl _⟩
    · cases hrun
      exact absurd hcode (by decide)
  keeps {r projectId op a r'} h projectId' id dir hdir := by
    have hrun : (a, r') = run r op := h
    cases op with
    | repositoryCheck | init | snapshots =>
        cases hrun
        exact hdir
    | snapshot id' | restore id' =>
        rw [run] at hrun
        split at hrun <;> cases hrun <;> exact hdir
    | backup files pushedBy =>
        rcases r with _ | ⟨first, _ | ⟨second, rest⟩⟩
        · cases hrun
          exact snapshot?_append hdir [files]
        · cases hrun
          exact snapshot?_append hdir [files]
        · cases hrun
          exact hdir
  outside h := h.elim

theorem reports_asRestic : asRestic.Reports runPlatform exampleTimeouts where
  backup {r projectId dir pushedBy a r' createdId} h hresult := by
    have hrun : (a, r') = run r (.backup dir pushedBy) := h
    rcases r with _ | ⟨first, _ | ⟨second, rest⟩⟩
    · cases hrun
      cases hresult
      exact ⟨js "s1", rfl, by decide, rfl⟩
    · cases hrun
      cases hresult
      exact ⟨js "s2", rfl, by decide, rfl⟩
    · cases hrun
      cases hresult
  listing {r projectId a r' snapshots} h hresult id dir hdir := by
    have hrun : (a, r') = run r .snapshots := h
    cases hrun
    have hids : snapshots = r.ids.map fun id => ⟨id, Snapshots.snapshotTime⟩ := by
      rcases r with _ | ⟨first, _ | ⟨second, rest⟩⟩ <;> exact (Except.ok.inj hresult).symm
    have hid : id ∈ r.ids := by
      have hsnapshot : snapshot? r id = some dir := hdir
      rw [snapshot?] at hsnapshot
      rcases r with _ | ⟨first, _ | ⟨second, rest⟩⟩
      · split_ifs at hsnapshot <;> cases hsnapshot
      · split_ifs at hsnapshot with h1 h2
        · exact h1 ▸ List.mem_singleton.mpr rfl
        · cases hsnapshot
      · split_ifs at hsnapshot with h1 h2
        · exact h1 ▸ List.mem_cons_self
        · exact h2 ▸ List.mem_cons_of_mem _ List.mem_cons_self
    rw [hids]
    exact ⟨_, List.mem_map_of_mem hid, rfl⟩

end SmallRepository

noncomputable def playSmall (moves : List (Move Operation JsString)) (w : World SmallRepository) :
    Option (Config (World SmallRepository) Cmd Cmd.Answer Failure Response Operation) :=
  play (serve runPlatform exampleTimeouts) (fun t _ _ => act SmallRepository.run t) moves ⟨w, []⟩

/-- An edit during the backup does not change what the push has recorded. -/
theorem push_records_own_snapshot_edited :
    ∃ cfg, (server runPlatform exampleTimeouts SmallRepository.asRestic fun _ => True).Reachable
        (.initial neverSyncedDb []) cfg ∧
      ∃ rows dir, exportSecrets (contents rows) = some dir ∧ rowsHash runPlatform rows = hash1 ∧
        SmallRepository.snapshot? cfg.world.repository (js "s1") = some dir := by
  have hplayed : (playSmall editedPushMoves (.initial neverSyncedDb [])).map (fun cfg =>
      cfg.threads[0]?.map fun th => th.trace.filterMap committed?) =
      some (some [(.projectsDataUpdateSyncState (js "p") (js "s1") Snapshots.snapshotTime hash1 hash2, 1)]) := rfl
  obtain ⟨cfg, hplay, hcommits⟩ := Option.map_eq_some_iff.mp hplayed
  obtain ⟨th, hth, hcommits⟩ := Option.map_eq_some_iff.mp hcommits
  obtain ⟨e, he, hcommitted⟩ := List.mem_filterMap.mp (hcommits ▸ List.mem_singleton.mpr rfl)
  have hreachable : (server runPlatform exampleTimeouts SmallRepository.asRestic fun _ => True).Reachable
      (.initial neverSyncedDb []) cfg := play_reachable (fun _ _ _ => rfl) (fun _ _ => trivial) hplay
  obtain ⟨rows, dir, -, hexport, hhash, hsnapshot⟩ := push_records_own_snapshot SmallRepository.faithful_asRestic
    SmallRepository.reports_asRestic hreachable (List.mem_of_getElem? hth) he hcommitted
  exact ⟨cfg, hreachable, rows, dir, hexport, hhash.symm, hsnapshot⟩

end Example

/-! ## Requests that update no key `__proto__` -/

section Runs
variable {db : Db} {repository : R} {cfg : Config (World R) Cmd Cmd.Answer Failure Response Operation}

/-- The request updates no key `__proto__`. -/
def Operation.SparesProto : Operation → Prop
  | .updateSecretKey _ _ body => requestedKey body ≠ protoKey
  | _ => True

theorem StoredFrom.noProto {op : Operation} {v : View} {db : Db} {tx : Transaction} {s : Secret} (hop : op.SparesProto)
    (hdb : ∀ s ∈ db.secrets, protoKey ∉ s.data.keys) (h : StoredFrom P op v db tx s) : protoKey ∉ s.data.keys := by
  cases h with
  | created _ _ hcontent _ =>
      rw [show s.data = s.toSecretContent.data from rfl, hcontent]
      exact protoKey_notMem_normalizedData _
  | @changed s rows id projectId content dateUpdated version hash hs _ hchange =>
      have hold := hdb s hs
      show protoKey ∉ content.data.keys
      cases op with
      | updateSecret projectId secretId body =>
          obtain ⟨-, rfl, -⟩ := hchange
          unfold requestedContent
          dsimp only
          split_ifs
          · exact protoKey_notMem_normalizedData _
          · exact hold
      | updateSecretKey projectId secretId body =>
          obtain ⟨-, value, rfl⟩ := hchange
          intro hmem
          rcases mem_keys_define.mp hmem with hkey | hkey
          · exact hop hkey.symm
          · exact hold hkey
      | _ => exact hchange.elim
  | restored _ hread hmem _ => exact (parsed_readSnapshotSecrets hread hmem).2

theorem noProto_throughout (hadmits : ∀ op, admits op → op.SparesProto)
    (hstart : ∀ s ∈ db.secrets, protoKey ∉ s.data.keys)
    (h : (server P timeouts restic admits).Reachable (.initial db repository) cfg) :
    ∀ th ∈ cfg.threads, ∀ e ∈ th.trace, ∀ s ∈ e.after.db.secrets, protoKey ∉ s.data.keys := by
  have hspares : System.Past (fun _ op _ _ => op.SparesProto) cfg := by
    intro t th hth earlier e later hsplit
    exact hadmits _ (((serverOutline P timeouts restic admits).good (inv_initial db repository) h).threads t th hth).admits
  have hall := stored_throughout (fun hop _ hbefore hstored => hstored.noProto hop hbefore) hstart h hspares
  exact fun th hth e he => (hall.2 th hth e he).2

/-- The edits, the synchronizations and the previews, with no update of a key `__proto__`. -/
def Operation.Plain (op : Operation) : Prop := op.usesProject ∧ op.SparesProto

/-- What the runs of the local changes are assumed to do holds of every run of plain requests. -/
theorem assumed_throughout (hf : restic.Faithful) (hreports : restic.Reports P timeouts)
    (hstart : ∀ s ∈ db.secrets, protoKey ∉ s.data.keys)
    (h : (server P timeouts restic Operation.Plain).Reachable (.initial db repository) cfg) (projectId : JsString) :
    Assumed restic projectId cfg := by
  have hown := recordsOwnSnapshot_throughout hf hreports h
  have hproto := noProto_throughout (fun _ hop => hop.2) hstart h
  intro t th hth earlier e later hsplit
  refine ⟨hown t th hth earlier e later hsplit, fun s hs => ?_⟩
  have he : e ∈ th.trace := by
    rw [hsplit]
    simp
  exact hproto th (List.mem_of_getElem? hth) e he s (Tables.mem_rows.mp hs).1

theorem plain_restricts : (server P timeouts restic Operation.usesProject).Restricts
    (server P timeouts restic Operation.Plain) where
  admits _ hop := hop.1
  body _ := rfl
  exec _ _ _ _ _ _ _ hexec := hexec
  environment _ _ henv := henv

/-- The project of every run of plain requests is tracked. -/
theorem tracks_plain (hparse : ∀ data, P.ParsesBack data) (hf : restic.Faithful) (hreports : restic.Reports P timeouts)
    {projectId : JsString} (hstart : NeverSynced P projectId db) (hproto : ∀ s ∈ db.secrets, protoKey ∉ s.data.keys)
    (h : (server P timeouts restic Operation.Plain).Reachable (.initial db repository) cfg) :
    Tracks P restic projectId cfg.world :=
  tracks_reachable hparse hf hstart (fun s hs => hproto s (Tables.mem_rows.mp hs).1) (plain_restricts.steps h)
    (assumed_throughout hf hreports hproto h projectId)

end Runs

end SecretsManager
