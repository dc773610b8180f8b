import SecretsManager.Restic.SyncService

/-!
# What a push rests on

A push is followed through every sequence of answers, with the results of restic that its two decisions
rest on: whether it may run the backup, and which snapshot it records as its own. Both go wrong where a
failure is read as an answer. A listing that says the repository is missing counts as an empty history,
also after an initialization that was refused because the repository exists; and a listing that lags
behind makes the snapshot of another writer the only new one.
-/

namespace SecretsManager

open Js Interleaving

/-- The commands of a program with their answers. -/
abbrev History : Type := List ((c : Cmd) × c.Answer)

/-- The project row as the push re-read it, whether its `init` exited 0, the results of its listings
before the backup, of the backup, and of its listings since. -/
structure PushLog where
  project : Project
  created : Bool
  listings : List ResticCommandResult
  backup : Option ResticCommandResult
  listingsAfter : List ResticCommandResult

namespace PushLog

def start (project : Project) : PushLog := ⟨project, false, [], none, []⟩

def listed (log : PushLog) (result : ResticCommandResult) : PushLog :=
  if log.backup.isNone then { log with listings := log.listings ++ [result] }
  else { log with listingsAfter := log.listingsAfter ++ [result] }

def step (log : PushLog) : (c : Cmd) → c.Answer → PushLog
  | .projectsGet _, .ok fresh => { log with project := fresh.getD log.project }
  | .restic _ .init, a => { log with created := log.created || a.result.code = .number 0 }
  | .restic _ .snapshots, a => log.listed a.result
  | .restic _ (.backup _ _), a => { log with backup := some a.result }
  | _, _ => log

def after (log : PushLog) (h : History) : PushLog := h.foldl (fun log e => log.step e.1 e.2) log

section Platform
variable (P : Platform) (timeouts : ResticTimeouts)

/-- The repository was created by this push, or a listing exited 0 and its latest snapshot is absent or
the last synchronized one. -/
def ConflictChecked (log : PushLog) : Prop :=
  log.created = true ∨ ∃ result ∈ log.listings, result.code = .number 0 ∧
    ∃ snapshots, parseSnapshotsOutput P result.stdout = .ok snapshots ∧
      ∀ latest ∈ latestSnapshot P snapshots, latest.id = log.project.lastSyncSnapshotId

/-- No failed listing was taken for that of a missing repository, unless this push has created it. -/
def NoListingFailed (log : PushLog) : Prop :=
  log.created = true ∨ ∀ result ∈ log.listings, result.code = .number 0

/-- The id in the output of the backup. -/
def createdId (log : PushLog) : Option JsString :=
  log.backup.bind fun result => parseBackupSnapshotId P result.stdout

def knownIds (log : PushLog) : List JsString :=
  log.listings.flatMap fun result =>
    ((snapshotsResult P timeouts result).toOption.getD []).map ResticSnapshot.id

end Platform

end PushLog

/-- The listing lacks the created snapshot, and its only unknown one is not the push's own. -/
def Misleading (own : JsString) (createdId : Option JsString) (knownIds : List JsString)
    (snapshots : List ResticSnapshot) : Prop :=
  (∀ id ∈ createdId, id ≠ [] → ∀ s ∈ snapshots, s.id ≠ id) ∧
    ∃ s, snapshots.filter (fun s => s.id ∉ knownIds) = [s] ∧ s.id ≠ own

/-- No listing since the backup misleads. -/
def PushLog.NoneMisleading (P : Platform) (timeouts : ResticTimeouts) (own : JsString)
    (createdId : Option JsString) (knownIds : List JsString) (log : PushLog) : Prop :=
  ∀ result ∈ log.listingsAfter, ∀ snapshots, snapshotsResult P timeouts result = .ok snapshots →
    ¬ Misleading own createdId knownIds snapshots

/-! ## Following a push -/

section Platform
variable (P : Platform) (timeouts : ResticTimeouts) (own : JsString)

/-- What is shown of the two decisions where they take effect. -/
def pushAllows (log : PushLog) : Cmd → Prop
  | .restic _ (.backup _ _) => log.ConflictChecked P ↔ log.NoListingFailed
  | .transact (.projectsDataUpdateSyncState _ id _ _ _) =>
      (∀ c ∈ log.createdId P, c = own) →
        (id = own ↔ log.NoneMisleading P timeouts own (log.createdId P) (log.knownIds P timeouts))
  | _ => True

def pushMonitor : Monitor Cmd Cmd.Answer PushLog := 
  ⟨PushLog.step, pushAllows P timeouts own, fun _ _ _ => True⟩

/-- The commands that no decision rests on. -/
def Quiet : Cmd → Prop
  | .restic _ .init | .restic _ .snapshots | .restic _ (.backup _ _) | .projectsGet _ | .transact _ => False
  | _ => True

variable {P timeouts own} {log : PushLog} {client : ResticClient}

theorem quiet_pushMonitor {c : Cmd} (hc : Quiet c) :
    (pushMonitor P timeouts own).allows log c ∧ ∀ a, (pushMonitor P timeouts own).step log c a = log := by
  cases c with
  | restic projectId op => cases op <;> first | exact hc.elim | exact ⟨trivial, fun _ => rfl⟩
  | projectsGet id => exact hc.elim
  | transact tx => exact hc.elim
  | _ => exact ⟨trivial, fun _ => rfl⟩

theorem Quiet.meets {α : Type} {op : Op α} (h : op.Only Quiet) {Q : Except Failure α → PushLog → Prop}
    (hQ : ∀ r, Q r log) : op.Meets (pushMonitor P timeouts own) log Q :=
  h.meets (fun _ hc => quiet_pushMonitor hc) hQ

theorem quiet_fs (op : FsOp) : (Op.fs op).Only Quiet := only_query trivial

theorem quiet_secretsList (projectId : JsString) : (secretsDataListForProject projectId).Only Quiet :=
  only_query trivial

theorem quiet_exportSecret (dir : Dir) (secret : Secret) : (exportSecret dir secret).Only Quiet := by
  refine Prog.Only.bind (quiet_fs _) fun _ => ?_
  cases writePrivateJson dir (fileName secret.name) secret.data <;> trivial

theorem quiet_repoInitialized : (client.repoInitialized P).Only Quiet := only_query trivial

theorem meets_init {Q : Except Failure Unit → PushLog → Prop}
    (hQ : ∀ r created, (log.created = true → created = true) → Q r { log with created := created }) :
    (client.init P).Meets (pushMonitor P timeouts own) log Q := by
  rw [ResticClient.init, meets_bind, ResticClient.run, meets_lift]
  refine ⟨trivial, fun a _ => ?_⟩
  rw [then_ok, meets_ofExcept]
  exact hQ _ _ fun h => by rw [h]; rfl

theorem meets_snapshots {Q : Except Failure (List ResticSnapshot) → PushLog → Prop} :
    (client.snapshots P).Meets (pushMonitor P timeouts own) log Q ↔
      ∀ result, Q (snapshotsResult P client.timeouts result) (log.listed result) := by
  simp only [ResticClient.snapshots, ResticClient.run, meets_bind, meets_lift, then_ok, meets_ofExcept]
  constructor
  · intro h result
    exact h.2 ⟨result, []⟩ trivial
  · intro h
    exact ⟨trivial, fun a _ => h a.result⟩

/-! ## The created snapshot -/

/-- A lookup by id changes nothing and gives a snapshot with that id. -/
theorem meets_lookupCreated {createdId : JsString} {attempts : Nat}
    {Q : Except Failure (Option ResticSnapshot) → PushLog → Prop}
    (hQ : ∀ r, (∀ s, r = .ok (some s) → s.id = createdId) → Q r log) :
    (lookupCreated P client createdId attempts).Meets (pushMonitor P timeouts own) log Q := by
  induction attempts with
  | zero => exact hQ _ fun s hs => by cases hs
  | succ attempts ih =>
      rw [lookupCreated, meets_bind, ResticClient.snapshot, meets_bind, ResticClient.run, meets_lift]
      refine ⟨trivial, fun a _ => ?_⟩
      rw [then_ok, meets_ofExcept]
      cases hresult : snapshotResult P client.timeouts createdId a.result with
      | error e => exact hQ _ fun s hs => by cases hs
      | ok found =>
          cases found with
          | none => exact ih
          | some s =>
              refine hQ _ fun s' hs' => ?_
              obtain rfl : s = s' := by simpa using hs'
              exact snapshotResult_id hresult

theorem noneMisleading_nil {createdId : Option JsString} {knownIds : List JsString}
    (h : log.listingsAfter = []) : log.NoneMisleading P timeouts own createdId knownIds := by
  intro result hresult
  rw [h] at hresult
  cases hresult

theorem noneMisleading_singleton {createdId : Option JsString} {knownIds : List JsString}
    {result : ResticCommandResult} (h : log.listingsAfter = [result]) :
    log.NoneMisleading P timeouts own createdId knownIds ↔
      ∀ snapshots, snapshotsResult P timeouts result = .ok snapshots →
        ¬ Misleading own createdId knownIds snapshots := by
  rw [PushLog.NoneMisleading, h]
  simp

/-- What the resolution returns is the push's own snapshot if and only if no listing misleads. -/
def OwnResult (P : Platform) (timeouts : ResticTimeouts) (own : JsString) (createdId : Option JsString)
    (knownIds : List JsString) (r : Except Failure ResticSnapshot) (log : PushLog) : Prop :=
  (∀ s, r = .ok s → s.id = own) ↔ log.NoneMisleading P timeouts own createdId knownIds

/-- The difference with the earlier listing, when the created id is not in the listing. -/
theorem meets_onlyNewSnapshot {createdId : Option JsString} {knownIds : List JsString}
    {result : ResticCommandResult} {snapshots : List ResticSnapshot} (h : log.listingsAfter = [result])
    (hresult : snapshotsResult P timeouts result = .ok snapshots)
    (hmissing : ∀ id ∈ createdId, id ≠ [] → ∀ s ∈ snapshots, s.id ≠ id) :
    (onlyNewSnapshot knownIds snapshots).Meets (pushMonitor P timeouts own) log
      (OwnResult P timeouts own createdId knownIds) := by
  have hiff : log.NoneMisleading P timeouts own createdId knownIds ↔
      ∀ s, snapshots.filter (fun s => s.id ∉ knownIds) = [s] → s.id = own := by
    rw [noneMisleading_singleton h, hresult]
    simp only [Except.ok.injEq, forall_eq', Misleading, not_and, not_exists, not_not]
    exact ⟨fun h => h hmissing, fun h _ => h⟩
  unfold onlyNewSnapshot
  split
  · rename_i s hs
    refine Iff.trans ?_ hiff.symm
    rw [hs]
    simp
  · rename_i hne
    refine Iff.trans ?_ hiff.symm
    refine ⟨fun _ s hs => absurd hs (hne s), fun _ s hs => ?_⟩
    cases hs

theorem meets_resolveCreatedSnapshot {createdId : Option JsString} {knownIds : List JsString}
    (hbackup : log.backup.isSome) (hafter : log.listingsAfter = []) :
    (resolveCreatedSnapshot P client createdId knownIds).Meets (pushMonitor P client.timeouts own) log
      fun r log' => ((∀ c ∈ createdId, c = own) → OwnResult P client.timeouts own createdId knownIds r log') ∧
        ∃ results, log' = { log with listingsAfter := results } := by
  have hself : ∃ results, log = { log with listingsAfter := results } := ⟨_, rfl⟩
  have hlisted : ∀ result, log.listed result = { log with listingsAfter := [result] } := by
    intro result
    rw [PushLog.listed, if_neg (by simp [Option.isSome_iff_ne_none.mp hbackup]), hafter]
    rfl
  -- a listing that fails, and one that is compared with the earlier one
  have hlisting : ∀ {result : ResticCommandResult} {e : Failure},
      snapshotsResult P client.timeouts result = .error e →
      OwnResult P client.timeouts own createdId knownIds (.error e) (log.listed result) := by
    intro result e hresult
    refine ⟨fun _ => ?_, fun _ s hs => by cases hs⟩
    rw [hlisted, noneMisleading_singleton rfl, hresult]
    intro snapshots hs
    cases hs
  have hnew : ∀ {result : ResticCommandResult} {snapshots : List ResticSnapshot},
      snapshotsResult P client.timeouts result = .ok snapshots →
      (∀ id ∈ createdId, id ≠ [] → ∀ s ∈ snapshots, s.id ≠ id) →
      (onlyNewSnapshot knownIds snapshots).Meets (pushMonitor P client.timeouts own) (log.listed result)
        fun r log' => ((∀ c ∈ createdId, c = own) →
            OwnResult P client.timeouts own createdId knownIds r log') ∧
          ∃ results, log' = { log with listingsAfter := results } := by
    intro result snapshots hresult hmissing
    have hmeets : (onlyNewSnapshot knownIds snapshots).Meets (pushMonitor P client.timeouts own)
        (log.listed result) (OwnResult P client.timeouts own createdId knownIds) :=
      meets_onlyNewSnapshot (by rw [hlisted]) hresult hmissing
    have hlog : ∃ results, log.listed result = { log with listingsAfter := results } :=
      ⟨_, hlisted result⟩
    unfold onlyNewSnapshot at hmeets ⊢
    split at hmeets
    · exact ⟨fun _ => hmeets, hlog⟩
    · exact ⟨fun _ => hmeets, hlog⟩
  unfold resolveCreatedSnapshot
  cases hcreated : createdId.filter fun id => id ≠ [] with
  | none =>
      simp only [meets_bind, meets_snapshots]
      intro result
      cases hresult : snapshotsResult P client.timeouts result with
      | error e => exact ⟨fun _ => hlisting hresult, _, hlisted result⟩
      | ok snapshots =>
          refine hnew hresult fun id hid hne => ?_
          have hnone := Option.filter_eq_none_iff.mp hcreated id hid
          simp [hne] at hnone
  | some c =>
      obtain ⟨hc, hne⟩ := Option.filter_eq_some_iff.mp hcreated
      simp only [meets_bind]
      refine meets_lookupCreated fun r hr => ?_
      cases r with
      | error e => exact ⟨fun _ => ⟨fun _ => noneMisleading_nil hafter, fun _ s hs => by cases hs⟩, hself⟩
      | ok found =>
          cases found with
          | some s =>
              refine ⟨fun hown => ⟨fun _ => noneMisleading_nil hafter, fun _ s' hs' => ?_⟩, hself⟩
              obtain rfl : s = s' := by simpa using hs'
              rw [hr s rfl, hown c hc]
          | none =>
              simp only [then_ok, meets_bind, meets_snapshots]
              intro result
              cases hresult : snapshotsResult P client.timeouts result with
              | error e => exact ⟨fun _ => hlisting hresult, _, hlisted result⟩
              | ok snapshots =>
                  rw [then_ok]
                  cases hfind : snapshots.find? fun snapshot => snapshot.id = c with
                  | none =>
                      refine hnew hresult fun id hid _ s hs hsid => ?_
                      have hidc : id = c := Option.mem_unique hid hc
                      have := List.find?_eq_none.mp hfind s hs
                      simp [hsid, hidc] at this
                  | some exact =>
                      have hexact : exact.id = c := by simpa using List.find?_some hfind
                      refine ⟨fun hown => ⟨fun _ => ?_, fun _ s hs => ?_⟩, _, hlisted result⟩
                      · rw [hlisted, noneMisleading_singleton rfl, hresult]
                        rintro _ ⟨⟩ ⟨hmissing, -⟩
                        exact hmissing c hc (by simpa using hne) exact (List.mem_of_find?_eq_some hfind) hexact
                      · obtain rfl : exact = s := by simpa using hs
                        rw [hexact, hown c hc]

/-! ## The conflict check -/

/-- When the conflict check of the listing has passed, the backup rests on a real check unless the
listing failed in a repository that this push has not created. -/
theorem conflictChecked_iff {result : ResticCommandResult} {snapshots : List ResticSnapshot}
    (hlistings : log.listings = [result]) (hresult : snapshotsResult P timeouts result = .ok snapshots)
    (hcheck : ∀ latest ∈ latestSnapshot P snapshots, latest.id = log.project.lastSyncSnapshotId) :
    log.ConflictChecked P ↔ log.NoListingFailed := by
  simp only [PushLog.ConflictChecked, PushLog.NoListingFailed, hlistings, List.mem_singleton, exists_eq_left,
    forall_eq]
  refine or_congr_right ⟨And.left, fun hcode => ⟨hcode, ?_⟩⟩
  rcases snapshotsResult_ok hresult with ⟨-, hparse⟩ | ⟨hfailed, -⟩
  · exact ⟨snapshots, hparse, hcheck⟩
  · exact absurd hcode hfailed

/-! ## The push -/

theorem meets_projectWriteLocksRun {α : Type} {projectId : JsString} {task : Op α}
    (h : task.Meets (pushMonitor P timeouts own) log fun _ _ => True) :
    (projectWriteLocksRun projectId task).Meets (pushMonitor P timeouts own) log fun _ _ => True := by
  rw [projectWriteLocksRun, dbUtilsWithLock, meets_bind, meets_lift]
  refine ⟨trivial, fun held _ => ?_⟩
  rw [then_ok, meets_bind, meets_ofExcept]
  cases held with
  | error e => trivial
  | ok =>
      rw [then_ok, meets_tryFinally]
      refine h.mono fun r log' _ => ?_
      refine (meets_lift).mpr ⟨trivial, fun _ _ => ?_⟩
      rw [then_ok, meets_ofExcept]
      trivial

theorem logs_finalizePushSection {projectId observed hash : JsString} {created : ResticSnapshot}
    (h : (∀ c ∈ log.createdId P, c = own) → (created.id = own ↔
      log.NoneMisleading P timeouts own (log.createdId P) (log.knownIds P timeouts))) :
    (finalizePushSection P projectId observed hash created).Meets (pushMonitor P timeouts own) log
      fun _ _ => True := by
  rw [finalizePushSection, projectsDataGet, meets_bind, meets_bind, meets_lift]
  refine ⟨trivial, fun row _ => ?_⟩
  rw [then_ok, meets_ofExcept]
  cases row with
  | error e => trivial
  | ok fresh =>
      cases fresh with
      | none => trivial
      | some fresh =>
          simp only [then_ok]
          split_ifs
          · trivial
          · rw [meets_bind]
            refine Quiet.meets (quiet_secretsList _) fun r => ?_
            cases r with
            | error e => trivial
            | ok secrets =>
                rw [then_ok, meets_bind, Op.transact, meets_bind, meets_lift]
                -- the section has only changed the project row of the log
                refine ⟨h, fun a _ => ?_⟩
                rw [then_ok, meets_ofExcept]
                cases a <;> trivial

theorem meets_prepareRepository {Q : Except Failure (List ResticSnapshot) → PushLog → Prop}
    (hok : ∀ created result, Q (snapshotsResult P client.timeouts result)
      (PushLog.listed { log with created := created } result))
    (herror : ∀ e created, Q (.error e) { log with created := created }) :
    (prepareRepository P client).Meets (pushMonitor P timeouts own) log Q := by
  have hsnapshots : ∀ created, (client.snapshots P).Meets (pushMonitor P timeouts own)
      { log with created := created } Q := fun created => meets_snapshots.mpr (hok created)
  rw [prepareRepository, meets_bind]
  refine Quiet.meets quiet_repoInitialized fun r => ?_
  cases r with
  | error e => exact herror e log.created
  | ok initialized =>
      rw [then_ok]
      split_ifs
      · rw [meets_bind]
        refine meets_init fun r created _ => ?_
        cases r with
        | error e => exact herror e created
        | ok => exact hsnapshots created
      · exact hsnapshots log.created

theorem meets_pushSecrets (client : ResticClient) (pushedBy : Option JsString) :
    (pushSecrets P client pushedBy).Meets (pushMonitor P client.timeouts own) (.start client.project)
      fun _ _ => True := by
  rw [pushSecrets, meets_bind]
  refine Quiet.meets (quiet_secretsList _) fun r => ?_
  cases r with
  | error e => trivial
  | ok secrets =>
      rw [then_ok, meets_bind]
      refine Quiet.meets (Prog.Only.foldlM quiet_exportSecret _ _) fun r => ?_
      cases r with
      | error e => trivial
      | ok dir =>
          rw [then_ok, meets_bind]
          refine meets_prepareRepository (fun created' result => ?_) fun e created' => trivial
          cases hresult : snapshotsResult P client.timeouts result with
          | error e => trivial
          | ok snapshots =>
              rw [then_ok, meets_bind]
              refine meets_checkNoConflict P (fun hcheck => ?_) fun e => trivial
              rw [then_ok, meets_bind, ResticClient.backup, meets_bind, ResticClient.run, meets_lift]
              refine ⟨conflictChecked_iff rfl hresult hcheck, fun a _ => ?_⟩
              rw [then_ok, meets_ofExcept]
              cases hbackup : backupResult P client.timeouts a.result with
              | error e => trivial
              | ok createdId =>
                  rw [then_ok, meets_bind]
                  refine (meets_resolveCreatedSnapshot rfl rfl).mono fun r log' hr => ?_
                  obtain ⟨hown, results, rfl⟩ := hr
                  cases r with
                  | error e => trivial
                  | ok created =>
                      rw [then_ok, meets_bind]
                      refine (meets_projectWriteLocksRun (logs_finalizePushSection ?_)).mono ?_
                      · rw [backupResult_ok hbackup] at hown
                        intro h
                        have hiff := hown h
                        simp only [OwnResult, Except.ok.injEq, forall_eq'] at hiff
                        have hknown : PushLog.knownIds P client.timeouts
                            { project := client.project, created := created', listings := [result],
                              backup := some a.result, listingsAfter := results } =
                            snapshots.map ResticSnapshot.id := by
                          simp [PushLog.knownIds, hresult, Except.toOption]
                        rw [← hknown] at hiff
                        exact hiff
                      · intro r log' _
                        cases r <;> trivial

theorem logs_resticSyncPushUnlocked (project : Project) (pushedBy : Option JsString) :
    (resticSyncPushUnlocked P timeouts project pushedBy).Meets (pushMonitor P timeouts own)
      (.start project) fun _ _ => True := by
  rw [resticSyncPushUnlocked, meets_bind, rereadProject, projectsDataGet, meets_bind, meets_bind, meets_lift]
  refine ⟨trivial, fun row _ => ?_⟩
  rw [then_ok, meets_ofExcept]
  cases row with
  | error e => trivial
  | ok fresh =>
      have hlog : (pushMonitor P timeouts own).step (.start project) (.projectsGet project.id) (.ok fresh) =
          .start (fresh.getD project) := rfl
      rw [then_ok, meets_pure, then_ok, hlog, withWorkDir, meets_bind]
      refine Quiet.meets (quiet_fs _) fun r => ?_
      cases r with
      | error e => trivial
      | ok =>
          rw [then_ok, meets_tryFinally, meets_bind]
          refine Quiet.meets (quiet_fs _) fun r => ?_
          have hremove : ∀ r log, Finally (pushMonitor P timeouts own) Op.removeWorkDir
              (fun (_ : Except Failure PushResult) _ => True) r log := by
            intro r log
            refine Quiet.meets (quiet_fs _) fun r' => ?_
            cases r' with
            | error e => trivial
            | ok => exact meets_ofExcept.mpr trivial
          cases r with
          | error e => exact hremove _ _
          | ok =>
              rw [then_ok]
              have hpush : (pushSecrets P ⟨fresh.getD project, timeouts⟩ pushedBy).Meets
                  (pushMonitor P timeouts own) (.start (fresh.getD project)) fun _ _ => True :=
                meets_pushSecrets ⟨fresh.getD project, timeouts⟩ pushedBy
              exact hpush.mono fun r log _ => hremove r log

/-- **A push runs its backup after a real conflict check, or in a repository that it has created, if and
only if no failed listing was taken for that of a missing repository.** -/
theorem backup_conflictChecked_iff {project : Project} {pushedBy user : Option JsString} {h : History}
    {projectId : JsString} {dir : Dir} {next : ResticAnswer → Op PushResult}
    (hf : Prog.Follows (resticSyncPushUnlocked P timeouts project pushedBy) h
      (.call (.restic projectId (.backup dir user)) next)) :
    ((PushLog.start project).after h).ConflictChecked P ↔
      ((PushLog.start project).after h).NoListingFailed := by
  have hmeets : (resticSyncPushUnlocked P timeouts project pushedBy).Meets (pushMonitor P timeouts [])
      (.start project) fun _ _ => True := logs_resticSyncPushUnlocked project pushedBy
  exact (hmeets.follows (fun _ _ _ => trivial) hf).1

/-- **The created snapshot is resolved to the push's own, or not at all, if and only if no listing since
the backup misleads; and this is when a push records its own snapshot.** -/
theorem createdSnapshot_own_iff (P : Platform) (timeouts : ResticTimeouts) (own : JsString) :
    (∀ (client : ResticClient) (createdId : Option JsString) (knownIds : List JsString) (log : PushLog)
        (h : History) (p : Op ResticSnapshot) (r : Except Failure ResticSnapshot),
        (∀ c ∈ createdId, c = own) → log.backup.isSome → log.listingsAfter = [] →
        Prog.Follows (resolveCreatedSnapshot P client createdId knownIds) h p → p.result? = some r →
        ((∀ s, r = .ok s → s.id = own) ↔
          (log.after h).NoneMisleading P client.timeouts own createdId knownIds)) ∧
      ∀ (project : Project) (pushedBy : Option JsString) (h : History) (projectId id time hash current : JsString)
        (next : Except Failure Nat → Op PushResult),
        (∀ c ∈ ((PushLog.start project).after h).createdId P, c = own) →
        Prog.Follows (resticSyncPushUnlocked P timeouts project pushedBy) h
          (.call (.transact (.projectsDataUpdateSyncState projectId id time hash current)) next) →
        (id = own ↔
          ((PushLog.start project).after h).NoneMisleading P timeouts own
            (((PushLog.start project).after h).createdId P)
            (((PushLog.start project).after h).knownIds P timeouts)) := by
  constructor
  · intro client createdId knownIds log h p r hown hbackup hafter hf hr
    have hbody : (resolveCreatedSnapshot P client createdId knownIds).Meets (pushMonitor P client.timeouts own) log
        fun r log' => ((∀ c ∈ createdId, c = own) → OwnResult P client.timeouts own createdId knownIds r log') ∧
          ∃ results, log' = { log with listingsAfter := results } :=
      meets_resolveCreatedSnapshot hbackup hafter
    have hmeets := hbody.follows (fun _ _ _ => trivial) hf
    cases p with
    | ret s =>
        obtain rfl := Option.some.inj hr
        exact hmeets.1 hown
    | fail e =>
        obtain rfl := Option.some.inj hr
        exact hmeets.1 hown
    | call c next => cases hr
  · intro project pushedBy h projectId id time hash current next hown hf
    have hmeets : (resticSyncPushUnlocked P timeouts project pushedBy).Meets (pushMonitor P timeouts own)
        (.start project) fun _ _ => True := logs_resticSyncPushUnlocked project pushedBy
    exact (hmeets.follows (fun _ _ _ => trivial) hf).1 hown

end Platform

section Example

/-- A process that ended with an exit code and an output. -/
def exited (code : Int) (stdout stderr : JsString) : ResticCommandResult :=
  ⟨.number code, stdout, stderr, false, false, false⟩

/-- The answers of a database with one project and no secrets, and of a process with one result. -/
def answerOf (project : Project) (result : ResticOp → ResticCommandResult) : (c : Cmd) → c.Answer
  | .projectsGet _ | .projectsGetByName _ => .ok (some project)
  | .projectsList | .secretsList _ => .ok []
  | .secretsGet _ => .ok none
  | .transact _ => .ok 1
  | .acquire _ | .fs _ => .ok ()
  | .release _ => ()
  | .uuid | .now => []
  | .restic _ op => ⟨result op, []⟩

/-- A repository that two of three runs do not find. -/
def unreachable : ResticOp → ResticCommandResult
  | .init => exited 1 [] (js "Fatal: create repository failed: config file already exists")
  | _ => exited 10 [] (js "Fatal: repository does not exist")

def exampleTimeouts : ResticTimeouts := ⟨30000, 60000, 600000, 600000⟩

/-- A project that was synchronized with the snapshot `s1`. -/
def exampleProject : Project where
  id := js "p"
  name := js "demo"
  description := []
  s3Endpoint := js "s3.example.org"
  s3Bucket := js "secrets"
  repoPrefix := js "demo"
  s3Region := []
  s3BucketLookup := js "dns"
  s3AccessKeyId := js "key"
  s3SecretAccessKey := js "secret"
  resticPassword := js "password"
  dateCreated := js "2024-01-01T00:00:00.000Z"
  lastSyncSnapshotId := js "s1"
  lastSyncSnapshotTime := js "2024-01-02T00:00:00Z"
  lastSyncContentHash := []
  currentContentHash := []

theorem valid_exampleProject : Tables.Valid ⟨[exampleProject], []⟩ := by decide

/-- A push that runs its backup without having seen the history of the repository. -/
theorem not_backup_conflictChecked :
    ¬ ∀ (P : Platform) (timeouts : ResticTimeouts) (project : Project) (pushedBy user : Option JsString)
      (h : History) (projectId : JsString) (dir : Dir) (next : ResticAnswer → Op PushResult),
      Prog.Follows (resticSyncPushUnlocked P timeouts project pushedBy) h
        (.call (.restic projectId (.backup dir user)) next) →
      ((PushLog.start project).after h).ConflictChecked P := by
  intro hall
  let push := resticSyncPushUnlocked (.ofDigests []) exampleTimeouts exampleProject none
  have hcall : ∃ next, (push.feed (answerOf exampleProject unreachable) 7).2 =
      .call (.restic exampleProject.id (.backup Dir.empty none)) next := ⟨_, rfl⟩
  obtain ⟨next, hnext⟩ := hcall
  have hchecked := hall _ _ _ _ _ _ _ _ next (hnext ▸ Prog.follows_feed (answerOf exampleProject unreachable) 7 push)
  rcases hchecked with hcreated | ⟨result, hresult, hcode, -⟩
  · revert hcreated
    decide
  · have hlistings : ((PushLog.start exampleProject).after (push.feed (answerOf exampleProject unreachable) 7).1).listings =
        [unreachable .snapshots] := rfl
    rw [hlistings, List.mem_singleton] at hresult
    rw [hresult] at hcode
    revert hcode
    decide

/-- The same push in a repository that is really missing. -/
def missing : ResticOp → ResticCommandResult
  | .init => exited 0 (js "created restic repository") []
  | _ => exited 10 [] (js "Fatal: repository does not exist")

theorem backup_conflictChecked_iff_missing :
    ∃ h, ((PushLog.start exampleProject).after h).created = true ∧
      (((PushLog.start exampleProject).after h).ConflictChecked (.ofDigests []) ↔
        ((PushLog.start exampleProject).after h).NoListingFailed) := by
  let push := resticSyncPushUnlocked (.ofDigests []) exampleTimeouts exampleProject none
  have hcall : ∃ next, (push.feed (answerOf exampleProject missing) 7).2 =
      .call (.restic exampleProject.id (.backup Dir.empty none)) next := ⟨_, rfl⟩
  obtain ⟨next, hnext⟩ := hcall
  exact ⟨(push.feed (answerOf exampleProject missing) 7).1, by decide,
    backup_conflictChecked_iff (hnext ▸ Prog.follows_feed (answerOf exampleProject missing) 7 push)⟩

/-! ### A listing that lags behind -/

/-- The listing of a repository with one snapshot. -/
def listingOf (id : String) : JsString :=
  js "[\x7b\"id\":\"" ++ js id ++ js "\",\"time\":\"2024-01-03T00:00:00Z\"\x7d]"

/-- What `JSON.parse` makes of it. -/
def listingJson (id : String) : Json :=
  .array [some
    { entries := [(js "id", .str (js id)), (js "time", .str (js "2024-01-03T00:00:00Z"))]
      distinct := by
        show [js "id", js "time"].Nodup
        decide }]

/-- The last line of the output of a backup that created the snapshot `own`. -/
def summaryLine : JsString := js "\x7b\"message_type\":\"summary\",\"snapshot_id\":\"own\"\x7d"

def summaryJson : Json :=
  .object ⟨[(js "message_type", .str (js "summary")), (js "snapshot_id", .str (js "own"))], by decide⟩

noncomputable def listingPlatform : Platform :=
  (Platform.ofDigests []).withDocuments
    [(listingOf "s1", listingJson "s1"), (listingOf "own", listingJson "own"),
      (listingOf "other", listingJson "other"), (summaryLine, summaryJson)]

/-- A repository with the last synchronized snapshot, where a backup creates `own`. -/
def consistent : ResticOp → ResticCommandResult
  | .snapshot _ => exited 0 (listingOf "own") []
  | .backup _ _ => exited 0 summaryLine []
  | _ => exited 0 (listingOf "s1") []

noncomputable def consistentPush : Op PushResult :=
  resticSyncPushUnlocked listingPlatform exampleTimeouts exampleProject none

noncomputable def consistentLog : PushLog :=
  (PushLog.start exampleProject).after (consistentPush.feed (answerOf exampleProject consistent) 11).1

/-- The resolution of a lookup that finds the snapshot. -/
noncomputable def consistentResolve : Op ResticSnapshot :=
  resolveCreatedSnapshot listingPlatform ⟨exampleProject, exampleTimeouts⟩ (some (js "own")) [js "s1"]

theorem createdSnapshot_own_iff_consistent :
    consistentLog.NoneMisleading listingPlatform exampleTimeouts (js "own")
        (consistentLog.createdId listingPlatform) (consistentLog.knownIds listingPlatform exampleTimeouts) ∧
      ((∀ s, Except.ok (⟨js "own", js "2024-01-03T00:00:00Z"⟩ : ResticSnapshot) =
          (Except.ok s : Except Failure ResticSnapshot) → s.id = js "own") ↔
        (consistentLog.after (consistentResolve.feed (answerOf exampleProject consistent) 1).1).NoneMisleading
          listingPlatform exampleTimeouts (js "own") (some (js "own")) [js "s1"]) := by
  have hrecorded : ∃ next, (consistentPush.feed (answerOf exampleProject consistent) 11).2 =
      .call (.transact (.projectsDataUpdateSyncState (js "p") (js "own") (js "2024-01-03T00:00:00Z")
        (rowsHash listingPlatform []) (rowsHash listingPlatform []))) next := ⟨_, rfl⟩
  obtain ⟨next, hnext⟩ := hrecorded
  have hfollows := Prog.follows_feed (answerOf exampleProject consistent) 11 consistentPush
  rw [hnext] at hfollows
  have hcreated : consistentLog.createdId listingPlatform = some (js "own") := rfl
  have hown : ∀ c ∈ consistentLog.createdId listingPlatform, c = js "own" := by
    intro c hc
    rw [hcreated] at hc
    exact (Option.some.inj hc).symm
  constructor
  · exact ((createdSnapshot_own_iff listingPlatform exampleTimeouts (js "own")).2
      exampleProject none _ _ _ _ _ _ next hown hfollows).mp rfl
  · exact (createdSnapshot_own_iff listingPlatform exampleTimeouts (js "own")).1
      ⟨exampleProject, exampleTimeouts⟩ _ _ consistentLog _ _ _ (by simp) rfl rfl
      (Prog.follows_feed _ 1 consistentResolve) rfl

/-- A repository whose listing shows the snapshot of another writer and not yet the created one. -/
def lagging : ResticOp → ResticCommandResult
  | .snapshots => exited 0 (listingOf "other") []
  | _ => exited 1 [] (js "no matching ID found for prefix")

/-- With the created id at hand, the resolution returns the snapshot of another writer. -/
theorem not_createdSnapshot_own :
    ¬ ∀ (P : Platform) (client : ResticClient) (createdId : Option JsString) (knownIds : List JsString)
      (own : JsString) (h : History) (p : Op ResticSnapshot) (s : ResticSnapshot),
      (∀ c ∈ createdId, c = own) →
      Prog.Follows (resolveCreatedSnapshot P client createdId knownIds) h p → p.result? = some (.ok s) →
      s.id = own := by
  intro hall
  let resolve := resolveCreatedSnapshot listingPlatform ⟨exampleProject, exampleTimeouts⟩ (some (js "own")) []
  have hresult : (resolve.feed (answerOf exampleProject lagging) 4).2.result? =
      some (.ok ⟨js "other", js "2024-01-03T00:00:00Z"⟩) := rfl
  have hown := hall _ _ _ _ (js "own") _ _ _ (by simp)
    (Prog.follows_feed (answerOf exampleProject lagging) 4 resolve) hresult
  revert hown
  decide

end Example

end SecretsManager
