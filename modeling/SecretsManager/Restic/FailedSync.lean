import SecretsManager.Restic.CompareAndSwap
import SecretsManager.Statements

/-!
# Failed synchronizations

A pull, a restore, a discard or a push writes to the database once at most, and after that write only the
removal of its working directory can fail. The removal is tried with any result. So a synchronization that
fails, at whatever run of restic, check, query or statement, has left the database alone in all its steps,
unless the answer to its write was lost or the directory could not be removed.
-/

namespace SecretsManager

open Js Interleaving

/-- The synchronizations that write. -/
def Operation.synchronizes : Operation → Bool
  | .push _ _ | .pull _ _ _ | .restore _ _ _ | .discard _ _ => true
  | _ => false

/-- The request was not answered with success. -/
def Failed (r : Except Failure Response) : Prop := ∀ response, r = .ok response → response.status ≠ 200

/-! ## Trails -/

/-- A directory that could not be removed is stuck. -/
inductive WorkDir where
  | absent
  | present
  | stuck

/-- The number of transactions that the operation has sent, whether one was acknowledged, and its working
directory. -/
structure Trail where
  sent : Nat
  committed : Bool
  workDir : WorkDir

namespace Trail

def start : Trail := ⟨0, false, .absent⟩

def step (trail : Trail) : (c : Cmd) → c.Answer → Trail
  | .transact _, .ok _ => { trail with sent := trail.sent + 1, committed := true }
  | .transact _, .error _ => { trail with sent := trail.sent + 1 }
  | .fs .createTemporaryWorkDir, .ok () => { trail with workDir := .present }
  | .fs .remove, .ok () => { trail with workDir := .absent }
  | .fs .remove, .error _ => { trail with workDir := .stuck }
  | _, _ => trail

/-- Nothing was sent. -/
def Unsent (trail : Trail) : Prop := trail.sent = 0 ∧ trail.committed = false

end Trail

def trailMonitor : Monitor Cmd Cmd.Answer Trail where
  step := Trail.step
  allows := fun _ _ => True
  expects := fun _ _ _ => True

/-- The commands that leave no trail. -/
def Traceless : Cmd → Prop
  | .transact _ | .fs .createTemporaryWorkDir | .fs .remove => False
  | _ => True

section Meets
variable {α β : Type} {P : Platform} {timeouts : ResticTimeouts} {client : ResticClient} {trail : Trail}

theorem traceless_trailMonitor {c : Cmd} (hc : Traceless c) :
    trailMonitor.allows trail c ∧ ∀ a, trailMonitor.step trail c a = trail := by
  refine ⟨trivial, fun a => ?_⟩
  cases c with
  | transact tx => exact hc.elim
  | fs op =>
      cases op with
      | createTemporaryWorkDir | remove => exact hc.elim
      | _ => rfl
  | _ => rfl

/-- The task sends one transaction at most, fails only while nothing is committed, and leaves the working
directory as it finds it. -/
def FailsClean (task : Op α) : Prop :=
  ∀ trail : Trail, trail.Unsent → task.Meets trailMonitor trail fun r trail' =>
    trail'.workDir = trail.workDir ∧ trail'.sent ≤ 1 ∧ ∀ e, r = .error e → trail'.committed = false

theorem failsClean_of_only {task : Op α} (h : task.Only Traceless) : FailsClean task :=
  fun _ htrail => h.meets (fun _ hc => traceless_trailMonitor hc) fun _ =>
    ⟨rfl, by rw [htrail.1]; exact Nat.zero_le 1, fun _ _ => htrail.2⟩

/-- Before the write anything can follow. -/
theorem FailsClean.after_only {task : Op α} {f : α → Op β} (h : task.Only Traceless) (hf : ∀ a, FailsClean (f a)) :
    FailsClean (task >>= f) := by
  intro trail htrail
  rw [meets_bind]
  refine h.meets (fun _ hc => traceless_trailMonitor hc) fun r => ?_
  cases r with
  | error e => exact ⟨rfl, by rw [htrail.1]; exact Nat.zero_le 1, fun _ _ => htrail.2⟩
  | ok a => exact hf a trail htrail

/-- After the write only the result is left. -/
theorem FailsClean.andThen_pure {task : Op α} (h : FailsClean task) (f : α → β) :
    FailsClean (task >>= fun a => pure (f a)) := by
  intro trail htrail
  rw [meets_bind]
  refine (h trail htrail).mono fun r trail' ⟨hdir, hsent, herror⟩ => ?_
  cases r with
  | error e => exact ⟨hdir, hsent, fun _ _ => herror e rfl⟩
  | ok a => exact ⟨hdir, hsent, fun e he => by cases he⟩

theorem failsClean_transact (tx : Transaction) (b : β) :
    FailsClean (Op.transact tx >>= fun _ => pure b) := by
  refine FailsClean.andThen_pure (fun trail htrail => ?_) fun _ => b
  rw [Op.transact, meets_bind, meets_lift]
  have hsent : trail.sent + 1 ≤ 1 := by rw [htrail.1]
  refine ⟨trivial, fun a _ => ?_⟩
  rw [then_ok, meets_ofExcept]
  cases a with
  | error e => exact ⟨rfl, hsent, fun _ _ => htrail.2⟩
  | ok n => exact ⟨rfl, hsent, fun e he => by cases he⟩

/-- The lock is released with any result. -/
theorem FailsClean.projectWriteLocksRun {projectId : JsString} {task : Op α} (h : FailsClean task) :
    FailsClean (projectWriteLocksRun projectId task) := by
  rw [SecretsManager.projectWriteLocksRun, dbUtilsWithLock]
  refine .after_only (only_lift.mpr trivial) fun held => .after_only only_ofExcept fun _ trail htrail => ?_
  rw [meets_tryFinally]
  refine (h trail htrail).mono fun r trail' hr => meets_lift.mpr ⟨trivial, fun _ _ => ?_⟩
  rw [then_ok, meets_ofExcept]
  exact hr

/-- The removal is tried with any result, and its own error comes first. -/
theorem meets_removeWorkDir {r : Except Failure α} {Q : Except Failure α → Trail → Prop}
    (hremoved : Q r { trail with workDir := .absent })
    (hstuck : ∀ e, Q (.error e) { trail with workDir := .stuck }) :
    Finally trailMonitor Op.removeWorkDir Q r trail := by
  refine meets_bind.mpr (meets_lift.mpr ⟨trivial, fun a _ => ?_⟩)
  rw [then_ok, meets_ofExcept]
  cases a with
  | error e => exact hstuck e
  | ok =>
      rw [then_ok, meets_ofExcept]
      exact hremoved

/-- What a synchronization leaves: no working directory, unless it is stuck, and after an error no
transaction. -/
def LeavesNothing (r : Except Failure α) (trail : Trail) : Prop :=
  trail.sent ≤ 1 ∧
    (trail.workDir = .stuck ∨ trail.workDir = .absent ∧ ∀ e, r = .error e → trail.committed = false)

theorem leavesNothing_start {r : Except Failure α} : LeavesNothing r .start :=
  ⟨Nat.zero_le 1, Or.inr ⟨rfl, fun _ _ => rfl⟩⟩

theorem leavesNothing_withWorkDir {task : Op α} (h : FailsClean task) :
    (withWorkDir task).Meets trailMonitor .start LeavesNothing := by
  have htask : FailsClean (Op.fs .ensurePrivateDir >>= fun _ => task) :=
    .after_only (only_query trivial) fun _ => h
  rw [withWorkDir, meets_bind, Op.fs, meets_bind, meets_lift]
  refine ⟨trivial, fun a _ => ?_⟩
  rw [then_ok, meets_ofExcept]
  cases a with
  | error e => exact leavesNothing_start
  | ok =>
      rw [then_ok, meets_tryFinally]
      refine (htask ⟨0, false, .present⟩ ⟨rfl, rfl⟩).mono fun r trail' hr => ?_
      obtain ⟨-, hsent, herror⟩ := hr
      refine meets_removeWorkDir ?_ fun e => ?_
      · exact ⟨hsent, Or.inr ⟨rfl, herror⟩⟩
      · exact ⟨hsent, Or.inl rfl⟩

/-- Reads before the synchronization. -/
theorem leavesNothing_after {task : Op α} {f : α → Op β} (h : task.Only Traceless)
    (hf : ∀ a, (f a).Meets trailMonitor .start LeavesNothing) :
    (task >>= f).Meets trailMonitor .start LeavesNothing := by
  rw [meets_bind]
  refine h.meets (fun _ hc => traceless_trailMonitor hc) fun r => ?_
  cases r with
  | error e => exact leavesNothing_start
  | ok a => exact hf a

/-! ## The parts of a synchronization -/

theorem traceless_projectsDataGet (id : JsString) : (projectsDataGet id).Only Traceless := only_query trivial

theorem traceless_secretsList (projectId : JsString) : (secretsDataListForProject projectId).Only Traceless :=
  only_query trivial

theorem traceless_snapshots : (client.snapshots P).Only Traceless := only_snapshots trivial

theorem traceless_rereadProject (project : Project) : (rereadProject project).Only Traceless :=
  (traceless_projectsDataGet _).bind fun _ => only_pure

theorem traceless_resolveExpectedContentHash (project : Project) (sent : Option JsString) :
    (resolveExpectedContentHash P project sent).Only Traceless := by
  cases sent with
  | some token => exact only_pure
  | none => exact (traceless_secretsList _).bind fun _ => only_pure

theorem traceless_secretsOfContents (projectId : JsString) (l : List SecretContent) :
    (secretsOfContents projectId l).Only Traceless := by
  induction l with
  | nil => exact only_pure
  | cons content l ih =>
      have hnew : (newSecret projectId content).Only Traceless :=
        Prog.Only.bind (only_lift.mpr trivial) fun _ => Prog.Only.bind (only_lift.mpr trivial) fun _ => only_pure
      exact hnew.bind fun _ => ih.bind fun _ => only_pure

theorem traceless_readSnapshotSecretsForProject (project : Project) (listing : List (JsString × FsNode)) :
    (readSnapshotSecretsForProject P project listing).Only Traceless := by
  refine (only_fs trivial).bind fun _ => ?_
  split
  · exact only_fail
  · exact traceless_secretsOfContents _ _

theorem failsClean_applySnapshotSecrets {projectId expected : JsString} {secrets : List Secret}
    {snapshot : ResticSnapshot} : FailsClean (applySnapshotSecrets P projectId expected secrets snapshot) := by
  refine FailsClean.projectWriteLocksRun (.after_only (traceless_projectsDataGet _) fun row => ?_)
  cases row with
  | none => exact failsClean_of_only only_fail
  | some project =>
      refine .after_only (traceless_secretsList _) fun current => ?_
      split_ifs
      · exact failsClean_of_only only_fail
      · exact failsClean_transact _ ()

theorem failsClean_restoreAndApply {expected : JsString} {snapshot : ResticSnapshot} :
    FailsClean (restoreAndApply P client expected snapshot) := by
  refine .after_only (only_restore trivial) fun listing => .after_only (only_fs trivial) fun _ => ?_
  refine .after_only (traceless_readSnapshotSecretsForProject _ _) fun secrets => ?_
  exact failsClean_applySnapshotSecrets.andThen_pure fun _ => _

theorem traceless_prepareRepository : (prepareRepository P client).Only Traceless :=
  only_prepareRepository trivial trivial trivial

theorem traceless_resolveCreatedSnapshot {createdId : Option JsString} {knownIds : List JsString} :
    (resolveCreatedSnapshot P client createdId knownIds).Only Traceless :=
  only_resolveCreatedSnapshot (fun _ => trivial) trivial

theorem failsClean_finalizePushSection {projectId observed hash : JsString} {created : ResticSnapshot} :
    FailsClean (finalizePushSection P projectId observed hash created) := by
  refine .after_only (traceless_projectsDataGet _) fun row => ?_
  cases row with
  | none => exact failsClean_of_only only_fail
  | some fresh =>
      dsimp only
      split_ifs
      · exact failsClean_of_only only_fail
      · exact .after_only (traceless_secretsList _) fun freshSecrets => failsClean_transact _ ()

theorem failsClean_pushSecrets {pushedBy : Option JsString} : FailsClean (pushSecrets P client pushedBy) := by
  refine .after_only (traceless_secretsList _) fun secrets => ?_
  refine .after_only (Prog.Only.foldlM (only_exportSecret fun _ => trivial) _ _) fun dir => ?_
  refine .after_only traceless_prepareRepository fun snapshots => ?_
  refine .after_only only_checkNoConflict fun _ => .after_only (only_backup trivial) fun createdId => ?_
  refine .after_only traceless_resolveCreatedSnapshot fun created => ?_
  exact failsClean_finalizePushSection.projectWriteLocksRun.andThen_pure fun _ => _

/-! ## The synchronizations -/

theorem leavesNothing_restoreSnapshotUnlocked (project : Project) (snapshotId : JsString)
    (sent : Option JsString) :
    (resticSyncRestoreSnapshotUnlocked P timeouts project snapshotId sent).Meets trailMonitor .start
      LeavesNothing := by
  refine leavesNothing_after (traceless_rereadProject _) fun project => ?_
  refine leavesNothing_after (traceless_resolveExpectedContentHash _ _) fun expected => ?_
  refine leavesNothing_withWorkDir (.after_only traceless_snapshots fun snapshots => ?_)
  split
  · exact failsClean_of_only only_fail
  · exact failsClean_restoreAndApply

theorem leavesNothing_pullUnlocked (project : Project) (snapshotId : JsString) (sent : Option JsString) :
    (resticSyncPullUnlocked P timeouts project snapshotId sent).Meets trailMonitor .start LeavesNothing := by
  unfold resticSyncPullUnlocked
  refine meets_ite (fun _ => leavesNothing_start) fun _ => ?_
  refine leavesNothing_after (traceless_rereadProject _) fun project => ?_
  refine leavesNothing_after (traceless_resolveExpectedContentHash _ _) fun expected => ?_
  refine leavesNothing_withWorkDir (.after_only traceless_snapshots fun snapshots => ?_)
  split
  · exact failsClean_of_only only_fail
  · split_ifs
    · exact failsClean_of_only only_fail
    · exact failsClean_restoreAndApply

theorem leavesNothing_discardUnlocked (project : Project) (sent : Option JsString) :
    (resticSyncDiscardLocalChangesUnlocked P timeouts project sent).Meets trailMonitor .start
      LeavesNothing := by
  refine leavesNothing_after (traceless_rereadProject _) fun project => ?_
  refine meets_ite (fun _ => leavesNothing_start) fun _ => ?_
  exact leavesNothing_restoreSnapshotUnlocked _ _ _

theorem leavesNothing_pushUnlocked (project : Project) (pushedBy : Option JsString) :
    (resticSyncPushUnlocked P timeouts project pushedBy).Meets trailMonitor .start LeavesNothing :=
  leavesNothing_after (traceless_rereadProject _) fun _ => leavesNothing_withWorkDir failsClean_pushSecrets

/-! ## The routes -/

/-- What the result of an operation tells about its trail. -/
def TrailOutcome (op : Operation) (r : Except Failure Response) (trail : Trail) : Prop :=
  op.synchronizes = true → trail.sent ≤ 1 ∧
    (trail.workDir = .stuck ∨ trail.workDir = .absent ∧ (Failed r → trail.committed = false))

/-- An error becomes a response, and success is answered with 200. -/
theorem trailOutcome_catch {op : Operation} {task : Op α} {body : α → ResponseBody}
    (h : task.Meets trailMonitor .start LeavesNothing) :
    (Prog.tryCatch (task >>= fun a => pure ⟨200, body a⟩) fun e => pure (sendSyncError e)).Meets trailMonitor
      .start (TrailOutcome op) := by
  rw [meets_tryCatch, meets_bind]
  refine h.mono fun r trail ⟨hsent, hend⟩ => ?_
  cases r with
  | error e => exact fun _ => ⟨hsent, hend.imp_right fun ⟨hdir, herror⟩ => ⟨hdir, fun _ => herror e rfl⟩⟩
  | ok a => exact fun _ => ⟨hsent, hend.imp_right fun ⟨hdir, _⟩ => ⟨hdir, fun hfailed => absurd rfl (hfailed _ rfl)⟩⟩

theorem trailOutcome_of_start {op : Operation} {r : Except Failure Response} : TrailOutcome op r .start :=
  fun _ => ⟨Nat.zero_le 1, Or.inr ⟨rfl, fun _ => rfl⟩⟩

theorem trailOutcome_syncRoute {op : Operation} {id : JsString} {task : Project → Op α}
    {body : α → ResponseBody} (h : ∀ project, (task project).Meets trailMonitor .start LeavesNothing) :
    (syncRoute id task body).Meets trailMonitor .start (TrailOutcome op) := by
  rw [syncRoute, meets_bind]
  refine (traceless_projectsDataGet id).meets (fun _ hc => traceless_trailMonitor hc) fun row => ?_
  cases row with
  | error e => exact trailOutcome_of_start
  | ok row =>
      cases row with
      | none => exact trailOutcome_of_start
      | some project => exact trailOutcome_catch (h project)

theorem trailOutcome_pull {id : JsString} {snapshotId contentHash : Option JsValue} :
    (pull P timeouts id snapshotId contentHash).Meets trailMonitor .start
      (TrailOutcome (.pull id snapshotId contentHash)) := by
  rw [pull, meets_bind]
  refine (traceless_projectsDataGet id).meets (fun _ hc => traceless_trailMonitor hc) fun row => ?_
  cases row with
  | error e => exact trailOutcome_of_start
  | ok row =>
      cases row with
      | none => exact trailOutcome_of_start
      | some project =>
          refine meets_ite (fun _ => trailOutcome_of_start) fun _ => ?_
          exact trailOutcome_catch (leavesNothing_pullUnlocked _ _ _)

/-- Every synchronization leaves nothing when it fails; of the other operations nothing is said. -/
theorem trail_serve (P : Platform) (timeouts : ResticTimeouts) (op : Operation) :
    (serve P timeouts op).Meets trailMonitor .start (TrailOutcome op) := by
  by_cases hsync : op.synchronizes = true
  · cases op with
    | push projectId pushedBy =>
        exact trailOutcome_syncRoute fun project => leavesNothing_pushUnlocked project pushedBy
    | pull projectId snapshotId contentHash => exact trailOutcome_pull
    | restore projectId snapshotId contentHash =>
        exact trailOutcome_syncRoute fun project => leavesNothing_restoreSnapshotUnlocked project _ _
    | discard projectId contentHash =>
        exact trailOutcome_syncRoute fun project => leavesNothing_discardUnlocked project _
    | _ => cases hsync
  · refine Prog.Meets.mono ?_ fun r trail (_ : True) hop => absurd hop hsync
    exact (Prog.only_true _).meets_true fun _ _ _ => trivial

end Meets

/-! ## Runs -/

section Runs
variable {R : Type} {P : Platform} {timeouts : ResticTimeouts} {restic : Restic R} {admits : Operation → Prop}
  {dialect : Dialect}

/-- The outline of the trails, with no assertion about the world. -/
theorem trailOutline (P : Platform) (timeouts : ResticTimeouts) (dialect : Dialect) (restic : Restic R)
    (admits : Operation → Prop) :
    Outline (statementServer P timeouts dialect restic admits) (fun _ => trailMonitor) .start (fun _ => True)
      (fun _ _ _ _ => True) TrailOutcome :=
  .ofMeets (fun _ _ _ _ => trivial) fun op _ => trail_serve P timeouts op

/-- The write of the event, when it has taken effect. -/
def effect? : ServerEvent R → Option Transaction
  | ⟨_, .transact tx, .ok _, _⟩ => some tx
  | ⟨w, .transact tx, .error _, w'⟩ => if w'.db = w.db then none else some tx
  | _ => none

/-- The write of the event has taken effect, and its answer is an error. -/
def Unacknowledged (e : ServerEvent R) : Prop :=
  ∃ w tx x w', e = ⟨w, .transact tx, .error x, w'⟩ ∧ w'.db ≠ w.db

/-- The event creates the working directory of its operation, the event removes it, and the event fails to. -/
def CreatesWorkDir (e : ServerEvent R) : Prop := ∃ w w', e = ⟨w, .fs .createTemporaryWorkDir, .ok (), w'⟩

def RemovesWorkDir (e : ServerEvent R) : Prop := ∃ w w', e = ⟨w, .fs .remove, .ok (), w'⟩

def FailsToRemove (e : ServerEvent R) : Prop := ∃ w x w', e = ⟨w, .fs .remove, .error x, w'⟩

theorem effect?_eq_some {e : ServerEvent R} {tx : Transaction} (h : effect? e = some tx) :
    (∃ n, committed? e = some (tx, n)) ∨ Unacknowledged e := by
  unfold effect? at h
  split at h
  · cases h
    exact Or.inl ⟨_, rfl⟩
  · split_ifs at h with hsame
    exact Or.inr ⟨_, _, _, _, rfl, hsame⟩
  · cases h

/-- One event more, and the trail knows its transaction. -/
theorem committed_step (trail : Trail) (e : ServerEvent R) :
    (trail.step e.cmd e.answer).committed = (trail.committed || (committed? e).isSome) := by
  obtain ⟨w, c, a, w'⟩ := e
  have hnone : trail.committed = (trail.committed || (none : Option (Transaction × Nat)).isSome) := by simp
  cases c with
  | transact tx =>
      cases a with
      | error e => exact hnone
      | ok n => exact (Bool.or_true _).symm
  | fs op => cases op <;> cases a <;> exact hnone
  | _ => exact hnone

theorem sent_step (trail : Trail) (e : ServerEvent R) :
    trail.sent + (effect? e).toList.length ≤ (trail.step e.cmd e.answer).sent := by
  obtain ⟨w, c, a, w'⟩ := e
  cases c with
  | transact tx =>
      have hlength : ∀ o : Option Transaction, trail.sent + o.toList.length ≤ trail.sent + 1 := by
        intro o
        cases o with
        | none => exact Nat.le_succ _
        | some tx => exact le_rfl
      cases a with
      | error e => exact hlength _
      | ok n => exact hlength _
  | fs op => cases op <;> cases a <;> exact le_rfl
  | _ => exact le_rfl

/-- The trail of an operation without a committed transaction. -/
theorem committed_after {trace : List (ServerEvent R)}
    (h : (trailMonitor.after .start trace).committed = false) : ∀ e ∈ trace, committed? e = none := by
  induction trace using List.reverseRecOn with
  | nil => exact fun e he => by cases he
  | append_singleton trace e ih =>
      rw [Monitor.after_append] at h
      have hstep : ((trailMonitor.after .start trace).step e.cmd e.answer).committed = false := h
      rw [committed_step, Bool.or_eq_false_iff] at hstep
      intro x hx
      rcases List.mem_append.mp hx with hx | hx
      · exact ih hstep.1 x hx
      · rw [List.mem_singleton.mp hx]
        simpa using hstep.2

/-- There are no more effects than transactions. -/
theorem sent_after (trace : List (ServerEvent R)) :
    (trace.filterMap effect?).length ≤ (trailMonitor.after .start trace).sent := by
  induction trace using List.reverseRecOn with
  | nil => exact le_rfl
  | append_singleton trace e ih =>
      have hlast : ([e].filterMap effect?).length = (effect? e).toList.length := by
        rw [List.filterMap_cons, List.filterMap_nil]
        cases effect? e <;> rfl
      rw [List.filterMap_append, List.length_append, hlast, Monitor.after_append]
      exact (Nat.add_le_add_right ih _).trans (sent_step _ e)

theorem workDir_step {trail : Trail} {e : ServerEvent R} (htrail : trail.workDir = .present)
    (h : (trail.step e.cmd e.answer).workDir ≠ .present) : RemovesWorkDir e ∨ FailsToRemove e := by
  obtain ⟨w, c, a, w'⟩ := e
  cases c with
  | transact tx => cases a <;> exact absurd htrail h
  | fs op =>
      cases op with
      | remove =>
          cases a with
          | error e => exact Or.inr ⟨w, e, w', rfl⟩
          | ok => exact Or.inl ⟨w, w', rfl⟩
      | createTemporaryWorkDir =>
          cases a with
          | error e => exact absurd htrail h
          | ok => exact absurd rfl h
      | _ => exact absurd htrail h
  | _ => exact absurd htrail h

/-- The removal of a directory that is not there at the end was tried after its creation. -/
theorem workDir_after {trace : List (ServerEvent R)} (h : (trailMonitor.after .start trace).workDir ≠ .present)
    {earlier later : List (ServerEvent R)} {e : ServerEvent R} (hsplit : trace = earlier ++ e :: later)
    (he : CreatesWorkDir e) : ∃ x ∈ later, RemovesWorkDir x ∨ FailsToRemove x := by
  induction later using List.reverseRecOn generalizing trace with
  | nil =>
      obtain ⟨w, w', rfl⟩ := he
      rw [hsplit, Monitor.after_append] at h
      exact absurd rfl h
  | append_singleton later x ih =>
      have happend : trace = (earlier ++ e :: later) ++ [x] := by rw [hsplit]; simp
      rw [happend, Monitor.after_append] at h
      by_cases hdir : (trailMonitor.after .start (earlier ++ e :: later)).workDir = .present
      · exact ⟨x, List.mem_append_right _ (List.mem_singleton.mpr rfl), workDir_step hdir h⟩
      · obtain ⟨y, hy, hremoves⟩ := ih hdir rfl
        exact ⟨y, List.mem_append_left _ hy, hremoves⟩

theorem stuck_step {trail : Trail} {e : ServerEvent R} (h : (trail.step e.cmd e.answer).workDir = .stuck) :
    trail.workDir = .stuck ∨ FailsToRemove e := by
  obtain ⟨w, c, a, w'⟩ := e
  cases c with
  | transact tx => cases a <;> exact Or.inl h
  | fs op =>
      cases op with
      | remove =>
          cases a with
          | error e => exact Or.inr ⟨w, e, w', rfl⟩
          | ok => cases h
      | createTemporaryWorkDir =>
          cases a with
          | error e => exact Or.inl h
          | ok => cases h
      | _ => exact Or.inl h
  | _ => exact Or.inl h

theorem stuck_after {trace : List (ServerEvent R)} (h : (trailMonitor.after .start trace).workDir = .stuck) :
    ∃ e ∈ trace, FailsToRemove e := by
  induction trace using List.reverseRecOn with
  | nil => cases h
  | append_singleton trace e ih =>
      rw [Monitor.after_append] at h
      rcases stuck_step h with hbefore | hfails
      · obtain ⟨x, hx, hfails⟩ := ih hbefore
        exact ⟨x, List.mem_append_left _ hx, hfails⟩
      · exact ⟨e, List.mem_append_right _ (List.mem_singleton.mpr rfl), hfails⟩

/-- An event leaves the database, or its write takes effect as a whole. -/
theorem statementExec_effect {t : Nat} {e : ServerEvent R}
    (h : StatementExec dialect restic t e.before e.cmd e.answer e.after) :
    (effect? e = none ∧ e.after.db = e.before.db) ∨ ∃ tx n, effect? e = some tx ∧
      tx.work.evaluate Statement.apply e.before.db = .ok (e.after.db, n) := by
  obtain ⟨w, c, a, w'⟩ := e
  dsimp only at h ⊢
  cases c with
  | transact tx =>
      rcases statementExec_transact h with ⟨x, rfl, rfl, -⟩ | ⟨db, n, hdone, rfl | ⟨⟨m, rfl⟩, hne⟩, rfl⟩
      · exact Or.inl ⟨if_pos rfl, rfl⟩
      · exact Or.inr ⟨tx, n, rfl, hdone⟩
      · exact Or.inr ⟨tx, n, if_neg hne, hdone⟩
  | fs op =>
      obtain ⟨rfl, -⟩ := h
      exact Or.inl ⟨rfl, rfl⟩
  | _ =>
      have hexec : Exec restic t w _ a w' := h
      exact Or.inl ⟨rfl, exec_db (e := ⟨w, _, a, w'⟩) hexec rfl⟩

/-! ## The writes of a run -/

/-- The database after the writes of the operations, each complete, one after the other. -/
inductive Written (db₀ : Db) : List (Nat × Transaction) → Db → Prop where
  | nil : Written db₀ [] db₀
  | snoc {writes db t tx db' n} : Written db₀ writes db → tx.work.evaluate Statement.apply db = .ok (db', n) →
      Written db₀ (writes ++ [(t, tx)]) db'

/-- The writes of an operation that have taken effect. -/
def effectsOf (cfg : Config (World R) Cmd Cmd.Answer Failure Response Operation) (t : Nat) : List Transaction :=
  match cfg.threads[t]? with
  | some th => th.trace.filterMap effect?
  | none => []

/-- The transactions of one operation among the writes of all. -/
def writesBy (writes : List (Nat × Transaction)) (t : Nat) : List Transaction :=
  (writes.filter fun write => write.1 = t).map Prod.snd

theorem writesBy_append_singleton (writes : List (Nat × Transaction)) (t t' : Nat) (tx : Transaction) :
    writesBy (writes ++ [(t, tx)]) t' = writesBy writes t' ++ if t = t' then [tx] else [] := by
  rw [writesBy, List.filter_append, List.map_append, writesBy]
  by_cases htt : t = t' <;> simp [htt]

theorem effectsOf_spawn (w : World R) (ths : List (Thread (World R) Cmd Cmd.Answer Failure Response Operation))
    (op : Operation) (p : Op Response) (t : Nat) :
    effectsOf ⟨w, ths ++ [⟨op, [], p⟩]⟩ t = effectsOf ⟨w, ths⟩ t := by
  rcases Nat.lt_or_ge t ths.length with hlt | hge
  · simp only [effectsOf, List.getElem?_append_left hlt]
  · simp only [effectsOf, List.getElem?_eq_none hge, List.getElem?_append_right hge]
    cases t - ths.length <;> rfl

theorem effectsOf_run {w w' : World R}
    {ths : List (Thread (World R) Cmd Cmd.Answer Failure Response Operation)} {t : Nat} {op : Operation}
    {trace : List (ServerEvent R)} {p : Op Response} (hth : ths[t]? = some ⟨op, trace, p⟩) (e : ServerEvent R)
    (p' : Op Response) (t' : Nat) :
    effectsOf ⟨w', ths.set t ⟨op, trace ++ [e], p'⟩⟩ t' =
      effectsOf ⟨w, ths⟩ t' ++ if t = t' then (effect? e).toList else [] := by
  by_cases htt : t = t'
  · subst htt
    simp only [effectsOf, List.getElem?_set_self (List.getElem?_eq_some_iff.mp hth).1, hth, List.filterMap_append,
      List.filterMap_cons, List.filterMap_nil, if_true]
    cases effect? e <;> rfl
  · simp only [effectsOf, List.getElem?_set_ne htt, if_neg htt, List.append_nil]

/-- The database of a reachable configuration is what the writes of its operations have made of the first
one. -/
theorem written_of_reachable {w₀ : World R} {cfg : Config (World R) Cmd Cmd.Answer Failure Response Operation}
    (h : (statementServer P timeouts dialect restic admits).Reachable w₀ cfg) :
    ∃ writes, Written w₀.db writes cfg.world.db ∧ ∀ t, writesBy writes t = effectsOf cfg t := by
  induction h with
  | refl => exact ⟨[], .nil, fun t => rfl⟩
  | tail _ hstep ih =>
      obtain ⟨writes, hwritten, hby⟩ := ih
      cases hstep with
      | spawn _ => exact ⟨writes, hwritten, fun t => (hby t).trans (effectsOf_spawn _ _ _ _ t).symm⟩
      | @run w ths t op trace c next a w' hth hexec =>
          have hrun : ∀ t', effectsOf ⟨w', ths.set t ⟨op, trace ++ [⟨w, c, a, w'⟩], next a⟩⟩ t' =
              effectsOf ⟨w, ths⟩ t' ++ if t = t' then (effect? (⟨w, c, a, w'⟩ : ServerEvent R)).toList else [] :=
            effectsOf_run hth _ _
          rcases statementExec_effect (e := ⟨w, c, a, w'⟩) hexec with ⟨hnone, hdb⟩ | ⟨tx, n, hsome, hdone⟩
          · have hkept : w'.db = w.db := hdb
            refine ⟨writes, by rwa [hkept], fun t' => ?_⟩
            rw [hrun, hby, hnone, Option.toList_none, ite_self, List.append_nil]
          · refine ⟨writes ++ [(t, tx)], .snoc hwritten hdone, fun t' => ?_⟩
            rw [writesBy_append_singleton, hrun, hby, hsome]
            rfl
      | environment henv =>
          obtain ⟨r, -, rfl⟩ := henv
          exact ⟨writes, hwritten, hby⟩

/-- **A failed synchronization leaves no trace**, unless the answer to its write was lost or its working
directory could not be removed. On either dialect, whichever of its commands and of the statements of its write
failed, the database is what the writes of the operations, each complete, have made of it; the failed one has
written nothing, or once with its acknowledgement lost or before a removal that failed. The removal of the
working directory that it created was tried. -/
theorem failedSync_leaves_no_trace {w₀ : World R}
    {cfg : Config (World R) Cmd Cmd.Answer Failure Response Operation}
    (h : (statementServer P timeouts dialect restic admits).Reachable w₀ cfg) {t : Nat}
    {th : Thread (World R) Cmd Cmd.Answer Failure Response Operation} (hth : cfg.threads[t]? = some th)
    (hsync : th.req.synchronizes = true) {r : Except Failure Response} (hended : th.prog.result? = some r)
    (hfailed : Failed r) :
    (∃ writes, Written w₀.db writes cfg.world.db ∧ (∀ t', writesBy writes t' = effectsOf cfg t') ∧
        (writesBy writes t = [] ∨ ∃ tx, writesBy writes t = [tx] ∧
          ∃ e ∈ th.trace, effect? e = some tx ∧ Unacknowledged e ∨ FailsToRemove e)) ∧
      (∀ e ∈ th.trace, e.after.db = e.before.db ∨ Unacknowledged e ∨ ∃ x ∈ th.trace, FailsToRemove x) ∧
      ∀ earlier e later, th.trace = earlier ++ e :: later → CreatesWorkDir e →
        ∃ x ∈ later, RemovesWorkDir x ∨ FailsToRemove x := by
  have hgood := ((trailOutline P timeouts dialect restic admits).good trivial h).threads t th hth
  obtain ⟨hsent, hend⟩ := hgood.meets.result hended hsync
  -- A write that was acknowledged is not the end of a failed synchronization whose directory is gone.
  have hlost : ∀ e ∈ th.trace, ∀ tx, effect? e = some tx → Unacknowledged e ∨ ∃ x ∈ th.trace, FailsToRemove x := by
    intro e he tx htx
    rcases hend with hstuck | ⟨-, hcommitted⟩
    · exact Or.inr (stuck_after hstuck)
    · rcases effect?_eq_some htx with ⟨n, hn⟩ | hlost
      · rw [committed_after (hcommitted hfailed) e he] at hn
        cases hn
      · exact Or.inl hlost
  refine ⟨?_, fun e he => ?_, fun earlier e later hsplit => workDir_after ?_ hsplit⟩
  · obtain ⟨writes, hwritten, hby⟩ := written_of_reachable h
    have heffects : writesBy writes t = th.trace.filterMap effect? := by rw [hby, effectsOf, hth]
    refine ⟨writes, hwritten, hby, ?_⟩
    rw [heffects]
    have hlength := (sent_after th.trace).trans hsent
    cases hlist : th.trace.filterMap effect? with
    | nil => exact Or.inl rfl
    | cons tx rest =>
        rw [hlist, List.length_cons] at hlength
        obtain rfl : rest = [] := List.eq_nil_of_length_eq_zero (Nat.le_zero.mp (Nat.le_of_succ_le_succ hlength))
        have hmem : tx ∈ th.trace.filterMap effect? := hlist ▸ List.mem_singleton.mpr rfl
        obtain ⟨e, he, htx⟩ := List.mem_filterMap.mp hmem
        rcases hlost e he tx htx with hunacknowledged | ⟨x, hx, hfails⟩
        · exact Or.inr ⟨tx, rfl, e, he, Or.inl ⟨htx, hunacknowledged⟩⟩
        · exact Or.inr ⟨tx, rfl, x, hx, Or.inr hfails⟩
  · obtain ⟨earlier, later, hsplit⟩ := List.append_of_mem he
    rcases statementExec_effect (hgood.past earlier e later hsplit).exec with ⟨-, hkept⟩ | ⟨tx, n, htx, -⟩
    · exact Or.inl hkept
    · exact Or.inr (hlost e he tx htx)
  · rcases hend with hstuck | ⟨habsent, -⟩
    · exact fun hpresent => by rw [hstuck] at hpresent; cases hpresent
    · exact fun hpresent => by rw [habsent] at hpresent; cases hpresent

end Runs

section Example

def diskError : Failure := .other (js "disk I/O error")

/-- The first insert of a replacement fails, after the old secrets were deleted. -/
theorem runs_failedInsert (projectId : JsString) (secret : Secret) (rest : List Secret)
    (state : ProjectSyncState) (db : Db) :
    ((Transaction.secretsDataReplaceForProject projectId (secret :: rest) state).execute .postgres).Runs DbExec
      ⟨db, .idle⟩ (.error diskError) ⟨db, .idle⟩ := by
  have hfault : ∃ m, diskError = .other m := ⟨_, rfl⟩
  refine .call (a := .ok ()) ⟨rfl, Or.inl rfl⟩ (.call (a := .ok ()) (Or.inl ⟨rfl, rfl⟩) ?_)
  refine .call (a := .ok _) (Or.inl ⟨_, _, dif_pos (Sql.valid_deleteByProject db.valid), rfl, rfl⟩) ?_
  refine .call (a := .error diskError) (Or.inr (Or.inr (Or.inl ⟨diskError, hfault, rfl, Or.inl rfl⟩))) ?_
  refine .call (a := .ok ()) (Or.inl ⟨rfl, rfl⟩) ?_
  show Prog.Runs DbExec (.call .release fun _ => .fail diskError) _ _ _
  exact .call (a := ()) rfl .fail

/-- As `act`, where the replacement fails. -/
def actFailing (t : Nat) (w : World Snapshots) : (c : Cmd) → JsString → Option (c.Answer × World Snapshots)
  | .transact (.secretsDataReplaceForProject _ (_ :: _) _), _ => some (.error diskError, w)
  | .transact _, _ => none
  | c, fresh => act Snapshots.run t w c fresh

theorem actFailing_exec {t : Nat} {w w' : World Snapshots} {c : Cmd} {fresh : JsString} {a : c.Answer}
    (h : actFailing t w c fresh = some (a, w')) : StatementExec .postgres Snapshots.restic t w c a w' := by
  by_cases hc : ∀ tx, c ≠ .transact tx
  · have hact : act Snapshots.run t w c fresh = some (a, w') := by
      cases c with
      | transact tx => exact absurd rfl (hc tx)
      | _ => exact h
    exact statementExec_of_exec hc (act_exec (fun _ _ _ => rfl) hact)
  · obtain ⟨tx, rfl⟩ := not_forall_not.mp hc
    cases tx with
    | secretsDataReplaceForProject projectId secrets state =>
        cases secrets with
        | nil => cases h
        | cons secret rest =>
            cases h
            exact statementExec_failed (runs_failedInsert projectId secret rest state w.db)
    | _ => cases h

/-- Requests to the server with the edited secret, with the given answers. -/
noncomputable def playEdited
    (act : Nat → World Snapshots → (c : Cmd) → JsString → Option (c.Answer × World Snapshots))
    (moves : List (Move Operation JsString)) :
    Option (Config (World Snapshots) Cmd Cmd.Answer Failure Response Operation) :=
  play (serve runPlatform exampleTimeouts) (fun t _ _ => act t) moves
    ⟨.initial editedDb [(js "s1", exampleFiles "1")], []⟩

theorem playEdited_reachable
    {act : Nat → World Snapshots → (c : Cmd) → JsString → Option (c.Answer × World Snapshots)}
    (hact : ∀ t w c fresh a w', act t w c fresh = some (a, w') →
      StatementExec .postgres Snapshots.restic t w c a w')
    {moves : List (Move Operation JsString)}
    {cfg : Config (World Snapshots) Cmd Cmd.Answer Failure Response Operation} (h : playEdited act moves = some cfg) :
    (statementServer runPlatform exampleTimeouts .postgres Snapshots.restic fun _ => True).Reachable
      (.initial editedDb [(js "s1", exampleFiles "1")]) cfg := by
  have hexec : ∀ (t : Nat) (op : Operation) (trace : List (ServerEvent Snapshots)) (w : World Snapshots) (c : Cmd)
      (fresh : JsString) (a : c.Answer) (w' : World Snapshots), act t w c fresh = some (a, w') →
      (statementServer runPlatform exampleTimeouts .postgres Snapshots.restic fun _ => True).exec t op trace w c
        a w' := fun _ _ _ _ _ _ _ _ h => hact _ _ _ _ _ _ h
  exact play_steps hexec (fun _ _ => trivial) h

theorem failed_sendSyncError {e : Failure} (h : (sendSyncError e).status ≠ 200) : Failed (.ok (sendSyncError e)) :=
  fun _ hresponse => Except.ok.inj hresponse ▸ h

theorem failedSync_leaves_no_trace_insert :
    ∃ cfg th, (statementServer runPlatform exampleTimeouts .postgres Snapshots.restic fun _ => True).Reachable
        (.initial editedDb [(js "s1", exampleFiles "1")]) cfg ∧
      cfg.threads[0]? = some th ∧ th.req = swap ∧ th.prog.result? = some (.ok (sendSyncError diskError)) ∧
      (∃ writes, Written editedDb writes cfg.world.db ∧ (∀ t', writesBy writes t' = effectsOf cfg t') ∧
        (writesBy writes 0 = [] ∨ ∃ tx, writesBy writes 0 = [tx] ∧
          ∃ e ∈ th.trace, effect? e = some tx ∧ Unacknowledged e ∨ FailsToRemove e)) ∧
      (∀ e ∈ th.trace, e.after.db = e.before.db ∨ Unacknowledged e ∨ ∃ x ∈ th.trace, FailsToRemove x) ∧
      ∀ earlier e later, th.trace = earlier ++ e :: later → CreatesWorkDir e →
        ∃ x ∈ later, RemovesWorkDir x ∨ FailsToRemove x := by
  obtain ⟨cfg, hplay, hends⟩ : ∃ cfg, playEdited actFailing swapMoves = some cfg ∧
      ends cfg = [(swap, some (.ok (sendSyncError diskError)))] :=
    Option.map_eq_some_iff.mp rfl
  obtain ⟨th, hth, hreq, hresult⟩ := thread_of_ends hends (t := 0) rfl
  have hreachable := playEdited_reachable (fun _ _ _ _ _ _ => actFailing_exec) hplay
  exact ⟨cfg, th, hreachable, hth, hreq, hresult,
    failedSync_leaves_no_trace hreachable hth (by rw [hreq]; rfl) hresult (failed_sendSyncError (by decide))⟩

def connectionLost : Failure := .other (js "Connection terminated unexpectedly")

/-- As `act`, where the replacement takes effect and its acknowledgement is lost. -/
def actLosing (t : Nat) (w : World Snapshots) : (c : Cmd) → JsString → Option (c.Answer × World Snapshots)
  | .transact (.secretsDataReplaceForProject projectId secrets state), _ =>
      match (Transaction.secretsDataReplaceForProject projectId secrets state).commit w.db with
      | .ok (db, _) =>
          if (∀ s ∈ secrets, s.projectId = projectId) ∧ db ≠ w.db then
            some (.error connectionLost, { w with db := db, stored := secrets.map Secret.id ++ w.stored })
          else none
      | .error _ => none
  | .transact _, _ => none
  | c, fresh => act Snapshots.run t w c fresh

theorem actLosing_exec {t : Nat} {w w' : World Snapshots} {c : Cmd} {fresh : JsString} {a : c.Answer}
    (h : actLosing t w c fresh = some (a, w')) : StatementExec .postgres Snapshots.restic t w c a w' := by
  by_cases hc : ∀ tx, c ≠ .transact tx
  · have hact : act Snapshots.run t w c fresh = some (a, w') := by
      cases c with
      | transact tx => exact absurd rfl (hc tx)
      | _ => exact h
    exact statementExec_of_exec hc (act_exec (fun _ _ _ => rfl) hact)
  · obtain ⟨tx, rfl⟩ := not_forall_not.mp hc
    cases tx with
    | secretsDataReplaceForProject projectId secrets state =>
        rw [actLosing] at h
        split at h
        · rename_i db n hcommit
          split_ifs at h with hwrites
          cases h
          have huniform : (Transaction.secretsDataReplaceForProject projectId secrets state).Uniform := hwrites.1
          rw [← Transaction.evaluate_work huniform] at hcommit
          exact statementExec_lost hwrites.2 (runs_postgresTransaction_lost hcommit)
        · cases h
    | _ => cases h

def permissionDenied : Failure := .other (js "EACCES: permission denied")

/-- As `act`, where nothing is written and no directory can be removed. -/
def actStuck (t : Nat) (w : World Snapshots) : (c : Cmd) → JsString → Option (c.Answer × World Snapshots)
  | .fs .remove, _ => some (.error permissionDenied, w)
  | .transact _, _ => none
  | c, fresh => act Snapshots.run t w c fresh

theorem actStuck_exec {t : Nat} {w w' : World Snapshots} {c : Cmd} {fresh : JsString} {a : c.Answer}
    (h : actStuck t w c fresh = some (a, w')) : StatementExec .postgres Snapshots.restic t w c a w' := by
  cases c with
  | transact tx => cases h
  | fs op =>
      cases op with
      | remove =>
          cases h
          exact ⟨rfl, Or.inr ⟨_, rfl⟩⟩
      | _ =>
          cases h
          exact ⟨rfl, Or.inl rfl⟩
  | _ =>
      have hact : act Snapshots.run t w _ fresh = some (a, w') := h
      exact statementExec_of_exec (fun tx htx => by cases htx) (act_exec (fun _ _ _ => rfl) hact)

/-- A restore of `s1` with the hash of another content. -/
def staleSwap : Operation := .restore (js "p") (js "s1") (some (.str hash1))

def staleMoves : List (Move Operation JsString) :=
  .spawn staleSwap :: steps 0 8 ++ [.run 0 (js "b")] ++ steps 0 6

def createsWorkDir : ServerEvent Snapshots → Bool
  | ⟨_, .fs .createTemporaryWorkDir, .ok (), _⟩ => true
  | _ => false

theorem creates_of_createsWorkDir {e : ServerEvent Snapshots} (h : createsWorkDir e = true) : CreatesWorkDir e := by
  unfold createsWorkDir at h
  split at h
  · exact ⟨_, _, rfl⟩
  · cases h

def removesWorkDir : ServerEvent Snapshots → Bool
  | ⟨_, .fs .remove, .ok (), _⟩ => true
  | _ => false

theorem not_removes_of_removesWorkDir {e : ServerEvent Snapshots} (h : removesWorkDir e = false) :
    ¬ RemovesWorkDir e := by
  rintro ⟨w, w', rfl⟩
  cases h

/-- A restore whose `COMMIT` is not acknowledged is answered with 500, and the database is another; a restore
that was refused leaves its directory when it cannot be removed. -/
theorem not_failedSync_leaves_no_trace :
    (∃ cfg th, (statementServer runPlatform exampleTimeouts .postgres Snapshots.restic fun _ => True).Reachable
        (.initial editedDb [(js "s1", exampleFiles "1")]) cfg ∧
      cfg.threads = [th] ∧ th.req = swap ∧ th.prog.result? = some (.ok (sendSyncError connectionLost)) ∧
      Failed (.ok (sendSyncError connectionLost)) ∧ cfg.world.db ≠ editedDb) ∧
    ∃ cfg th, (statementServer runPlatform exampleTimeouts .postgres Snapshots.restic fun _ => True).Reachable
        (.initial editedDb [(js "s1", exampleFiles "1")]) cfg ∧
      cfg.threads = [th] ∧ th.req = staleSwap ∧ th.prog.result? = some (.ok (sendSyncError permissionDenied)) ∧
      Failed (.ok (sendSyncError permissionDenied)) ∧ (∃ e ∈ th.trace, CreatesWorkDir e) ∧
      ∀ e ∈ th.trace, ¬ RemovesWorkDir e := by
  refine ⟨?_, ?_⟩
  · obtain ⟨cfg, hplay, hlook⟩ : ∃ cfg, playEdited actLosing swapMoves = some cfg ∧
        (ends cfg, decide (cfg.world.db = editedDb)) =
          ([(swap, some (.ok (sendSyncError connectionLost)))], false) :=
      Option.map_eq_some_iff.mp rfl
    obtain ⟨hends, hdb⟩ := Prod.mk.inj hlook
    obtain ⟨th, hthreads, hth⟩ := List.map_eq_singleton_iff.mp hends
    obtain ⟨hreq, hresult⟩ := Prod.mk.inj hth
    exact ⟨cfg, th, playEdited_reachable (fun _ _ _ _ _ _ => actLosing_exec) hplay, hthreads, hreq, hresult,
      failed_sendSyncError (by decide), of_decide_eq_false hdb⟩
  · obtain ⟨cfg, hplay, hlook⟩ : ∃ cfg, playEdited actStuck staleMoves = some cfg ∧
        (ends cfg, cfg.threads.map fun th => (th.trace.any createsWorkDir, th.trace.any removesWorkDir)) =
          ([(staleSwap, some (.ok (sendSyncError permissionDenied)))], [(true, false)]) :=
      Option.map_eq_some_iff.mp rfl
    obtain ⟨hends, hmarks⟩ := Prod.mk.inj hlook
    obtain ⟨th, hthreads, hth⟩ := List.map_eq_singleton_iff.mp hends
    obtain ⟨hreq, hresult⟩ := Prod.mk.inj hth
    rw [hthreads] at hmarks
    obtain ⟨hcreates, hremoves⟩ := Prod.mk.inj (List.cons.inj hmarks).1
    obtain ⟨e, he, hcreate⟩ := List.any_eq_true.mp hcreates
    exact ⟨cfg, th, playEdited_reachable (fun _ _ _ _ _ _ => actStuck_exec) hplay, hthreads, hreq, hresult,
      failed_sendSyncError (by decide), ⟨e, he, creates_of_createsWorkDir hcreate⟩,
      fun x hx => not_removes_of_removesWorkDir (Bool.eq_false_iff.mpr (List.any_eq_false.mp hremoves x hx))⟩

end Example

end SecretsManager
