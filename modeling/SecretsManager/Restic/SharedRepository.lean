import SecretsManager.Secrets.LocalChanges

/-!
# Deployments on one repository

Deployments with databases and locks of their own share a repository, which is the only thing that the others
see of a push. A push lists the snapshots, compares the latest one with the last synchronized one, and then
runs the backup; restic does not compare again. So what a push supersedes without having seen it is what other
backups add after its listing.
-/

namespace SecretsManager

open Js Interleaving SortedBy

/-! ## Fleets -/

/-- The world with another repository. -/
def World.withRepository {R R' : Type} (w : World R) (repository : R') : World R' :=
  ⟨w.db, w.locks, w.issued, w.stored, repository⟩

/-- Deployments, each with its own database and locks, and the repository that they share. -/
structure Fleet (R : Type) where
  deployments : List (World Unit)
  repository : R

/-- A command runs in the world of its deployment. -/
def FleetExec {R : Type} (restic : Restic R) (t d : Nat) (f : Fleet R) (c : Cmd) (a : c.Answer) (f' : Fleet R) :
    Prop :=
  ∃ w w', f.deployments[d]? = some w ∧ Exec restic t (w.withRepository f.repository) c a w' ∧
    f' = ⟨f.deployments.set d (w'.withRepository ()), w'.repository⟩

/-- A request to a deployment. -/
structure Request where
  deployment : Nat
  operation : Operation

/-- All programs of all deployments. Nothing else writes to the repository. -/
def fleet {R : Type} (P : Platform) (timeouts : ResticTimeouts) (restic : Restic R) (admits : Request → Prop) :
    System (Fleet R) Cmd Cmd.Answer Failure Response Request where
  admits := admits
  body request := serve P timeouts request.operation
  exec t request _ := FleetExec restic t request.deployment
  environment _ _ := False

/-- `restic` is one repository for all projects, and `held` are its snapshots in the order in which they were
added: a listing shows all of them, a lookup one of them, a backup that exits 0 adds one with a new id, and
nothing else changes them. -/
structure SharedRepository {R : Type} (P : Platform) (timeouts : ResticTimeouts) (restic : Restic R)
    (held : R → List ResticSnapshot) : Prop where
  listing : ∀ {r projectId a r' snapshots}, restic.run r projectId .snapshots a r' →
    snapshotsResult P timeouts a.result = .ok snapshots → ∀ s, s ∈ snapshots ↔ s ∈ held r
  backup : ∀ {r projectId dir pushedBy a r'}, restic.run r projectId (.backup dir pushedBy) a r' →
    (held r' = held r ∧ ∀ createdId, backupResult P timeouts a.result ≠ .ok createdId) ∨
      ∃ s, held r' = held r ++ [s] ∧ ∀ s' ∈ held r, s'.id ≠ s.id
  others : ∀ {r projectId op a r'}, restic.run r projectId op a r' →
    (∀ dir pushedBy, op ≠ .backup dir pushedBy) → held r' = held r

/-! ## What a push has listed -/

/-- The project row as the push re-read it, and the listing before its backup. -/
structure Pushing where
  project : Option Project
  listed : Option (List ResticSnapshot)

section Platform
variable (P : Platform) (timeouts : ResticTimeouts)

namespace Pushing

def start : Pushing := ⟨none, none⟩

def step (v : Pushing) : (c : Cmd) → c.Answer → Pushing
  | .projectsGet _, .ok fresh => if v.listed.isNone then { v with project := fresh.or v.project } else v
  | .restic _ .snapshots, a =>
      if v.listed.isNone then { v with listed := (snapshotsResult P timeouts a.result).toOption } else v
  | _, _ => v

/-- The listing that the conflict check of the push has accepted. -/
def Accepted (v : Pushing) (snapshots : List ResticSnapshot) : Prop :=
  v.listed = some snapshots ∧ ∃ project, v.project = some project ∧
    ∀ latest ∈ latestSnapshot P snapshots, latest.id = project.lastSyncSnapshotId

end Pushing

def pushing : Monitor Cmd Cmd.Answer Pushing where
  step := Pushing.step P timeouts
  allows _ _ := True
  expects _ _ _ := True

/-- A push that succeeds has a listing that its conflict check accepted. -/
def PushOutcome (r : Except Failure Response) (v : Pushing) : Prop :=
  ∀ result, r = .ok ⟨200, .pushed result⟩ → ∃ snapshots, v.Accepted P snapshots

end Platform

section Meets
variable {P : Platform} {timeouts : ResticTimeouts} {v : Pushing}

/-- The commands that a push sees neither a row nor a listing by. -/
def Cmd.ShowsNothing : Cmd → Prop
  | .projectsGet _ | .restic _ .snapshots => False
  | _ => True

theorem showsNothing_meets {α : Type} {task : Op α} (h : task.Only Cmd.ShowsNothing)
    {Q : Except Failure α → Pushing → Prop} (hQ : ∀ r, Q r v) : task.Meets (pushing P timeouts) v Q := by
  refine h.meets (fun c hc => ⟨trivial, fun a => ?_⟩) hQ
  cases c with
  | projectsGet id => exact hc.elim
  | restic projectId op =>
      cases op with
      | snapshots => exact hc.elim
      | _ => rfl
  | _ => rfl

theorem showsNothing_fs (op : FsOp) : (Op.fs op).Only Cmd.ShowsNothing := only_fs trivial

theorem showsNothing_secretsList (projectId : JsString) :
    (secretsDataListForProject projectId).Only Cmd.ShowsNothing := only_query trivial

theorem showsNothing_repoInitialized (client : ResticClient) : (client.repoInitialized P).Only Cmd.ShowsNothing :=
  only_run trivial

theorem showsNothing_init (client : ResticClient) : (client.init P).Only Cmd.ShowsNothing := only_run trivial

/-- Once there is a listing, nothing changes any more. -/
theorem listed_meets {α : Type} {snapshots : List ResticSnapshot} (hlisted : v.listed = some snapshots)
    (task : Op α) {Q : Except Failure α → Pushing → Prop} (hQ : ∀ r, Q r v) :
    task.Meets (pushing P timeouts) v Q := by
  have hsome : ¬ v.listed.isNone = true := by
    rw [hlisted]
    exact Bool.false_ne_true
  refine (Prog.only_true task).meets (fun c _ => ⟨trivial, fun a => ?_⟩) hQ
  cases c with
  | projectsGet id =>
      cases a with
      | error e => rfl
      | ok row => exact if_neg hsome
  | restic projectId op =>
      cases op with
      | snapshots => exact if_neg hsome
      | _ => rfl
  | _ => rfl

theorem pushing_projectsDataGet {id : JsString} {Q : Except Failure (Option Project) → Pushing → Prop}
    (hlisted : v.listed = none) (hok : ∀ row, Q (.ok row) { v with project := row.or v.project })
    (herror : ∀ e, Q (.error e) v) : (projectsDataGet id).Meets (pushing P timeouts) v Q := by
  rw [projectsDataGet, meets_bind, meets_lift]
  refine ⟨trivial, fun a _ => ?_⟩
  rw [then_ok, meets_ofExcept]
  cases a with
  | error e => exact herror e
  | ok row =>
      have hstep : (pushing P timeouts).step v (.projectsGet id) (.ok row) =
          { v with project := row.or v.project } := if_pos (by rw [hlisted]; rfl)
      rw [hstep]
      exact hok row

theorem pushing_snapshots {client : ResticClient} {Q : Except Failure (List ResticSnapshot) → Pushing → Prop}
    (hlisted : v.listed = none)
    (hQ : ∀ r : Except Failure (List ResticSnapshot), Q r { v with listed := r.toOption }) :
    (client.snapshots P).Meets (pushing P client.timeouts) v Q := by
  rw [ResticClient.snapshots, meets_bind, ResticClient.run, meets_lift]
  refine ⟨trivial, fun a _ => ?_⟩
  have hstep : (pushing P client.timeouts).step v (.restic client.project.id .snapshots) a =
      { v with listed := (snapshotsResult P client.timeouts a.result).toOption } :=
    if_pos (by rw [hlisted]; rfl)
  rw [then_ok, hstep, meets_ofExcept]
  exact hQ _

theorem pushing_prepareRepository {client : ResticClient} {Q : Except Failure (List ResticSnapshot) → Pushing → Prop}
    (hlisted : v.listed = none)
    (hQ : ∀ r : Except Failure (List ResticSnapshot), Q r { v with listed := r.toOption }) :
    (prepareRepository P client).Meets (pushing P client.timeouts) v Q := by
  have hnone : ∀ e, Q (.error e) v := by
    intro e
    have h := hQ (.error e)
    rw [show ({ v with listed := (Except.error e : Except Failure (List ResticSnapshot)).toOption } : Pushing) = v
      from by rw [Except.toOption, ← hlisted]] at h
    exact h
  rw [prepareRepository, meets_bind]
  refine showsNothing_meets (showsNothing_repoInitialized client) fun r => ?_
  cases r with
  | error e => exact hnone e
  | ok initialized =>
      rw [then_ok]
      split_ifs
      · rw [meets_bind]
        refine showsNothing_meets (showsNothing_init client) fun r => ?_
        cases r with
        | error e => exact hnone e
        | ok => exact pushing_snapshots hlisted hQ
      · exact pushing_snapshots hlisted hQ

/-- What follows the conflict check keeps the listing that it accepted. -/
theorem pushing_pushSecrets (client : ResticClient) (pushedBy : Option JsString) (hlisted : v.listed = none)
    (hproject : v.project = some client.project) :
    (pushSecrets P client pushedBy).Meets (pushing P client.timeouts) v fun r v' =>
      ∀ result, r = .ok result → ∃ snapshots, v'.Accepted P snapshots := by
  rw [pushSecrets, meets_bind]
  refine showsNothing_meets (showsNothing_secretsList _) fun r => ?_
  cases r with
  | error e => exact fun result h => by cases h
  | ok secrets =>
      rw [then_ok, meets_bind]
      refine showsNothing_meets (Prog.Only.foldlM (only_exportSecret fun _ => trivial) _ _) fun r => ?_
      cases r with
      | error e => exact fun result h => by cases h
      | ok dir =>
          rw [then_ok, meets_bind]
          refine pushing_prepareRepository hlisted fun r => ?_
          cases r with
          | error e => exact fun result h => by cases h
          | ok snapshots =>
              rw [then_ok, meets_bind]
              refine meets_checkNoConflict P (fun hcheck => ?_) fun e result h => by cases h
              rw [then_ok]
              exact listed_meets rfl _ fun r result _ => ⟨snapshots, rfl, client.project, hproject, hcheck⟩

theorem pushing_resticSyncPush {project : Project} {pushedBy : Option JsString} (hlisted : v.listed = none)
    (hproject : v.project = some project) :
    (resticSyncPush P timeouts project pushedBy).Meets (pushing P timeouts) v fun r v' =>
      ∀ result, r = .ok result → ∃ snapshots, v'.Accepted P snapshots := by
  rw [resticSyncPush, syncQueueRun, resticSyncPushUnlocked, meets_bind, rereadProject, meets_bind]
  refine pushing_projectsDataGet hlisted (fun fresh => ?_) fun e result h => by cases h
  rw [then_ok, meets_pure, then_ok, withWorkDir, meets_bind]
  refine showsNothing_meets (showsNothing_fs _) fun r => ?_
  have hrow : fresh.or v.project = some (fresh.getD project) := by
    rw [hproject]
    cases fresh <;> rfl
  cases r with
  | error e => exact fun result h => by cases h
  | ok =>
      rw [then_ok, meets_tryFinally, meets_bind]
      have hremove : ∀ (r : Except Failure PushResult) (v' : Pushing),
          (∀ result, r = .ok result → ∃ snapshots, v'.Accepted P snapshots) →
          Finally (pushing P timeouts) Op.removeWorkDir
            (fun r v' => ∀ result, r = .ok result → ∃ snapshots, v'.Accepted P snapshots) r v' := by
        intro r v' h
        refine showsNothing_meets (showsNothing_fs _) fun removed => ?_
        cases removed with
        | error e => exact fun result h => by cases h
        | ok =>
            rw [then_ok, meets_ofExcept]
            exact h
      refine showsNothing_meets (showsNothing_fs _) fun r => ?_
      cases r with
      | error e => exact hremove _ _ fun result h => by cases h
      | ok =>
          have hsecrets := pushing_pushSecrets (P := P) (v := { v with project := fresh.or v.project })
            ⟨fresh.getD project, timeouts⟩ pushedBy hlisted hrow
          exact hsecrets.mono hremove

theorem pushing_push (id : JsString) (pushedBy : Option JsString) :
    (push P timeouts id pushedBy).Meets (pushing P timeouts) .start (PushOutcome P) := by
  rw [push, syncRoute, meets_bind]
  refine pushing_projectsDataGet rfl (fun row => ?_) fun e result h => by cases h
  rw [then_ok]
  cases row with
  | none => exact fun result h => by cases h
  | some project =>
      dsimp only
      rw [meets_tryCatch, meets_bind]
      refine (pushing_resticSyncPush rfl rfl).mono fun r v' haccepted => ?_
      cases r with
      | error e =>
          intro result h
          have hbody : (sendSyncError e).body = .pushed result := congrArg Response.body (Except.ok.inj h)
          cases e <;> cases hbody
      | ok pushed => exact fun result _ => haccepted pushed rfl

end Meets

/-! ## The outline of a fleet -/

section Fleet
variable {R : Type} {restic : Restic R} {P : Platform} {timeouts : ResticTimeouts}
  {admits : Request → Prop} {held : R → List ResticSnapshot} {first : List ResticSnapshot} {f f' : Fleet R}
  {t d : Nat}

/-- What a command does to the snapshots: a backup can add one. -/
theorem held_of_exec (hrestic : SharedRepository P timeouts restic held) {c : Cmd} {a : c.Answer}
    (h : FleetExec restic t d f c a f') :
    held f'.repository = held f.repository ∨
      (∃ projectId dir pushedBy, c = .restic projectId (.backup dir pushedBy)) ∧
        ∃ s, held f'.repository = held f.repository ++ [s] ∧ ∀ s' ∈ held f.repository, s'.id ≠ s.id := by
  obtain ⟨w, w', -, hexec, rfl⟩ := h
  cases c with
  | projectsGet id | projectsGetByName name | projectsList | secretsList projectId | secretsGet id | fs op =>
      exact Or.inl (by rw [hexec.1]; rfl)
  | now => exact Or.inl (by rw [show w' = _ from hexec]; rfl)
  | transact tx =>
      rcases exec_transact hexec with ⟨e, -, -, rfl⟩ | ⟨db, n, -, -, rfl⟩
      · exact Or.inl rfl
      · exact Or.inl rfl
  | acquire lock =>
      rcases hexec with ⟨m, -, rfl⟩ | ⟨-, -, rfl⟩
      · exact Or.inl rfl
      · exact Or.inl rfl
  | release lock => exact Or.inl (by rw [show w' = _ from hexec]; rfl)
  | uuid =>
      obtain ⟨-, rfl⟩ := hexec
      exact Or.inl rfl
  | restic projectId op =>
      obtain ⟨r, hrun, rfl⟩ := hexec
      cases op with
      | backup dir pushedBy =>
          rcases hrestic.backup hrun with ⟨hsame, -⟩ | hadded
          · exact Or.inl hsame
          · exact Or.inr ⟨⟨projectId, dir, pushedBy, rfl⟩, hadded⟩
      | _ => exact Or.inl (hrestic.others hrun fun dir pushedBy heq => by cases heq)

theorem held_prefix_of_exec (hrestic : SharedRepository P timeouts restic held) {c : Cmd} {a : c.Answer}
    (h : FleetExec restic t d f c a f') : held f.repository <+: held f'.repository := by
  rcases held_of_exec hrestic h with hsame | ⟨-, s, hadded, -⟩
  · exact hsame.symm ▸ List.prefix_rfl
  · exact hadded.symm ▸ List.prefix_append _ _

/-- The snapshots of the start are still there, and the ids are unique. -/
structure FleetInv (held : R → List ResticSnapshot) (first : List ResticSnapshot) (f : Fleet R) : Prop where
  first : first <+: held f.repository
  ids : Distinct ResticSnapshot.id (held f.repository)

/-- A listing shows what the repository held then, and it has only grown since. -/
def KnowsListing (held : R → List ResticSnapshot) (first : List ResticSnapshot) (v : Pushing) (f : Fleet R) : Prop :=
  ∀ snapshots, v.listed = some snapshots → ∃ then_, first <+: then_ ∧ then_ <+: held f.repository ∧
    ∀ s, s ∈ snapshots ↔ s ∈ then_

theorem fleetInv_exec (hrestic : SharedRepository P timeouts restic held) {c : Cmd} {a : c.Answer}
    (hinv : FleetInv held first f) (h : FleetExec restic t d f c a f') : FleetInv held first f' := by
  refine ⟨hinv.first.trans (held_prefix_of_exec hrestic h), ?_⟩
  rcases held_of_exec hrestic h with hsame | ⟨-, s, hadded, hnew⟩
  · rw [hsame]
    exact hinv.ids
  · rw [hadded, Distinct, List.map_append]
    refine List.Nodup.append hinv.ids (List.nodup_singleton _) ?_
    intro id hid hs
    obtain ⟨s', hs', rfl⟩ := List.mem_map.mp hid
    exact hnew s' hs' (List.mem_singleton.mp hs)

theorem knowsListing_exec (hrestic : SharedRepository P timeouts restic held) {c : Cmd} {a : c.Answer} {v : Pushing}
    (hinv : FleetInv held first f) (hk : KnowsListing held first v f) (h : FleetExec restic t d f c a f') :
    KnowsListing held first (v.step P timeouts c a) f' := by
  have hgrown := held_prefix_of_exec hrestic h
  have hkept : KnowsListing held first v f' := by
    intro snapshots hlisted
    obtain ⟨then_, hfirst, hthen, hmem⟩ := hk snapshots hlisted
    exact ⟨then_, hfirst, hthen.trans hgrown, hmem⟩
  cases c with
  | projectsGet id =>
      cases a with
      | error e => exact hkept
      | ok fresh =>
          rw [Pushing.step]
          split_ifs
          · exact hkept
          · exact hkept
  | restic projectId op =>
      cases op with
      | snapshots =>
          rw [Pushing.step]
          split_ifs
          · intro snapshots hlisted
            obtain ⟨w, w', -, hexec, rfl⟩ := h
            obtain ⟨r, hrun, -⟩ := hexec
            cases hresult : snapshotsResult P timeouts a.result with
            | error e => rw [hresult] at hlisted; cases hlisted
            | ok listed =>
                rw [hresult] at hlisted
                cases hlisted
                exact ⟨held f.repository, hinv.first, hgrown, hrestic.listing hrun hresult⟩
          · exact hkept
      | _ => exact hkept
  | _ => exact hkept

theorem fleetOutline (hrestic : SharedRepository P timeouts restic held) (first : List ResticSnapshot) :
    Outline (fleet P timeouts restic admits) (fun _ => pushing P timeouts) .start (FleetInv held first)
      (fun _ _ => KnowsListing held first)
      (fun request => match request.operation with | .push _ _ => PushOutcome P | _ => fun _ _ => True) where
  body request _ := by
    obtain ⟨d, op⟩ := request
    cases op with
    | push id pushedBy => exact pushing_push id pushedBy
    | _ => exact (Prog.only_true _).meets_true fun _ _ _ => trivial
  expects _ _ _ := trivial
  spawn _ _ _ _ := fun snapshots h => by cases h
  inv hinv _ _ h := fleetInv_exec hrestic hinv h
  self hinv hk _ h := knowsListing_exec hrestic hinv hk h
  other _ _ _ _ h hk := by
    intro snapshots hlisted
    obtain ⟨then_, hfirst, hthen, hmem⟩ := hk snapshots hlisted
    exact ⟨then_, hfirst, hthen.trans (held_prefix_of_exec hrestic h), hmem⟩
  environment _ h := h.elim

/-! ## Pushes -/

/-- What the monitor of pushes has seen in a trace. -/
def pushingAfter (P : Platform) (timeouts : ResticTimeouts) (trace : List (Event (Fleet R) Cmd Cmd.Answer)) : Pushing :=
  (pushing P timeouts).after .start trace

/-- Every other snapshot of the repository that is ordered before the created one was listed. -/
def BuriesNothing (P : Platform) (held : R → List ResticSnapshot) (snapshots : List ResticSnapshot)
    (created : ResticSnapshot) (cfg : Config (Fleet R) Cmd Cmd.Answer Failure Response Request) : Prop :=
  ∀ s ∈ held cfg.world.repository, s ≠ created → compareSnapshots P s created < 0 → s ∈ snapshots

/-- No backup that ran after the listing was taken has added another snapshot that is ordered before the
created one. -/
def NoneAddedBefore (P : Platform) (held : R → List ResticSnapshot) (snapshots : List ResticSnapshot)
    (created : ResticSnapshot) (cfg : Config (Fleet R) Cmd Cmd.Answer Failure Response Request) : Prop :=
  ∀ th ∈ cfg.threads, ∀ e ∈ th.trace,
    (∃ projectId dir pushedBy, e.cmd = .restic projectId (.backup dir pushedBy)) →
    (∀ s ∈ snapshots, s ∈ held e.before.repository) →
    ∀ s, held e.after.repository = held e.before.repository ++ [s] → s ≠ created →
      ¬ compareSnapshots P s created < 0

/-- **Buried snapshots.** A push that has succeeded buries nothing if and only if no backup since its accepted
listing has added another snapshot that is ordered before its own. -/
theorem push_buries_nothing_iff (hrestic : SharedRepository P timeouts restic held) {f₀ : Fleet R}
    (hids : Distinct ResticSnapshot.id (held f₀.repository))
    {cfg : Config (Fleet R) Cmd Cmd.Answer Failure Response Request}
    (h : (fleet P timeouts restic admits).Reachable f₀ cfg) {th : Thread (Fleet R) Cmd Cmd.Answer Failure Response Request}
    (hth : th ∈ cfg.threads) {d : Nat} {id : JsString} {pushedBy : Option JsString}
    (hreq : th.req = ⟨d, .push id pushedBy⟩) {pushed : PushResult}
    (hresult : th.prog.result? = some (.ok ⟨200, .pushed pushed⟩)) :
    ∃ snapshots, (pushingAfter P timeouts th.trace).Accepted P snapshots ∧
      (BuriesNothing P held snapshots ⟨pushed.snapshotId, pushed.snapshotTime⟩ cfg ↔
        NoneAddedBefore P held snapshots ⟨pushed.snapshotId, pushed.snapshotTime⟩ cfg) := by
  have O : Outline (fleet P timeouts restic admits) _ _ _ _ _ := fleetOutline hrestic (held f₀.repository)
  have h₀ : FleetInv held (held f₀.repository) f₀ := ⟨List.prefix_rfl, hids⟩
  have hgood := O.good h₀ h
  obtain ⟨t, ht⟩ := List.getElem?_of_mem hth
  have hthread := hgood.threads t th ht
  have hpost : PushOutcome P (.ok ⟨200, .pushed pushed⟩) (pushingAfter P timeouts th.trace) := by
    have hmeets := hthread.meets.result hresult
    rw [hreq] at hmeets
    exact hmeets
  obtain ⟨snapshots, haccepted⟩ := hpost pushed rfl
  obtain ⟨then_, hfirst, hthen, hlisted⟩ := hthread.assert snapshots haccepted.1
  have hgrows := O.past_rel (Q := fun f f' : Fleet R => held f.repository <+: held f'.repository)
    (fun _ => List.prefix_rfl) List.IsPrefix.trans (fun he => held_prefix_of_exec hrestic he.exec)
    (fun _ henv => henv.elim) h₀ h
  refine ⟨snapshots, haccepted, fun hburies th' hth' e he _ hbefore s hadded hne hless => ?_, fun hnone s hs hne hless => ?_⟩
  · -- an added snapshot is new, so the listing does not have it
    have hnow : s ∈ held cfg.world.repository := by
      refine (hgrows th' hth' e he).2.mem ?_
      rw [hadded]
      exact List.mem_append_right _ (List.mem_singleton.mpr rfl)
    have hold := hbefore s (hburies s hnow hne hless)
    have hnodup : Distinct ResticSnapshot.id (held e.after.repository) := by
      obtain ⟨t', ht'⟩ := List.getElem?_of_mem hth'
      obtain ⟨earlier, later, hsplit⟩ := List.append_of_mem he
      have hevent := (hgood.threads t' th' ht').past earlier e later hsplit
      exact (fleetInv_exec hrestic hevent.inv hevent.exec).ids
    rw [hadded, Distinct, List.map_append] at hnodup
    exact (List.nodup_append.mp hnodup).2.2 s.id (List.mem_map_of_mem hold) s.id (List.mem_singleton.mpr rfl) rfl
  · by_contra hmissing
    have hnew : s ∉ then_ := fun hmem => hmissing ((hlisted s).mpr hmem)
    rcases System.Reachable.gained (H := fun f : Fleet R => s ∈ held f.repository) (fun _ _ (henv : False) => henv.elim) h hs
      with hold | ⟨th', hth', e, he, hbefore, hafter⟩
    · exact hnew (hfirst.mem hold)
    · obtain ⟨t', ht'⟩ := List.getElem?_of_mem hth'
      obtain ⟨earlier, later, hsplit⟩ := List.append_of_mem he
      have hevent := (hgood.threads t' th' ht').past earlier e later hsplit
      rcases held_of_exec hrestic hevent.exec with hsame | ⟨hbackup, s', hadded, -⟩
      · exact hbefore (hsame ▸ hafter)
      · have hss : s = s' := by
          rw [hadded] at hafter
          rcases List.mem_append.mp hafter with hold | hlast
          · exact absurd hold hbefore
          · exact List.mem_singleton.mp hlast
        subst hss
        -- the repository at the listing is an earlier one than that of the backup
        have hthen' : then_ <+: held e.before.repository := by
          rcases List.prefix_or_prefix_of_prefix hthen (hgrows th' hth' e he).1 with hpre | hpre
          · exact hpre
          · rcases List.prefix_or_prefix_of_prefix hthen (hgrows th' hth' e he).2 with hpre' | hpre'
            · rw [hadded] at hpre'
              rcases List.prefix_concat_iff.mp hpre' with heq | hpre''
              · exact absurd (heq ▸ List.mem_append_right _ (List.mem_singleton.mpr rfl)) hnew
              · exact hpre''
            · exact absurd (hpre'.mem hafter) hnew
        exact hnone th' hth' e he hbackup (fun y hy => hthen'.mem ((hlisted y).mp hy)) s hadded hne hless

end Fleet

/-! ## Runs of a fleet -/

section Example
variable {R : Type}

/-- The answer of a command in its deployment, and the next fleet. -/
def fleetAct (run : R → ResticOp → ResticAnswer × R) (t d : Nat) (f : Fleet R) (c : Cmd) (fresh : JsString) :
    Option (c.Answer × Fleet R) :=
  match f.deployments[d]? with
  | some w =>
      (act run t (w.withRepository f.repository) c fresh).map fun next =>
        (next.1, ⟨f.deployments.set d (next.2.withRepository ()), next.2.repository⟩)
  | none => none

theorem fleetAct_exec {restic : Restic R} {run : R → ResticOp → ResticAnswer × R}
    (hrun : ∀ r projectId op, restic.run r projectId op (run r op).1 (run r op).2) {t d : Nat} {f f' : Fleet R}
    {c : Cmd} {fresh : JsString} {a : c.Answer} (h : fleetAct run t d f c fresh = some (a, f')) :
    FleetExec restic t d f c a f' := by
  rw [fleetAct] at h
  split at h
  · rename_i w hw
    obtain ⟨⟨a', w'⟩, hact, heq⟩ := Option.map_eq_some_iff.mp h
    cases heq
    exact ⟨w, w', hw, act_exec hrun hact, rfl⟩
  · cases h

/-- A repository with room for two snapshots, by their number. -/
def smallIds (n : Fin 3) : List JsString := [js "s1", js "s2"].take n

def smallRun (n : Fin 3) : ResticOp → ResticAnswer × Fin 3
  | .repositoryCheck | .snapshots => (⟨exited 0 (Snapshots.listingText (smallIds n)) [], []⟩, n)
  | .init => (⟨exited 1 [] (js "Fatal: create repository failed: config file already exists"), []⟩, n)
  | .snapshot id =>
      if id ∈ smallIds n then (⟨exited 0 (Snapshots.listingText [id]) [], []⟩, n)
      else (⟨exited 1 [] (js "no matching ID found for prefix"), []⟩, n)
  | .backup _ _ =>
      match n with
      | 0 => (⟨exited 0 (Snapshots.summaryText (js "s1")) [], []⟩, 1)
      | 1 => (⟨exited 0 (Snapshots.summaryText (js "s2")) [], []⟩, 2)
      | 2 => (⟨exited 1 [] (js "no space left on device"), []⟩, 2)
  | .restore _ => (⟨exited 1 [] (js "no matching ID found for prefix"), []⟩, n)

def smallRestic : Restic (Fin 3) where
  run n _ op a n' := (a, n') = smallRun n op
  outside _ _ := False
  snapshot? _ _ _ := none

def smallHeld (n : Fin 3) : List ResticSnapshot := (smallIds n).map fun id => ⟨id, Snapshots.snapshotTime⟩

theorem smallListing (n : Fin 3) : snapshotsResult runPlatform exampleTimeouts
    (exited 0 (Snapshots.listingText (smallIds n)) []) = .ok (smallHeld n) := by
  match n with
  | 0 => rfl
  | 1 => rfl
  | 2 => rfl

theorem sharedRepository_small : SharedRepository runPlatform exampleTimeouts smallRestic smallHeld where
  listing {n projectId a n' snapshots} h hresult s := by
    have hrun : (a, n') = smallRun n .snapshots := h
    cases hrun
    rw [smallListing] at hresult
    rw [Except.ok.inj hresult]
  backup {n projectId dir pushedBy a n'} h := by
    have hrun : (a, n') = smallRun n (.backup dir pushedBy) := h
    match n with
    | 0 =>
        cases hrun
        exact Or.inr ⟨⟨js "s1", Snapshots.snapshotTime⟩, rfl, by decide⟩
    | 1 =>
        cases hrun
        exact Or.inr ⟨⟨js "s2", Snapshots.snapshotTime⟩, rfl, by decide⟩
    | 2 =>
        cases hrun
        exact Or.inl ⟨rfl, fun createdId hresult => by cases hresult⟩
  others {n projectId op a n'} h hop := by
    have hrun : (a, n') = smallRun n op := h
    have hsame : n' = n := by
      cases op with
      | backup dir pushedBy => exact absurd rfl (hop dir pushedBy)
      | snapshot id =>
          rw [smallRun] at hrun
          split_ifs at hrun <;> exact (Prod.mk.inj hrun).2
      | _ => exact (Prod.mk.inj hrun).2
    rw [hsame]

/-- Deployments that have never synchronized, on an empty repository. -/
def emptyFleet (n : Nat) : Fleet (Fin 3) where
  deployments := List.replicate n (.initial neverSyncedDb ())
  repository := 0

def pushFrom (d : Nat) : Request := ⟨d, .push (js "p") none⟩

def fleetSteps (t n : Nat) : List (Move Request JsString) := List.replicate n (.run t exampleNow)

noncomputable def playFleet (moves : List (Move Request JsString)) (f : Fleet (Fin 3)) :
    Option (Config (Fleet (Fin 3)) Cmd Cmd.Answer Failure Response Request) :=
  play (fun request => serve runPlatform exampleTimeouts request.operation)
    (fun t request _ => fleetAct smallRun t request.deployment) moves ⟨f, []⟩

theorem playFleet_reachable {moves : List (Move Request JsString)} {f : Fleet (Fin 3)}
    {cfg : Config (Fleet (Fin 3)) Cmd Cmd.Answer Failure Response Request} (h : playFleet moves f = some cfg) :
    (fleet runPlatform exampleTimeouts smallRestic fun _ => True).Reachable f cfg := by
  have hact : ∀ (t : Nat) (request : Request) (trace : List (Event (Fleet (Fin 3)) Cmd Cmd.Answer))
      (f : Fleet (Fin 3)) (c : Cmd) (fresh : JsString) (a : c.Answer) (f' : Fleet (Fin 3)),
      fleetAct smallRun t request.deployment f c fresh = some (a, f') →
      (fleet runPlatform exampleTimeouts smallRestic fun _ => True).exec t request trace f c a f' :=
    fun _ _ _ _ _ _ _ _ h => fleetAct_exec (fun _ _ _ => rfl) h
  exact play_steps hact (fun _ _ => trivial) h

def pushed (id : String) : Response := ⟨200, .pushed ⟨js id, Snapshots.snapshotTime⟩⟩

/-- One push to an empty repository. -/
theorem push_buries_nothing_single :
    ∃ cfg, ∃ th ∈ cfg.threads, (fleet runPlatform exampleTimeouts smallRestic fun _ => True).Reachable
        (emptyFleet 1) cfg ∧ th.prog.result? = some (.ok (pushed "s1")) ∧
      ∃ snapshots, (pushingAfter runPlatform exampleTimeouts th.trace).Accepted runPlatform snapshots ∧
        BuriesNothing runPlatform smallHeld snapshots ⟨js "s1", Snapshots.snapshotTime⟩ cfg ∧
        NoneAddedBefore runPlatform smallHeld snapshots ⟨js "s1", Snapshots.snapshotTime⟩ cfg := by
  obtain ⟨cfg, hplay, hends⟩ : ∃ cfg, playFleet (.spawn (pushFrom 0) :: fleetSteps 0 16) (emptyFleet 1) = some cfg ∧
      (cfg.threads.map fun th => (th.req, th.prog.result?)) = [(pushFrom 0, some (.ok (pushed "s1")))] :=
    Option.map_eq_some_iff.mp rfl
  have hheld : (playFleet (.spawn (pushFrom 0) :: fleetSteps 0 16) (emptyFleet 1)).map
      (fun cfg => smallHeld cfg.world.repository) = some [⟨js "s1", Snapshots.snapshotTime⟩] := rfl
  rw [hplay, Option.map_some, Option.some.injEq] at hheld
  obtain ⟨th, hth, hend⟩ := List.mem_map.mp (hends ▸ List.mem_singleton.mpr rfl :
    (pushFrom 0, some (.ok (pushed "s1"))) ∈ cfg.threads.map fun th => (th.req, th.prog.result?))
  obtain ⟨hreq, hresult⟩ := Prod.mk.inj hend
  have hreachable := playFleet_reachable hplay
  obtain ⟨snapshots, haccepted, hiff⟩ := push_buries_nothing_iff sharedRepository_small (by decide) hreachable hth
    hreq hresult
  have hburies : BuriesNothing runPlatform smallHeld snapshots ⟨js "s1", Snapshots.snapshotTime⟩ cfg := by
    intro s hs hne
    rw [hheld] at hs
    exact absurd (List.mem_singleton.mp hs) hne
  exact ⟨cfg, th, hth, hreachable, hresult, snapshots, haccepted, hburies, hiff.mp hburies⟩

/-- Both pushes list the empty repository before either runs its backup. -/
def racingMoves : List (Move Request JsString) :=
  .spawn (pushFrom 0) :: fleetSteps 0 8 ++ .spawn (pushFrom 1) :: fleetSteps 1 8 ++ fleetSteps 0 8 ++ fleetSteps 1 8

/-- Both pushes succeed, and the second one, which has listed no snapshot, supersedes that of the first. -/
theorem not_push_buries_nothing :
    ∃ cfg, (fleet runPlatform exampleTimeouts smallRestic fun _ => True).Reachable (emptyFleet 2) cfg ∧
      (cfg.threads.map fun th => (th.req, th.prog.result?)) =
        [(pushFrom 0, some (.ok (pushed "s1"))), (pushFrom 1, some (.ok (pushed "s2")))] ∧
      ∃ th, cfg.threads[1]? = some th ∧ (pushingAfter runPlatform exampleTimeouts th.trace).Accepted runPlatform [] ∧
        ¬ BuriesNothing runPlatform smallHeld [] ⟨js "s2", Snapshots.snapshotTime⟩ cfg := by
  obtain ⟨cfg, hplay, hends⟩ : ∃ cfg, playFleet racingMoves (emptyFleet 2) = some cfg ∧
      (cfg.threads.map fun th => (th.req, th.prog.result?)) =
        [(pushFrom 0, some (.ok (pushed "s1"))), (pushFrom 1, some (.ok (pushed "s2")))] :=
    Option.map_eq_some_iff.mp rfl
  have hlisted : (playFleet racingMoves (emptyFleet 2)).map (fun cfg => cfg.threads[1]?.map fun th =>
      ((pushingAfter runPlatform exampleTimeouts th.trace).listed,
        (pushingAfter runPlatform exampleTimeouts th.trace).project.map Project.id)) =
      some (some (some [], some (js "p"))) := rfl
  have hheld : (playFleet racingMoves (emptyFleet 2)).map (fun cfg => smallHeld cfg.world.repository) =
      some [⟨js "s1", Snapshots.snapshotTime⟩, ⟨js "s2", Snapshots.snapshotTime⟩] := rfl
  rw [hplay, Option.map_some, Option.some.injEq] at hlisted hheld
  obtain ⟨th, hth, hseen⟩ := Option.map_eq_some_iff.mp hlisted
  obtain ⟨hempty, hproject⟩ := Prod.mk.inj hseen
  obtain ⟨project, hproject, -⟩ := Option.map_eq_some_iff.mp hproject
  refine ⟨cfg, playFleet_reachable hplay, hends, th, hth, ⟨hempty, project, hproject, fun latest h => by cases h⟩,
    fun hburies => ?_⟩
  have hfirst : (⟨js "s1", Snapshots.snapshotTime⟩ : ResticSnapshot) ∈ smallHeld cfg.world.repository := by
    rw [hheld]
    exact List.mem_cons_self ..
  exact List.not_mem_nil (hburies _ hfirst (by decide) (by decide))

end Example

end SecretsManager
