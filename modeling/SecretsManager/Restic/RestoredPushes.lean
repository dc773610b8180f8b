import SecretsManager.Restic.FleetAgreement

/-!
# What a restore gives back

A push leaves the secrets that it has listed in the repository, and a pull, a restore or a discard stores what it
reads there. So whoever takes the snapshot of a push, in whatever deployment of the fleet and however the operations
interleave, gets these secrets: under the names that they had, with all their keys and values.
-/

namespace SecretsManager

open Js JsObject Interleaving

variable {R : Type} {restic : Restic R} {P : Platform} {timeouts : ResticTimeouts} {admits : Operation → Prop}

/-! ## In one deployment -/

section Server
variable {db : Db} {repository : R} {cfg : Config (World R) Cmd Cmd.Answer Failure Response Operation}
  {th : Thread (World R) Cmd Cmd.Answer Failure Response Operation} {e : ServerEvent R} {projectId : JsString}

/-- The project of every run of plain requests is tracked at every moment of the past. -/
theorem tracks_past (hparse : ∀ data, P.ParsesBack data) (hf : restic.Faithful) (hreports : restic.Reports P timeouts)
    (hstart : NeverSynced P projectId db) (hproto : ∀ s ∈ db.secrets, protoKey ∉ s.data.keys)
    (h : (server P timeouts restic Operation.Plain).Reachable (.initial db repository) cfg) (hth : th ∈ cfg.threads)
    (he : e ∈ th.trace) : Tracks P restic projectId e.before := by
  have hinitial : Tracks P restic projectId (World.initial db repository) := tracks_plain hparse hf hreports hstart hproto .refl
  refine (((serverOutline P timeouts restic Operation.usesProject).invariant (J := Tracks P restic projectId)
    (fun hlawful hassumed hpast hbefore => ?_) ?_ (inv_initial db repository) hinitial (plain_restricts.steps h)
    (assumed_throughout hf hreports hproto h projectId)).2 th hth e he).1
  · exact Lawful.tracks hparse hf hlawful hassumed.1 hassumed.2 hpast hbefore
  · rintro w w' - ⟨r, hr, rfl⟩ hw
    exact hw.of_db rfl fun _ _ _ => hf.outside hr

/-- The snapshot of a recorded push has the secrets that the push has listed. -/
theorem pushed_content (hparse : ∀ data, P.ParsesBack data) (hf : restic.Faithful) (hreports : restic.Reports P timeouts)
    (hstart : NeverSynced P projectId db) (hproto : ∀ s ∈ db.secrets, protoKey ∉ s.data.keys)
    (h : (server P timeouts restic Operation.Plain).Reachable (.initial db repository) cfg) (hth : th ∈ cfg.threads)
    (he : e ∈ th.trace) {snapshotId time lastSync current : JsString} {n : Nat}
    (hcommitted : committed? e = some (.projectsDataUpdateSyncState projectId snapshotId time lastSync current, n)) :
    ∃ rows content, Listed th.trace projectId rows ∧
      SnapshotContent P restic cfg.world projectId snapshotId content ∧ contentMap content = contentMap (contents rows) := by
  obtain ⟨t, ht⟩ := List.getElem?_of_mem hth
  obtain ⟨earlier, later, hsplit⟩ := List.append_of_mem he
  have hlawful : Lawful P timeouts restic Operation.Plain t th.req th.trace :=
    (((serverOutline P timeouts restic Operation.Plain).good (inv_initial db repository) h).threads t th ht).past
  have hearlier : Lawful P timeouts restic Operation.Plain t th.req earlier := (hsplit ▸ hlawful).of_append
  have hallowed := (hlawful earlier e later hsplit).allowed
  have hown := recordsOwnSnapshot_throughout hf hreports h t th ht earlier e later hsplit
  have hkeeps := (keeps_past hf (inv_initial db repository) h th hth e he).1
  obtain ⟨w, w', rfl⟩ := committed?_eq_some hcommitted
  obtain ⟨rows, dir, hlisted, -, hbackup, hexport⟩ := hallowed.pushed
  have hlists : Listed th.trace projectId rows := by
    rw [hsplit] at hlawful ⊢
    exact hlawful.listed hlisted
  obtain ⟨hnames, hstorable, hkeys⟩ := listed_of_tracks hearlier
    (fun x hx => tracks_past hparse hf hreports hstart hproto h hth (hsplit ▸ List.mem_append_left _ hx)) hlisted
  obtain ⟨content, hread, hcontent⟩ :=
    readSnapshotSecrets_exported hnames hstorable (fun s _ => hparse s.data) hkeys hexport
  exact ⟨rows, content, hlists,
    ⟨dir, hkeeps _ _ _ (hown _ _ _ _ _ _ dir hcommitted hbackup), hread⟩, hcontent⟩

/-- After a replacement the project has the secrets of the snapshot. -/
theorem replaced_content (hf : restic.Faithful)
    (h : (server P timeouts restic admits).Reachable (.initial db repository) cfg) (hth : th ∈ cfg.threads)
    (he : e ∈ th.trace) {secrets : List Secret} {state : ProjectSyncState} {n : Nat}
    (hcommitted : committed? e = some (.secretsDataReplaceForProject projectId secrets state, n)) :
    ∃ content, SnapshotContent P restic cfg.world projectId state.snapshotId content ∧
      contentMap (contents (e.after.db.rows projectId)) = contentMap content := by
  obtain ⟨t, ht⟩ := List.getElem?_of_mem hth
  obtain ⟨earlier, later, hsplit⟩ := List.append_of_mem he
  have hhappened := (((serverOutline P timeouts restic admits).good (inv_initial db repository) h).threads t th ht).past
    earlier e later hsplit
  have hkeeps := (keeps_past hf (inv_initial db repository) h th hth e he).1
  obtain ⟨w, w', rfl⟩ := committed?_eq_some hcommitted
  obtain ⟨-, content, hcontent, hmap⟩ := applied_of_replaces hf hhappened.assert hhappened.allowed hhappened.exec
  exact ⟨content, hcontent.kept hkeeps, hmap⟩

end Server

/-! ## In a fleet -/

section Fleet
variable {dbs : List Db} {repository : R} {cfg : Config (Fleet R) Cmd Cmd.Answer Failure Response Request}
  {d : Nat} {th : Thread (Fleet R) Cmd Cmd.Answer Failure Response Request}

/-- The database that a deployment starts with. -/
def startDb (dbs : List Db) (d : Nat) : Db := (dbs[d]?).getD emptyDb

theorem deployment_startDb (d : Nat) : (Fleet.initial dbs repository).deployment d = .initial (startDb dbs d) repository := by
  cases hdb : dbs[d]? with
  | some db =>
      rw [deployment_initial hdb, startDb, hdb]
      rfl
  | none =>
      rw [startDb, hdb, Fleet.deployment, Fleet.initial, List.getElem?_map, hdb]
      rfl

theorem neverSynced_startDb (hstart : ∀ db ∈ dbs, ∀ projectId, NeverSynced P projectId db) (projectId : JsString) :
    NeverSynced P projectId (startDb dbs d) := by
  cases hdb : dbs[d]? with
  | some db =>
      rw [startDb, hdb]
      exact hstart db (List.mem_of_getElem? hdb) projectId
  | none =>
      rw [startDb, hdb]
      exact ⟨nofun, nofun, nofun⟩

theorem noProto_startDb (hproto : ∀ db ∈ dbs, ∀ s ∈ db.secrets, protoKey ∉ s.data.keys) :
    ∀ s ∈ (startDb dbs d).secrets, protoKey ∉ s.data.keys := by
  cases hdb : dbs[d]? with
  | some db =>
      rw [startDb, hdb]
      exact hproto db (List.mem_of_getElem? hdb)
  | none =>
      rw [startDb, hdb]
      exact nofun

/-- An event as the deployment of its request sees it. -/
def Request.sees (request : Request) (e : Event (Fleet R) Cmd Cmd.Answer) : ServerEvent R :=
  e.map fun f => f.deployment request.deployment

/-- Every request of a fleet is one of its deployment, with the same events. -/
theorem exists_seen (h : (fleet P timeouts restic fun request => request.operation.Plain).Reachable
      (.initial dbs repository) cfg) (hth : th ∈ cfg.threads) :
    ∃ cfg' : Config (World R) Cmd Cmd.Answer Failure Response Operation,
      (server P timeouts restic.shared Operation.Plain).Reachable
        (.initial (startDb dbs th.req.deployment) repository) cfg' ∧
      cfg'.world = cfg.world.deployment th.req.deployment ∧
      ⟨th.req.operation, th.trace.map th.req.sees, th.prog⟩ ∈ cfg'.threads := by
  have hidle : Operation.Plain (.previewPull []) := ⟨trivial, trivial⟩
  have hseen := (component_fleet (d := th.req.deployment) hidle).reachable h
  rw [deployment_startDb] at hseen
  refine ⟨_, hseen, rfl, ?_⟩
  have hmine : Request.to th.req.deployment th.req = some th.req.operation := if_pos rfl
  have hmem := List.mem_map_of_mem (f := Thread.seen (server P timeouts restic.shared Operation.Plain)
    (fun f => f.deployment th.req.deployment) (Request.to th.req.deployment) (.previewPull [])) hth
  rw [Thread.seen_mine hmine] at hmem
  exact hmem

/-- **What one deployment pushes is what another gets.** In every run of a fleet whose deployments edit and synchronize
on their own, let one operation have recorded a push and another, of any deployment with a project of the same
repository, have replaced the secrets by that snapshot. Then the project has, after the replacement, the secrets that
the push had listed. -/
theorem restore_returns_pushed (hparse : ∀ data, P.ParsesBack data) (hf : restic.Faithful)
    (hreports : restic.Reports P timeouts) (hstart : ∀ db ∈ dbs, ∀ projectId, NeverSynced P projectId db)
    (hproto : ∀ db ∈ dbs, ∀ s ∈ db.secrets, protoKey ∉ s.data.keys)
    (h : (fleet P timeouts restic fun request => request.operation.Plain).Reachable (.initial dbs repository) cfg)
    {th th' : Thread (Fleet R) Cmd Cmd.Answer Failure Response Request} (hth : th ∈ cfg.threads) (hth' : th' ∈ cfg.threads)
    {e e' : Event (Fleet R) Cmd Cmd.Answer} (he : e ∈ th.trace) (he' : e' ∈ th'.trace)
    {projectId projectId' snapshotId time lastSync current : JsString} {secrets : List Secret} {state : ProjectSyncState}
    {n n' : Nat}
    (hpushed : committed? (th.req.sees e) =
      some (.projectsDataUpdateSyncState projectId snapshotId time lastSync current, n))
    (hreplaced : committed? (th'.req.sees e') = some (.secretsDataReplaceForProject projectId' secrets state, n'))
    (hsame : state.snapshotId = snapshotId)
    (hshared : ∀ r id, restic.snapshot? r projectId id = restic.snapshot? r projectId' id) :
    ∃ rows, Listed (th.trace.map th.req.sees) projectId rows ∧
      contentMap (contents ((th'.req.sees e').after.db.rows projectId')) = contentMap (contents rows) := by
  obtain ⟨cfg₁, hrun, hworld, hmem⟩ := exists_seen h hth
  obtain ⟨cfg₂, hrun', hworld', hmem'⟩ := exists_seen h hth'
  obtain ⟨rows, content, hlists, hcontent, hlisted⟩ :=
    pushed_content hparse hf.shared hreports.shared (neverSynced_startDb hstart projectId) (noProto_startDb hproto) hrun
      hmem (List.mem_map_of_mem he) hpushed
  obtain ⟨content', hcontent', hstored⟩ := replaced_content hf.shared hrun' hmem' (List.mem_map_of_mem he') hreplaced
  refine ⟨rows, hlists, ?_⟩
  -- both deployments have the one repository of the fleet
  have hsameContent : content' = content := by
    rw [hworld] at hcontent
    rw [hworld', hsame] at hcontent'
    obtain ⟨dir, hdir, hread⟩ := hcontent
    have hdir' : restic.shared.snapshot? (cfg.world.deployment th'.req.deployment).repository projectId' snapshotId =
        some dir := (hshared _ _).symm.trans hdir
    exact hcontent'.unique ⟨dir, hdir', hread⟩
  rw [hstored, hsameContent, hlisted]

end Fleet

section Example

/-- The secret that the second deployment makes of the file. -/
def pulledSecret : Secret :=
  { exampleSecret "a" "1" 1 with id := exampleNow, dateCreated := exampleNow, dateUpdated := exampleNow }

/-- The second deployment, which had no secrets, gets what the first has pushed. -/
theorem restore_returns_pushed_pushThenPull :
    ∃ cfg th th' e', (fleet runPlatform exampleTimeouts SmallRepository.asRestic fun request =>
        request.operation.Plain).Reachable (.initial [neverSyncedDb, withoutSecretsDb] []) cfg ∧
      cfg.threads = [th, th'] ∧ e' ∈ th'.trace ∧
      ∃ rows, Listed (th.trace.map th.req.sees) (js "p") rows ∧
        contentMap (contents ((th'.req.sees e').after.db.rows (js "p"))) = contentMap (contents rows) := by
  obtain ⟨cfg, hplay, hcommits⟩ : ∃ cfg, playAgreement pushThenPull (.initial [neverSyncedDb, withoutSecretsDb] []) =
        some cfg ∧ cfg.threads.map (fun th => th.trace.filterMap fun e => committed? (th.req.sees e)) =
      [[(.projectsDataUpdateSyncState (js "p") (js "s1") Snapshots.snapshotTime hash1 hash1, 1)],
        [(.secretsDataReplaceForProject (js "p") [pulledSecret] ⟨js "s1", Snapshots.snapshotTime, hash1⟩, 1)]] :=
    Option.map_eq_some_iff.mp rfl
  obtain ⟨th, rest, hthreads, hpush, hrest⟩ := List.map_eq_cons_iff.mp hcommits
  obtain ⟨th', rest', rfl, hpull, hnil⟩ := List.map_eq_cons_iff.mp hrest
  obtain rfl := List.map_eq_nil_iff.mp hnil
  obtain ⟨e, he, hpushed⟩ := List.mem_filterMap.mp (hpush ▸ List.mem_singleton_self _)
  obtain ⟨e', he', hreplaced⟩ := List.mem_filterMap.mp (hpull ▸ List.mem_singleton_self _)
  have hadmits : ∀ request, Move.spawn request ∈ pushThenPull → request.operation.Plain := by
    intro request hrequest
    simp only [pushThenPull, fleetSteps, List.mem_append, List.mem_cons, List.mem_replicate, Move.spawn.injEq,
      reduceCtorEq, and_false, or_false] at hrequest
    rcases hrequest with rfl | rfl <;> exact ⟨trivial, trivial⟩
  have hreachable := playAgreement_reachable hadmits hplay
  exact ⟨cfg, th, th', e', hreachable, hthreads, he', restore_returns_pushed parsesBack_runPlatform
    SmallRepository.faithful_asRestic SmallRepository.reports_asRestic neverSynced_example (by decide) hreachable
    (hthreads ▸ List.mem_cons_self) (hthreads ▸ List.mem_cons_of_mem _ List.mem_cons_self) he he' hpushed hreplaced rfl
    fun _ _ => rfl⟩

end Example

end SecretsManager
