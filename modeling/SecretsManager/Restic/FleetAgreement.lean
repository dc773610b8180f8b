import SecretsManager.Library.Components
import SecretsManager.Restic.OwnSnapshots
import SecretsManager.Restic.SharedRepository

/-!
# Deployments that are synchronized

A deployment is a component of its fleet: what the others do is, for it, what other writers do to its
repository. So the flag of local changes is exact in each deployment, and it compares deployments that never
talk to each other: two that are synchronized with the same snapshot have the same secrets when neither has
local changes.
-/

namespace SecretsManager

open Js JsObject Interleaving

variable {R : Type} {restic : Restic R} {P : Platform} {timeouts : ResticTimeouts} {admits : Operation → Prop}
  {t d : Nat}

/-- The same repositories, where other writers also do what a run of restic can do. -/
def Restic.shared (restic : Restic R) : Restic R :=
  { restic with
    outside := fun r r' => restic.outside r r' ∨ ∃ projectId op a, restic.run r projectId op a r' }

theorem Restic.Faithful.shared (hf : restic.Faithful) : restic.shared.Faithful where
  restore := hf.restore
  keeps := hf.keeps
  outside h := by
    rcases h with h | ⟨projectId, op, a, h⟩
    · exact hf.outside h
    · exact hf.keeps h

theorem Restic.Reports.shared (h : restic.Reports P timeouts) : restic.shared.Reports P timeouts :=
  ⟨h.backup, h.listing⟩

theorem exec_shared {w w' : World R} {c : Cmd} {a : c.Answer} (h : Exec restic t w c a w') :
    Exec restic.shared t w c a w' := by
  cases c <;> exact h

/-- A command leaves the repository or runs restic on it. -/
theorem repository_exec {w w' : World R} {c : Cmd} {a : c.Answer} (h : Exec restic t w c a w') :
    w'.repository = w.repository ∨ ∃ projectId op a, restic.run w.repository projectId op a w'.repository := by
  cases c with
  | restic projectId op =>
      obtain ⟨r, hrun, rfl⟩ := h
      exact Or.inr ⟨projectId, op, a, hrun⟩
  | transact tx =>
      rcases exec_transact h with ⟨e, -, -, rfl⟩ | ⟨db, n, -, -, rfl⟩ <;> exact Or.inl rfl
  | acquire lock =>
      rcases h with ⟨m, -, rfl⟩ | ⟨-, -, rfl⟩ <;> exact Or.inl rfl
  | release lock | now =>
      rw [show w' = _ from h]
      exact Or.inl rfl
  | uuid =>
      obtain ⟨-, rfl⟩ := h
      exact Or.inl rfl
  | _ => exact Or.inl (by rw [h.1])

/-! ## A deployment of a fleet -/

/-- The world of a deployment, with the repository that it shares. -/
def Fleet.deployment (f : Fleet R) (d : Nat) : World R :=
  ((f.deployments[d]?).getD (.initial emptyDb ())).withRepository f.repository

def Request.to (d : Nat) (request : Request) : Option Operation :=
  if request.deployment = d then some request.operation else none

theorem Request.to_eq_some {request : Request} {op : Operation} (h : request.to d = some op) :
    request.deployment = d ∧ request.operation = op := by
  rw [Request.to] at h
  split_ifs at h with hd
  exact ⟨hd, Option.some.inj h⟩

theorem Request.to_eq_none {request : Request} (h : request.to d = none) : request.deployment ≠ d := by
  rw [Request.to] at h
  split_ifs at h with hd
  exact hd

theorem deployment_of_getElem? {f : Fleet R} {u : World Unit} (hu : f.deployments[d]? = some u) :
    f.deployment d = u.withRepository f.repository := by
  rw [Fleet.deployment, hu]
  rfl

theorem deployment_set {f : Fleet R} {u : World Unit} (hu : f.deployments[d]? = some u) (w : World R) :
    (⟨f.deployments.set d (w.withRepository ()), w.repository⟩ : Fleet R).deployment d = w := by
  rw [Fleet.deployment, List.getElem?_set_self (List.getElem?_eq_some_iff.mp hu).1]
  rfl

/-- **A deployment is a component of its fleet.** -/
theorem component_fleet (hidle : admits (.previewPull [])) :
    Component (server P timeouts restic.shared admits) (fleet P timeouts restic fun request => admits request.operation)
      (fun f => f.deployment d) (Request.to d) (.previewPull []) where
  idle := hidle
  admits {request op} hadmits hmine := by
    obtain ⟨-, rfl⟩ := Request.to_eq_some hmine
    exact hadmits
  body {request op} hmine := by
    obtain ⟨-, rfl⟩ := Request.to_eq_some hmine
    rfl
  exec {t request op trace f c a f'} hmine hexec := by
    obtain ⟨rfl, -⟩ := Request.to_eq_some hmine
    obtain ⟨u, w', hu, hexec, rfl⟩ := hexec
    show Exec restic.shared t (f.deployment request.deployment) c a _
    rw [deployment_of_getElem? hu, deployment_set hu]
    exact exec_shared hexec
  others {t request trace f c a f'} hmine hexec := by
    obtain ⟨u, w', hu, hexec, rfl⟩ := hexec
    have hd : request.deployment ≠ d := Request.to_eq_none hmine
    have hafter : (⟨f.deployments.set request.deployment (w'.withRepository ()), w'.repository⟩ : Fleet R).deployment d =
        { f.deployment d with repository := w'.repository } := by
      rw [Fleet.deployment, Fleet.deployment, List.getElem?_set_ne hd]
      rfl
    rw [hafter]
    rcases repository_exec hexec with hsame | hrun
    · exact Or.inl (by rw [hsame]; rfl)
    · exact Or.inr ⟨w'.repository, Or.inr hrun, rfl⟩
  environment h := h.elim

/-- Deployments that run nothing yet. -/
def Fleet.initial (dbs : List Db) (repository : R) : Fleet R := ⟨dbs.map fun db => .initial db (), repository⟩

theorem deployment_initial {dbs : List Db} {repository : R} {db : Db} (h : dbs[d]? = some db) :
    (Fleet.initial dbs repository).deployment d = .initial db repository := by
  rw [Fleet.deployment, Fleet.initial, List.getElem?_map, h]
  rfl

theorem length_deployments {f : Fleet R} {cfg : Config (Fleet R) Cmd Cmd.Answer Failure Response Request}
    {admits : Request → Prop} (h : (fleet P timeouts restic admits).Reachable f cfg) :
    cfg.world.deployments.length = f.deployments.length := by
  induction h with
  | refl => rfl
  | tail _ hstep ih =>
      cases hstep with
      | spawn _ => exact ih
      | run _ hexec =>
          obtain ⟨u, w', -, -, rfl⟩ := hexec
          rw [List.length_set]
          exact ih
      | environment henv => exact henv.elim

/-! ## Agreement -/

section Agreement
variable {dbs : List Db} {repository : R} {cfg : Config (Fleet R) Cmd Cmd.Answer Failure Response Request}

/-- Every deployment of a fleet tracks its projects. -/
theorem tracks_deployment (hparse : ∀ data, P.ParsesBack data) (hf : restic.Faithful)
    (hreports : restic.Reports P timeouts) {projectId : JsString} {db : Db} (hdb : dbs[d]? = some db)
    (hstart : NeverSynced P projectId db) (hproto : ∀ s ∈ db.secrets, protoKey ∉ s.data.keys)
    (h : (fleet P timeouts restic fun request => request.operation.Plain).Reachable (.initial dbs repository) cfg) :
    Tracks P restic.shared projectId (cfg.world.deployment d) := by
  have hidle : Operation.Plain (.previewPull []) := ⟨trivial, trivial⟩
  have hseen := (component_fleet (d := d) hidle).reachable h
  rw [deployment_initial hdb] at hseen
  exact tracks_plain hparse hf.shared hreports.shared hstart hproto hseen

/-- **Agreement.** In every state of a fleet whose deployments edit and synchronize on their own, let two projects
of one repository be synchronized with the same snapshot, the first without local changes. Then they have the
same secrets exactly when the second has no local changes either. -/
theorem fleet_agreement (hP : P.HashInjective) (hdigest : ∀ text, P.sha256 text ≠ [])
    (hparse : ∀ data, P.ParsesBack data) (hf : restic.Faithful) (hreports : restic.Reports P timeouts)
    (hstart : ∀ db ∈ dbs, ∀ projectId, NeverSynced P projectId db)
    (hproto : ∀ db ∈ dbs, ∀ s ∈ db.secrets, protoKey ∉ s.data.keys)
    (h : (fleet P timeouts restic fun request => request.operation.Plain).Reachable (.initial dbs repository) cfg)
    {u u' : World Unit} (hu : u ∈ cfg.world.deployments) (hu' : u' ∈ cfg.world.deployments) {p p' : Project}
    (hp : u.db.project? p.id = some p) (hp' : u'.db.project? p'.id = some p')
    (hshared : ∀ r id, restic.snapshot? r p.id id = restic.snapshot? r p'.id id)
    (hsynced : p.lastSyncSnapshotId ≠ []) (hsame : p'.lastSyncSnapshotId = p.lastSyncSnapshotId)
    (hclean : computeHasLocalChanges p (u.db.rows p.id).length = false) :
    contentMap (contents (u.db.rows p.id)) = contentMap (contents (u'.db.rows p'.id)) ↔
      computeHasLocalChanges p' (u'.db.rows p'.id).length = false := by
  have htracks : ∀ {u : World Unit} (_ : u ∈ cfg.world.deployments) (projectId : JsString),
      Tracks P restic.shared projectId (u.withRepository cfg.world.repository) := by
    intro u hu projectId
    obtain ⟨d, hd⟩ := List.getElem?_of_mem hu
    have hlt : d < dbs.length := by
      have hlt := (List.getElem?_eq_some_iff.mp hd).1
      rwa [length_deployments h, Fleet.initial, List.length_map] at hlt
    have hdb := List.getElem_mem hlt
    have hdeployment := tracks_deployment hparse hf hreports (List.getElem?_eq_getElem hlt) (hstart _ hdb projectId)
      (hproto _ hdb) h
    rwa [deployment_of_getElem? hd] at hdeployment
  obtain ⟨hmem, -⟩ := (Tables.project?_eq_some u.db.valid).mp hp
  obtain ⟨content, hcontent, -⟩ := (htracks hu p.id).synced p hmem rfl hsynced
  -- the other deployment has the same repository, and so the same snapshot
  have hcontent' : SnapshotContent P restic.shared (u'.withRepository cfg.world.repository) p'.id p'.lastSyncSnapshotId
      content := by
    obtain ⟨dir, hdir, hread⟩ := hcontent
    rw [hsame]
    exact ⟨dir, (hshared _ _).symm.trans hdir, hread⟩
  have hfirst : computeHasLocalChanges p (u.db.rows p.id).length = true ↔
      contentMap (contents (u.db.rows p.id)) ≠ contentMap content :=
    (htracks hu p.id).computeHasLocalChanges_iff hP hdigest hp hcontent hsynced
  have hsecond : computeHasLocalChanges p' (u'.db.rows p'.id).length = true ↔
      contentMap (contents (u'.db.rows p'.id)) ≠ contentMap content :=
    (htracks hu' p'.id).computeHasLocalChanges_iff hP hdigest hp' hcontent' (hsame ▸ hsynced)
  have hsecrets : contentMap (contents (u.db.rows p.id)) = contentMap content := by
    by_contra hne
    rw [hfirst.mpr hne] at hclean
    cases hclean
  rw [hsecrets, Bool.eq_false_iff, ne_eq, hsecond, not_not]
  exact eq_comm

end Agreement

section Example

/-- A deployment with the same project and no secrets. -/
def withoutSecretsDb : Db where
  projects :=
    [{ exampleProject with lastSyncSnapshotId := [], lastSyncSnapshotTime := [], currentContentHash := emptyHash }]
  secrets := []
  valid := by decide

def pullIn (d : Nat) : Request := ⟨d, .pull (js "p") (some (.str (js "s1"))) none⟩

/-- The first deployment pushes, and the second pulls. -/
def pushThenPull : List (Move Request JsString) :=
  .spawn (pushFrom 0) :: fleetSteps 0 16 ++ .spawn (pullIn 1) :: fleetSteps 1 17

noncomputable def playAgreement (moves : List (Move Request JsString)) (f : Fleet SmallRepository) :
    Option (Config (Fleet SmallRepository) Cmd Cmd.Answer Failure Response Request) :=
  play (fun request => serve runPlatform exampleTimeouts request.operation)
    (fun t request _ => fleetAct SmallRepository.run t request.deployment) moves ⟨f, []⟩

/-- The project of a deployment, with its synchronized snapshot and its flag. -/
def shown (u : World Unit) : Option (JsString × JsString × Bool) :=
  (u.db.project? (js "p")).map fun p =>
    (p.id, p.lastSyncSnapshotId, computeHasLocalChanges p (u.db.rows p.id).length)

theorem project_of_shown {u : World Unit} (h : shown u = some (js "p", js "s1", false)) :
    ∃ p, u.db.project? p.id = some p ∧ p.id = js "p" ∧ p.lastSyncSnapshotId = js "s1" ∧
      computeHasLocalChanges p (u.db.rows p.id).length = false := by
  obtain ⟨p, hp, hshown⟩ := Option.map_eq_some_iff.mp h
  obtain ⟨hid, hrest⟩ := Prod.mk.inj hshown
  obtain ⟨hsynced, hclean⟩ := Prod.mk.inj hrest
  exact ⟨p, hid ▸ hp, hid, hsynced, hclean⟩

theorem playAgreement_reachable {moves : List (Move Request JsString)} {f : Fleet SmallRepository}
    {cfg : Config (Fleet SmallRepository) Cmd Cmd.Answer Failure Response Request}
    (hadmits : ∀ request, Move.spawn request ∈ moves → request.operation.Plain) (h : playAgreement moves f = some cfg) :
    (fleet runPlatform exampleTimeouts SmallRepository.asRestic fun request => request.operation.Plain).Reachable f
      cfg := by
  have hact : ∀ (t : Nat) (request : Request) (trace : List (Event (Fleet SmallRepository) Cmd Cmd.Answer))
      (f : Fleet SmallRepository) (c : Cmd) (fresh : JsString) (a : c.Answer) (f' : Fleet SmallRepository),
      fleetAct SmallRepository.run t request.deployment f c fresh = some (a, f') →
      (fleet runPlatform exampleTimeouts SmallRepository.asRestic fun request => request.operation.Plain).exec t
        request trace f c a f' :=
    fun _ _ _ _ _ _ _ _ h => fleetAct_exec (fun _ _ _ => rfl) h
  exact play_steps hact hadmits h

theorem neverSynced_example : ∀ db ∈ [neverSyncedDb, withoutSecretsDb], ∀ projectId,
    NeverSynced runPlatform projectId db := by
  have hsecret : ∀ projectId, ∀ s ∈ neverSyncedDb.rows projectId, s.toSecretContent.Storable := by
    intro projectId s hs
    rw [List.mem_singleton.mp (Tables.mem_rows.mp hs).1]
    exact ⟨by decide, by unfold SecretData.Keyed; decide⟩
  intro db hdb projectId
  rcases List.mem_cons.mp hdb with rfl | hdb
  · refine ⟨hsecret projectId, fun p hp _ => by rw [List.mem_singleton.mp hp], fun p hp hid => ?_⟩
    rw [List.mem_singleton.mp hp] at hid ⊢
    subst hid
    rfl
  · rw [List.mem_singleton.mp hdb]
    refine ⟨fun s hs => ?_, fun p hp _ => by rw [List.mem_singleton.mp hp], fun p hp hid => ?_⟩
    · exact absurd (Tables.mem_rows.mp hs).1 List.not_mem_nil
    · rw [List.mem_singleton.mp hp] at hid ⊢
      subst hid
      rfl

theorem fleet_agreement_pushThenPull :
    ∃ cfg u u', (fleet runPlatform exampleTimeouts SmallRepository.asRestic fun request =>
        request.operation.Plain).Reachable (.initial [neverSyncedDb, withoutSecretsDb] []) cfg ∧
      cfg.world.deployments = [u, u'] ∧ shown u = some (js "p", js "s1", false) ∧
      contentMap (contents (u.db.rows (js "p"))) = contentMap (contents (u'.db.rows (js "p"))) := by
  obtain ⟨cfg, hplay, hshown⟩ : ∃ cfg, playAgreement pushThenPull (.initial [neverSyncedDb, withoutSecretsDb] []) =
        some cfg ∧ cfg.world.deployments.map shown =
      [some (js "p", js "s1", false), some (js "p", js "s1", false)] :=
    Option.map_eq_some_iff.mp rfl
  obtain ⟨u, rest, hdeployments, hu, hrest⟩ := List.map_eq_cons_iff.mp hshown
  obtain ⟨u', rest', rfl, hu', hnil⟩ := List.map_eq_cons_iff.mp hrest
  obtain rfl := List.map_eq_nil_iff.mp hnil
  have hadmits : ∀ request, Move.spawn request ∈ pushThenPull → request.operation.Plain := by
    intro request hrequest
    simp only [pushThenPull, fleetSteps, List.mem_append, List.mem_cons, List.mem_replicate, Move.spawn.injEq,
      reduceCtorEq, and_false, or_false] at hrequest
    rcases hrequest with rfl | rfl <;> exact ⟨trivial, trivial⟩
  have hreachable := playAgreement_reachable hadmits hplay
  obtain ⟨p, hp, hid, hsynced, hclean⟩ := project_of_shown hu
  obtain ⟨p', hp', hid', hsynced', hclean'⟩ := project_of_shown hu'
  have hagree := fleet_agreement hashInjective_runPlatform digest_runPlatform parsesBack_runPlatform
    SmallRepository.faithful_asRestic SmallRepository.reports_asRestic neverSynced_example (by decide) hreachable
    (hdeployments ▸ List.mem_cons_self) (hdeployments ▸ List.mem_cons_of_mem _ List.mem_cons_self) hp hp'
    (fun _ _ => rfl) (by rw [hsynced]; decide) (hsynced'.trans hsynced.symm) hclean
  rw [hid, hid'] at hagree
  refine ⟨cfg, u, u', hreachable, hdeployments, hu, hagree.mpr ?_⟩
  rwa [hid'] at hclean'

end Example

end SecretsManager
