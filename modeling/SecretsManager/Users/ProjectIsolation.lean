import SecretsManager.Routes
import SecretsManager.Runs

/-!
# Project isolation

A request to a route of a project by a regular user without its scope is answered by the guard alone: the answer
is the same in every state with the same users, and nothing is looked up or started before it. The list of the
projects of a user is computed from all rows, but only the rows that the user may see decide what it is.
-/

namespace SecretsManager

open Js Interleaving SortedBy

variable {U K R : Type} {auth : Auth U K} {P : Platform} {timeouts : ResticTimeouts} {config : StatusConfig}
  {restic : Restic R} {collates : JsString → JsString → Prop} {t : Nat} {credentials : K} {signal : Option Nat}
  {user : User} {s s' : ServerState U R}

theorem projectAccessCanAccess_regular (h : user.isAdmin = false) (projectId : JsString) :
    projectAccessCanAccess user projectId = true ↔ projectScope projectId ∈ user.scopes := by
  rw [projectAccessCanAccess, if_neg (by rw [h]; decide), List.contains_iff_mem]

/-! ## The guards -/

section Denied
variable {id : JsString}

/-- The live user is found without any effect. -/
theorem gives_getUser (hlive : auth.getLiveUser s.users credentials = some user) :
    projectAccessGetUser.Gives (RouteExec auth P config restic collates t credentials signal) s (.ok user) := by
  refine gives_lift_bind (fun _ _ => Iff.rfl) ?_
  rw [hlive]
  exact gives_pure

/-- Without the scope of the project the guard answers, and the rest of the handler does not run. -/
theorem gives_withAccess_denied (hlive : auth.getLiveUser s.users credentials = some user)
    (hregular : user.isAdmin = false) (hscope : projectScope id ∉ user.scopes) {task : User → RouteOp RouteResponse} :
    (withAccess id task).Gives (RouteExec auth P config restic collates t credentials signal) s accessDenied.sent := by
  have hdenied : projectAccessCanAccess user id = false :=
    Bool.eq_false_iff.mpr fun h => hscope ((projectAccessCanAccess_regular hregular id).mp h)
  have hensure : (projectAccessEnsure id).Gives (RouteExec auth P config restic collates t credentials signal) s
      (.error accessDenied) := by
    refine (gives_getUser hlive).bind ?_
    dsimp only
    rw [if_pos hdenied]
    exact gives_pure
  exact hensure.bind gives_pure

theorem gives_deleteProject_denied {response : Response}
    (hadmin : auth.mustBeAdmin s.users credentials = some response) :
    (deleteProjectRoute id).Gives (RouteExec auth P config restic collates t credentials signal) s response.sent := by
  refine gives_lift_bind (fun _ _ => Iff.rfl) ?_
  rw [hadmin]
  exact gives_pure

/-- What a route without access answers, by the users alone. -/
def Route.denial (auth : Auth U K) (users : U) (credentials : K) : Route → RouteResponse
  | .deleteProject => ((auth.mustBeAdmin users credentials).getD accessDenied).sent
  | _ => accessDenied.sent

/-- **Without access every route of a project is answered by its guard**, and nothing else happens. -/
theorem gives_denied (hadmin : auth.RefusesOthers) (hlive : auth.getLiveUser s.users credentials = some user)
    (hregular : user.isAdmin = false) (hscope : projectScope id ∉ user.scopes) (route : Route) :
    (route.handle P timeouts id).Gives (RouteExec auth P config restic collates t credentials signal) s
      (route.denial auth s.users credentials) := by
  cases route with
  | deleteProject =>
      obtain ⟨response, hresponse⟩ := Option.isSome_iff_exists.mp (hadmin _ _ _ hlive hregular)
      have hdenial : Route.deleteProject.denial auth s.users credentials = response.sent := by
        rw [Route.denial, hresponse]
        rfl
      rw [hdenial]
      exact gives_deleteProject_denied hresponse
  | _ => exact gives_withAccess_denied hlive hregular hscope

end Denied

/-! ## The list of projects -/

section Lists

theorem runs_projectsDataList {projects : List Project}
    (h : projectsDataList.route.Runs (RouteExec auth P config restic collates t credentials signal) s (.ok projects) s') :
    s' = s ∧ projects.Perm s.world.db.projects ∧ projects.Pairwise fun p q => collates p.name q.name := by
  have hruns := runs_embed.mp h
  rw [projectsDataList] at hruns
  obtain ⟨a, ⟨_, ⟨w, hexec, hordered, rfl⟩, rfl⟩, ha⟩ := runs_answer.mp hruns
  cases ha
  obtain ⟨rfl, ⟨l, hl, hperm⟩ | ⟨m, hm⟩⟩ := hexec
  · cases hl
    exact ⟨rfl, hperm, hordered⟩
  · cases hm

theorem countOf_eq {db : Db} {counts : List SecretCount} (h : CountsAll db counts) (projectId : JsString) :
    countOf counts projectId = (db.rows projectId).length := by
  unfold countOf
  cases hfind : counts.find? fun count => count.1 = projectId with
  | none =>
      -- a project without a row of the count has no secrets
      have hnone := List.find?_eq_none.mp hfind
      by_contra hne
      have hpos : 0 < (db.rows projectId).length := Nat.pos_of_ne_zero fun hzero => hne hzero.symm
      exact hnone _ ((h.2 _ _).mpr ⟨hpos, rfl⟩) (decide_eq_true rfl)
  | some count =>
      have hid : count.1 = projectId := by simpa using List.find?_some hfind
      subst hid
      exact ((h.2 _ _).mp (List.mem_of_find?_eq_some hfind)).2

theorem filter_visible (user : User) (projects : List Project) :
    (projects.filter fun project => (projectAccessCanAccessMany user (projects.map Project.id)).contains project.id) =
      projects.filter fun project => projectAccessCanAccess user project.id := by
  refine List.filter_congr fun p hp => ?_
  rw [Bool.eq_iff_iff, List.contains_iff_mem]
  exact mem_projectAccessCanAccessMany (List.mem_map_of_mem hp)

/-- The list that `GET /` answers: the visible projects with the counts of their secrets. -/
theorem runs_listProjects (hlive : auth.getLiveUser s.users credentials = some user) {response : RouteResponse}
    (h : (listProjects P).Runs (RouteExec auth P config restic collates t credentials signal) s (.ok response) s') :
    ∃ projects : List Project, projects.Perm s.world.db.projects ∧
      (projects.Pairwise fun p q => collates p.name q.name) ∧
      response = ⟨200, .projects ((projects.filter fun p => projectAccessCanAccess user p.id).map fun p =>
        projectView P p (s.world.db.rows p.id).length)⟩ := by
  rw [listProjects] at h
  obtain ⟨x, s₁, hx, hlist⟩ := runs_bind_ok.mp h
  obtain ⟨heq, rfl⟩ := (gives_getUser hlive _ _).mp hx
  cases heq
  obtain ⟨projects, s₂, hprojects, hcount⟩ := runs_bind_ok.mp hlist
  obtain ⟨rfl, hperm, hordered⟩ := runs_projectsDataList hprojects
  obtain ⟨counts, s₃, hcounts, hend⟩ := runs_bind_ok.mp hcount
  obtain ⟨_, ⟨rfl, hanswer⟩, ha⟩ := runs_answer.mp hcounts
  cases ha
  obtain ⟨_, hok, hall⟩ | ⟨m, hm⟩ := hanswer
  · cases hok
    refine ⟨projects, hperm, hordered, ?_⟩
    obtain ⟨hresponse, -⟩ := runs_pure.mp hend
    rw [Except.ok.inj hresponse, filter_visible]
    simp only [countOf_eq hall]
  · cases hm

/-- The two databases have the same projects among those whose scopes the user has, with as many secrets. -/
def AgreesOn (user : User) (db₁ db₂ : Db) : Prop :=
  ∀ p : Project, projectScope p.id ∈ user.scopes →
    (p ∈ db₁.projects ↔ p ∈ db₂.projects) ∧ (p ∈ db₁.projects → (db₁.rows p.id).length = (db₂.rows p.id).length)

/-- The visible projects of two such databases are listed in the same order. -/
theorem visible_eq (hcollates : ∀ a b, collates a b → collates b a → a = b) (hregular : user.isAdmin = false)
    {db₁ db₂ : Db} (hagrees : AgreesOn user db₁ db₂) {projects₁ projects₂ : List Project}
    (hperm₁ : projects₁.Perm db₁.projects) (hperm₂ : projects₂.Perm db₂.projects)
    (hordered₁ : projects₁.Pairwise fun p q => collates p.name q.name)
    (hordered₂ : projects₂.Pairwise fun p q => collates p.name q.name) :
    (projects₁.filter fun p => projectAccessCanAccess user p.id) =
      projects₂.filter fun p => projectAccessCanAccess user p.id := by
  have hmem : ∀ p, p ∈ projects₁.filter (fun p => projectAccessCanAccess user p.id) ↔
      p ∈ projects₂.filter fun p => projectAccessCanAccess user p.id := by
    intro p
    rw [List.mem_filter, List.mem_filter, projectAccessCanAccess_regular hregular, hperm₁.mem_iff, hperm₂.mem_iff]
    exact and_congr_left fun hscope => (hagrees p hscope).1
  have hnodup : ∀ {db : Db} {projects : List Project}, projects.Perm db.projects →
      (projects.filter fun p => projectAccessCanAccess user p.id).Nodup := fun {db projects} hperm =>
    (hperm.nodup_iff.mpr (List.Nodup.of_map _ db.valid.projectId)).filter _
  refine List.Perm.eq_of_pairwise (fun p q hp hq hpq hqp => ?_) (hordered₁.filter _) (hordered₂.filter _)
    ((List.perm_ext_iff_of_nodup (hnodup hperm₁) (hnodup hperm₂)).mpr hmem)
  -- the names of one database are distinct
  have hp₁ := hperm₁.mem_iff.mp (List.mem_of_mem_filter hp)
  have hq₁ := hperm₁.mem_iff.mp (List.mem_of_mem_filter ((hmem q).mpr hq))
  exact db₁.valid.projectName.inj hp₁ hq₁ (hcollates _ _ hpq hqp)

theorem exists_countsAll (db : Db) : ∃ counts, CountsAll db counts := by
  refine ⟨(db.secrets.map Secret.projectId).dedup.map fun id => (id, (db.rows id).length), ?_, fun projectId n => ?_⟩
  · rw [Distinct, List.map_map]
    exact ((List.map_id _).symm ▸ List.nodup_dedup _)
  · have hsome : projectId ∈ (db.secrets.map Secret.projectId).dedup ↔ 0 < (db.rows projectId).length := by
      rw [List.mem_dedup, List.length_pos_iff_exists_mem, List.mem_map]
      exact exists_congr fun s => Tables.mem_rows.symm
    rw [List.mem_map]
    constructor
    · rintro ⟨id, hid, heq⟩
      obtain ⟨rfl, rfl⟩ := Prod.mk.inj heq
      exact ⟨hsome.mp hid, rfl⟩
    · rintro ⟨hpos, rfl⟩
      exact ⟨projectId, hsome.mpr hpos, rfl⟩

/-- Every state has a successful run of `GET /`, when the collation orders all names. -/
theorem exists_runs_listProjects (htotal : ∀ a b, collates a b ∨ collates b a)
    (htrans : ∀ {a b c}, collates a b → collates b c → collates a c)
    (hlive : auth.getLiveUser s.users credentials = some user) : ∃ response,
      (listProjects P).Runs (RouteExec auth P config restic collates t credentials signal) s (.ok response) s := by
  classical
  have : Std.Total fun p q : Project => collates p.name q.name := ⟨fun p q => htotal p.name q.name⟩
  have : IsTrans Project fun p q => collates p.name q.name := ⟨fun _ _ _ => htrans⟩
  obtain ⟨counts, hcounts⟩ := exists_countsAll s.world.db
  have hordered : Ordered collates .projectsList
      (.ok (s.world.db.projects.insertionSort fun p q => collates p.name q.name)) := List.pairwise_insertionSort _ _
  have hlist : projectsDataList.route.Runs (RouteExec auth P config restic collates t credentials signal) s
      (.ok (s.world.db.projects.insertionSort fun p q => collates p.name q.name)) s :=
    .call ⟨s.world, ⟨rfl, Or.inl ⟨_, rfl, List.perm_insertionSort _ _⟩⟩, hordered, rfl⟩ .ret
  have hcount : (Prog.lift RouteCmd.secretsCountsAll >>= Prog.ofExcept : RouteOp (List SecretCount)).Runs
      (RouteExec auth P config restic collates t credentials signal) s (.ok counts) s :=
    runs_answer.mpr ⟨.ok counts, ⟨rfl, Or.inl ⟨counts, rfl, hcounts⟩⟩, rfl⟩
  let visibleIds := projectAccessCanAccessMany user
    ((s.world.db.projects.insertionSort fun p q => collates p.name q.name).map Project.id)
  let visible := (s.world.db.projects.insertionSort fun p q => collates p.name q.name).filter fun project =>
    visibleIds.contains project.id
  refine ⟨⟨200, .projects (visible.map fun project => projectView P project (countOf counts project.id))⟩, ?_⟩
  rw [listProjects]
  refine runs_bind_ok.mpr ⟨.ok user, s, (gives_getUser hlive _ _).mpr ⟨rfl, rfl⟩, ?_⟩
  exact runs_bind_ok.mpr ⟨_, s, hlist, runs_bind_ok.mpr ⟨counts, s, hcount, .ret⟩⟩

/-- `GET /status` answers for the visible projects only, each once. -/
theorem runs_listStatuses (hlive : auth.getLiveUser s.users credentials = some user) {response : RouteResponse}
    (h : listStatuses.Runs (RouteExec auth P config restic collates t credentials signal) s (.ok response) s') :
    ∃ statuses, response = ⟨200, .statuses statuses⟩ ∧ (statuses.map Prod.fst).Nodup ∧
      ∀ id ∈ statuses.map Prod.fst, projectAccessCanAccess user id = true ∧
        ∃ p ∈ s.world.db.projects, p.id = id := by
  rw [listStatuses] at h
  obtain ⟨x, s₁, hx, hlist⟩ := runs_bind_ok.mp h
  obtain ⟨heq, rfl⟩ := (gives_getUser hlive _ _).mp hx
  cases heq
  obtain ⟨projects, s₂, hprojects, hstatus⟩ := runs_bind_ok.mp hlist
  obtain ⟨rfl, hperm, -⟩ := runs_projectsDataList hprojects
  obtain ⟨statuses, s₃, ⟨_, cache, -, hfanned, rfl⟩, hend⟩ := runs_lift_bind.mp hstatus
  obtain ⟨hresponse, -⟩ := runs_pure.mp hend
  rw [filter_visible] at hfanned
  have hids := hfanned.map_fst
  refine ⟨statuses, Except.ok.inj hresponse, ?_, fun id hid => ?_⟩
  · rw [hids]
    exact ((hperm.map Project.id).nodup_iff.mpr (Db.valid _).projectId).sublist (List.filter_sublist.map _)
  · rw [hids] at hid
    obtain ⟨p, hp, rfl⟩ := List.mem_map.mp hid
    obtain ⟨hmem, haccess⟩ := List.mem_filter.mp hp
    exact ⟨haccess, p, hperm.mem_iff.mp hmem, rfl⟩

end Lists

/-- **Project isolation.** For a regular user every route of a project without its scope has one answer for all
states with the same users, whatever projects, secrets and caches they have, and leaves the state; and the list of
projects is the same for any two states that agree on the projects whose scopes the user has. -/
theorem project_isolation (hadmin : auth.RefusesOthers) (hcollates : ∀ a b, collates a b → collates b a → a = b)
    {users : U} (hlive : auth.getLiveUser users credentials = some user) (hregular : user.isAdmin = false) :
    (∀ (route : Route) (id : JsString), projectScope id ∉ user.scopes →
      ∃ response, ∀ s : ServerState U R, s.users = users →
        (route.handle P timeouts id).Gives (RouteExec auth P config restic collates t credentials signal) s response) ∧
    ∀ (s₁ s₂ s₁' s₂' : ServerState U R) (response₁ response₂ : RouteResponse), s₁.users = users → s₂.users = users →
      AgreesOn user s₁.world.db s₂.world.db →
      (listProjects P).Runs (RouteExec auth P config restic collates t credentials signal) s₁ (.ok response₁) s₁' →
      (listProjects P).Runs (RouteExec auth P config restic collates t credentials signal) s₂ (.ok response₂) s₂' →
      response₁ = response₂ := by
  constructor
  · intro route id hscope
    refine ⟨route.denial auth users credentials, fun s hs => ?_⟩
    subst hs
    exact gives_denied hadmin hlive hregular hscope route
  · intro s₁ s₂ s₁' s₂' response₁ response₂ hs₁ hs₂ hagrees h₁ h₂
    rw [← hs₁] at hlive
    obtain ⟨projects₁, hperm₁, hordered₁, rfl⟩ := runs_listProjects hlive h₁
    rw [hs₁, ← hs₂] at hlive
    obtain ⟨projects₂, hperm₂, hordered₂, rfl⟩ := runs_listProjects hlive h₂
    rw [visible_eq hcollates hregular hagrees hperm₁ hperm₂ hordered₁ hordered₂]
    congr 2
    refine List.map_congr_left fun p hp => ?_
    obtain ⟨hp, haccess⟩ := List.mem_filter.mp hp
    have hscope := (projectAccessCanAccess_regular hregular p.id).mp haccess
    have hp₁ := (hagrees p hscope).1.mpr (hperm₂.mem_iff.mp hp)
    rw [(hagrees p hscope).2 hp₁]

section Example

/-- A user with the scope of the example project only. -/
def exampleUser : User := ⟨none, js "user", [projectScope (js "p")]⟩

def exampleAuth : Auth Unit Unit where
  getLiveUser _ _ := some exampleUser
  mustBeAdmin _ _ := some accessDenied

def otherProject : Project := { exampleProject with id := js "q", name := js "other" }

def oneProject : Db where
  projects := [exampleProject]
  secrets := []
  valid := valid_exampleProject

def twoProjects : Db where
  projects := [exampleProject, otherProject]
  secrets := [{ exampleSecret "a" "1" 1 with projectId := js "q" }]
  valid := by decide

theorem agreesOn_example : AgreesOn exampleUser oneProject twoProjects := by
  intro p hscope
  have hid : p.id = js "p" := projectScope_injective (List.mem_singleton.mp hscope)
  have hrows : oneProject.rows (js "p") = [] ∧ twoProjects.rows (js "p") = [] := by decide
  constructor
  · have hne : p ≠ otherProject := fun h => absurd (h ▸ hid : otherProject.id = js "p") (by decide)
    show p ∈ [exampleProject] ↔ p ∈ [exampleProject, otherProject]
    rw [List.mem_cons, List.mem_cons, List.mem_singleton, or_iff_left hne, or_iff_left List.not_mem_nil]
  · intro _
    rw [hid, hrows.1, hrows.2]

/-- The state of the server with these projects. -/
def serverWith (db : Db) : ServerState Unit Snapshots := ⟨(), World.initial db [], StatusCache.start⟩

abbrev ExampleExec : ServerState Unit Snapshots → (c : RouteCmd) → c.Answer → ServerState Unit Snapshots → Prop :=
  RouteExec exampleAuth runPlatform ⟨none, none⟩ Snapshots.restic (· ≤ ·) 0 () none

theorem exists_runs_example (db : Db) : ∃ response,
    (listProjects runPlatform).Runs ExampleExec (serverWith db) (.ok response) (serverWith db) :=
  exists_runs_listProjects le_total le_trans rfl

theorem project_isolation_example :
    (∃ response, ∀ s, (Route.getProject.handle runPlatform exampleTimeouts (js "q")).Gives ExampleExec s response) ∧
    ∃ response, (listProjects runPlatform).Runs ExampleExec (serverWith oneProject) (.ok response) (serverWith oneProject) ∧
      (listProjects runPlatform).Runs ExampleExec (serverWith twoProjects) (.ok response) (serverWith twoProjects) := by
  have hisolation := @project_isolation Unit Unit Snapshots exampleAuth runPlatform exampleTimeouts ⟨none, none⟩
    Snapshots.restic (· ≤ ·) 0 () none exampleUser (fun _ _ _ _ _ => rfl) (fun _ _ => le_antisymm) () rfl (by decide)
  constructor
  · obtain ⟨response, hgives⟩ := hisolation.1 .getProject (js "q") (by decide)
    exact ⟨response, fun s => hgives s rfl⟩
  · obtain ⟨response₁, h₁⟩ := exists_runs_example oneProject
    obtain ⟨response₂, h₂⟩ := exists_runs_example twoProjects
    have heq := hisolation.2 _ _ _ _ _ _ rfl rfl agreesOn_example h₁ h₂
    subst heq
    exact ⟨_, h₁, h₂⟩

end Example

end SecretsManager
