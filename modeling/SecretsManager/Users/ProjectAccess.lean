import SecretsManager.Library.Sequential
import SecretsManager.Projects.ProjectsRoutes
import SecretsManager.Restic.SyncStatusCache

/-!
# Access to projects

Authentication is a package of its own: it finds the live user of a request, and answers in place of a route
that is for administrators. A regular user needs the scope of a project for every route with its id. The
commands of the routes are those of the operations, the guards, the queries of the read-only routes and the
calls of the status cache.
-/

namespace SecretsManager

open Js Interleaving

/-! ## Users -/

/-- The user, by what the routes use of it; missing scopes are none. -/
structure User where
  name : Option JsString
  role : JsString
  scopes : List JsString
  deriving DecidableEq

def projectScope (projectId : JsString) : JsString := js "project:" ++ projectId

theorem projectScope_injective : Function.Injective projectScope := fun _ _ h => List.append_cancel_left h

def User.isAdmin (user : User) : Bool := user.role = js "admin"

def projectAccessCanAccess (user : User) (projectId : JsString) : Bool :=
  if user.isAdmin then true else user.scopes.contains (projectScope projectId)

/-- The ids among the given ones that the user has access to. -/
def projectAccessCanAccessMany (user : User) (projectIds : List JsString) : List JsString :=
  if user.isAdmin then projectIds else projectIds.filter fun projectId => user.scopes.contains (projectScope projectId)

theorem mem_projectAccessCanAccessMany {user : User} {projectIds : List JsString} {projectId : JsString}
    (h : projectId ∈ projectIds) :
    projectId ∈ projectAccessCanAccessMany user projectIds ↔ projectAccessCanAccess user projectId = true := by
  unfold projectAccessCanAccessMany projectAccessCanAccess
  split_ifs
  · exact iff_of_true h rfl
  · rw [List.mem_filter, and_iff_right h]

/-! ## Authentication -/

/-- The authentication package, for stored users in a state `U` and requests with credentials in `K`: the live
user of a request, and the answer that `AuthMustBeAdmin` sends before it throws. -/
structure Auth (U K : Type) where
  getLiveUser : U → K → Option User
  mustBeAdmin : U → K → Option Response

/-- `AuthMustBeAdmin` lets no other live user pass. -/
def Auth.RefusesOthers {U K : Type} (auth : Auth U K) : Prop :=
  ∀ users credentials user, auth.getLiveUser users credentials = some user → user.isAdmin = false →
    (auth.mustBeAdmin users credentials).isSome = true

/-! ## Commands of the routes -/

/-- A row of `SELECT "projectId", COUNT(*) … GROUP BY "projectId"`. -/
abbrev SecretCount := JsString × Nat

inductive RouteCmd where
  | getLiveUser
  | mustBeAdmin
  | server (c : Cmd)
  | secretsCountsAll
  | secretsCountForProject (projectId : JsString)
  | secretsGetByName (projectId name : JsString)
  | syncStatusCacheGet (project : Project)
  | syncStatuses (projects : List Project)
  | syncStatusCacheInvalidate (projectId : JsString)

abbrev RouteCmd.Answer : RouteCmd → Type
  | getLiveUser => Option User
  | mustBeAdmin => Option Response
  | server c => c.Answer
  | secretsCountsAll => Except Failure (List SecretCount)
  | secretsCountForProject _ => Except Failure Nat
  | secretsGetByName _ _ => Except Failure (Option Secret)
  | syncStatusCacheGet _ => Except Failure SyncStatusResult
  | syncStatuses _ => List (JsString × Option SyncStatusResult)
  | syncStatusCacheInvalidate _ => Unit

abbrev RouteOp : Type → Type := Prog RouteCmd RouteCmd.Answer Failure

/-- The part of a route that is an operation of the server. -/
def Op.route {α : Type} (op : Op α) : RouteOp α := op.embed .server fun _ a => a

/-! ## What the commands do -/

/-- The stored users, the database with the locks and the repositories, and the status cache. -/
structure ServerState (U R : Type) where
  users : U
  world : World R
  cache : StatusCache

/-- The rows of the grouped count: one for each project that has secrets. -/
def CountsAll (db : Db) (counts : List SecretCount) : Prop :=
  SortedBy.Distinct Prod.fst counts ∧ ∀ projectId n, (projectId, n) ∈ counts ↔ 0 < n ∧ n = (db.rows projectId).length

/-- `ORDER BY "name"`, in the collation of the database. -/
def Ordered (collates : JsString → JsString → Prop) : (c : Cmd) → c.Answer → Prop
  | .projectsList, .ok projects => projects.Pairwise fun p q => collates p.name q.name
  | .secretsList _, .ok secrets => secrets.Pairwise fun s r => collates s.name r.name
  | _, _ => True

section Exec
variable {U K R : Type} (auth : Auth U K) (P : Platform) (config : StatusConfig) (restic : Restic R)
  (collates : JsString → JsString → Prop)

/-- The statuses of a fan-out when its deadline comes: of each call of the cache the answer, if it has one that
is no error. -/
def FannedOut (cache cache' : StatusCache) (projects : List Project)
    (statuses : List (JsString × Option SyncStatusResult)) : Prop :=
  List.Forall₂ (fun project status => status.1 = project.id ∧ ∀ result, status.2 = some result →
    ∃ call ∈ cache'.calls.drop cache.calls.length, call.projectId = project.id ∧
      ∃ run, call.answer = some (.ok ⟨result, run⟩)) projects statuses

theorem FannedOut.map_fst {cache cache' : StatusCache} {projects : List Project}
    {statuses : List (JsString × Option SyncStatusResult)} (h : FannedOut cache cache' projects statuses) :
    statuses.map Prod.fst = projects.map Project.id := by
  induction h with
  | nil => rfl
  | cons hstatus _ ih => rw [List.map_cons, List.map_cons, hstatus.1, ih]

/-- What a command of the request `t` answers and changes, for a client with these credentials whose disconnect
is `signal`. While a route waits for the status cache, the cache goes on. -/
def RouteExec (t : Nat) (credentials : K) (signal : Option Nat) (s : ServerState U R) :
    (c : RouteCmd) → c.Answer → ServerState U R → Prop
  | .getLiveUser, a, s' => s' = s ∧ a = auth.getLiveUser s.users credentials
  | .mustBeAdmin, a, s' => s' = s ∧ a = auth.mustBeAdmin s.users credentials
  | .server c, a, s' => ∃ w, Exec restic t s.world c a w ∧ Ordered collates c a ∧ s' = { s with world := w }
  | .secretsCountsAll, a, s' =>
      s' = s ∧ ((∃ counts, a = .ok counts ∧ CountsAll s.world.db counts) ∨ ∃ m, a = .error (.other m))
  | .secretsCountForProject projectId, a, s' =>
      s' = s ∧ (a = .ok (s.world.db.rows projectId).length ∨ ∃ m, a = .error (.other m))
  | .secretsGetByName projectId name, a, s' =>
      s' = s ∧ (a = .ok ((s.world.db.rows projectId).find? fun secret => secret.name = name) ∨
        ∃ m, a = .error (.other m))
  | .syncStatusCacheGet project, a, s' => ∃ events cache call answer,
      Machine.run (StatusCache.step P config) (s.cache.get config project signal) events = some cache ∧
        cache.calls[s.cache.calls.length]? = some call ∧ call.answer = some answer ∧
        a = answer.map StatusAnswer.result ∧ s' = { s with cache := cache }
  | .syncStatuses projects, a, s' => ∃ events cache,
      Machine.run (StatusCache.step P config)
        (projects.foldl (fun cache project => cache.get config project signal) s.cache) events = some cache ∧
        FannedOut s.cache cache projects a ∧ s' = { s with cache := cache }
  | .syncStatusCacheInvalidate projectId, _, s' => s' = { s with cache := s.cache.invalidate projectId }

end Exec

/-! ## The guards -/

def authenticationRequired : Response :=
  ⟨401, .error (js "Authentication Required") (some (js "UNAUTHENTICATED"))⟩

def accessDenied : Response := ⟨403, .error (js "Access Denied") (some (js "FORBIDDEN"))⟩

/-- The live user of the request, or the answer that was sent instead. -/
def projectAccessGetUser : RouteOp (Except Response User) := do
  match ← Prog.lift RouteCmd.getLiveUser with
  | none => pure (.error authenticationRequired)
  | some user => pure (.ok user)

/-- The live user, when it has access to the project. -/
def projectAccessEnsure (projectId : JsString) : RouteOp (Except Response User) := do
  match ← projectAccessGetUser with
  | .error response => pure (.error response)
  | .ok user =>
      if projectAccessCanAccess user projectId = false then pure (.error accessDenied) else pure (.ok user)

end SecretsManager
