import SecretsManager.IdColumns
import SecretsManager.Transactions

/-!
# Ids in the requests

A request names a project and its secrets by texts, and the statements of the data layer hand these to the columns of
ids. A statement with a text that is no id fails; every other statement works on the stored spelling. The locks, the
lists of the routes and the client of restic go by the texts as they are.

The routes of a project look its row up first and go on with the id of the row. The secret routes go on with the text
of the URL, and a creation with the id of its body, so these two have to spell the id as it is stored.
-/

namespace SecretsManager

open Js Interleaving

/-! ## The ids of a command -/

/-- The parameters of the transaction that go to columns of ids. -/
def Transaction.ids : Transaction → List JsString
  | projectsDataAdd project => [project.id]
  | projectsDataDeleteCascade projectId => [projectId]
  | projectsDataUpdateSyncState id _ _ _ _ => [id]
  | projectsDataUpdateCurrentContentHash id _ => [id]
  | projectsDataUpdateLastSyncContentHash id _ => [id]
  | secretsDataAdd secret _ => [secret.id, secret.projectId]
  | secretsDataUpdate id projectId _ _ _ _ => [id, projectId]
  | secretsDataDelete id projectId _ => [id, projectId]
  | secretsDataReplaceForProject projectId secrets _ =>
      projectId :: secrets.flatMap fun secret => [secret.id, secret.projectId]

/-- The transaction with other ids. -/
def Transaction.withIds (f : JsString → JsString) : Transaction → Transaction
  | projectsDataAdd project => projectsDataAdd { project with id := f project.id }
  | projectsDataDeleteCascade projectId => projectsDataDeleteCascade (f projectId)
  | projectsDataUpdateSyncState id snapshotId snapshotTime lastSync current =>
      projectsDataUpdateSyncState (f id) snapshotId snapshotTime lastSync current
  | projectsDataUpdateCurrentContentHash id hash => projectsDataUpdateCurrentContentHash (f id) hash
  | projectsDataUpdateLastSyncContentHash id hash => projectsDataUpdateLastSyncContentHash (f id) hash
  | secretsDataAdd secret hash =>
      secretsDataAdd { secret with id := f secret.id, projectId := f secret.projectId } hash
  | secretsDataUpdate id projectId content date version hash =>
      secretsDataUpdate (f id) (f projectId) content date version hash
  | secretsDataDelete id projectId hash => secretsDataDelete (f id) (f projectId) hash
  | secretsDataReplaceForProject projectId secrets state =>
      secretsDataReplaceForProject (f projectId)
        (secrets.map fun secret => { secret with id := f secret.id, projectId := f secret.projectId }) state

theorem Transaction.withIds_eq_self {f : JsString → JsString} {tx : Transaction} (h : ∀ id ∈ tx.ids, f id = id) :
    tx.withIds f = tx := by
  cases tx with
  | secretsDataReplaceForProject projectId secrets state =>
      have hsecrets : ∀ s ∈ secrets, ({ s with id := f s.id, projectId := f s.projectId } : Secret) = s := by
        intro s hs
        have hids : ∀ id ∈ [s.id, s.projectId], f id = id := fun id hid =>
          h id (List.mem_cons_of_mem _ (List.mem_flatMap.mpr ⟨s, hs, hid⟩))
        rw [hids s.id (List.mem_cons_self ..), hids s.projectId (List.mem_cons_of_mem _ (List.mem_cons_self ..))]
      rw [withIds, h projectId (List.mem_cons_self ..), List.map_congr_left hsecrets, List.map_id']
  | _ => simp_all [ids, withIds]

def Cmd.ids : Cmd → List JsString
  | .projectsGet id | .secretsList id | .secretsGet id => [id]
  | .transact tx => tx.ids
  | _ => []

/-- A statement that fails. -/
def Cmd.Fails : (c : Cmd) → c.Answer → Prop
  | .projectsGet _, a => ∃ m, a = .error (.other m)
  | .secretsList _, a => ∃ m, a = .error (.other m)
  | .secretsGet _, a => ∃ m, a = .error (.other m)
  | .transact _, a => ∃ m, a = .error (.other m)
  | _, _ => False

/-! ## Statements on columns of ids -/

section Column
variable {W : Type} (ids : IdColumn)

def Cmd.Readable (c : Cmd) : Prop := ∀ id ∈ c.ids, (ids.read id).isSome = true

instance (c : Cmd) : Decidable (c.Readable ids) := inferInstanceAs (Decidable (∀ _ ∈ _, _))

/-- The command with its ids in their stored spelling. A generated id is spelled so. -/
def SpelledExec (exec : W → (c : Cmd) → c.Answer → W → Prop) (w : W) : (c : Cmd) → c.Answer → W → Prop
  | .projectsGet id, a, w' => exec w (.projectsGet (ids.spell id)) a w'
  | .secretsList projectId, a, w' => exec w (.secretsList (ids.spell projectId)) a w'
  | .secretsGet id, a, w' => exec w (.secretsGet (ids.spell id)) a w'
  | .transact tx, a, w' => exec w (.transact (tx.withIds ids.spell)) a w'
  | .uuid, id, w' => ids.Stored id ∧ exec w .uuid id w'
  | c, a, w' => exec w c a w'

/-- What a command does on columns of ids. -/
def ColumnExec (exec : W → (c : Cmd) → c.Answer → W → Prop) (w : W) (c : Cmd) (a : c.Answer) (w' : W) : Prop :=
  (¬ c.Readable ids ∧ c.Fails a ∧ w' = w) ∨ (c.Readable ids ∧ SpelledExec ids exec w c a w')

/-- The ids of the rows are spelled as the columns give them back. -/
structure Tables.Stored (t : Tables) : Prop where
  projects : ∀ p ∈ t.projects, ids.Stored p.id
  secrets : ∀ s ∈ t.secrets, ids.Stored s.id ∧ ids.Stored s.projectId

instance (t : Tables) : Decidable (t.Stored ids) :=
  decidable_of_iff ((∀ p ∈ t.projects, ids.Stored p.id) ∧ ∀ s ∈ t.secrets, ids.Stored s.id ∧ ids.Stored s.projectId)
    ⟨fun ⟨hprojects, hsecrets⟩ => ⟨hprojects, hsecrets⟩, fun h => ⟨h.projects, h.secrets⟩⟩

variable {ids}

/-- A transaction with stored ids keeps the ids of the rows stored. -/
theorem Tables.Stored.run {t : Tables} (h : t.Stored ids) {tx : Transaction} (htx : ∀ id ∈ tx.ids, ids.Stored id) :
    (tx.run t).1.Stored ids := by
  constructor
  · intro p hp
    rcases Transaction.mem_projects_run hp with rfl | ⟨q, hq, rfl, -⟩
    · exact htx _ (List.mem_singleton.mpr rfl)
    · rw [Transaction.changeRow_id]
      exact h.projects q hq
  · intro s hs
    rcases Transaction.mem_secrets_run hs with (hold | hnew) | ⟨r, hr, hid, hproject, -⟩
    · exact h.secrets s hold
    · cases tx with
      | secretsDataAdd secret hash =>
          rcases List.mem_append.mp hs with hs | hs
          · exact h.secrets s hs
          · rw [List.mem_singleton.mp hs]
            exact ⟨htx _ (List.mem_cons_self ..), htx _ (List.mem_cons_of_mem _ (List.mem_singleton.mpr rfl))⟩
      | secretsDataReplaceForProject projectId secrets state =>
          rw [Transaction.secrets_run_replace] at hs
          rcases List.mem_append.mp hs with hs | hs
          · exact h.secrets s (List.mem_of_mem_filter hs)
          · have hids : ∀ id ∈ [s.id, s.projectId], ids.Stored id := fun id hid =>
              htx id (List.mem_cons_of_mem _ (List.mem_flatMap.mpr ⟨s, hs, hid⟩))
            exact ⟨hids _ (List.mem_cons_self ..), hids _ (List.mem_cons_of_mem _ (List.mem_singleton.mpr rfl))⟩
      | _ => cases hnew
    · rw [← hid, ← hproject]
      exact h.secrets r hr

end Column

/-! ## Programs that spell their ids -/

section Monitor
variable (ids : IdColumn)

/-- The ids of an answer come in their stored spelling. -/
def IdColumn.Answers : (c : Cmd) → c.Answer → Prop
  | .projectsGet _, .ok (some p) => ids.Stored p.id
  | .projectsList, .ok projects => ∀ p ∈ projects, ids.Stored p.id
  | .secretsList _, .ok rows => ∀ s ∈ rows, ids.Stored s.id ∧ ids.Stored s.projectId
  | .uuid, id => ids.Stored id
  | _, _ => True

def spellings : Monitor Cmd Cmd.Answer Unit where
  step _ _ _ := ()
  allows _ c := ∀ id ∈ c.ids, ids.Spelled id
  expects _ c a := ids.Answers c a

/-- The statements of the task spell their ids as they are stored, and so does its result. -/
def Spells {α : Type} (Q : α → Prop) (task : Op α) : Prop :=
  task.Meets (spellings ids) () fun r _ => ∀ a, r = .ok a → Q a

end Monitor

section Rules
variable {α β : Type} {ids : IdColumn} {Q : α → Prop} {Q' : β → Prop} {task : Op α} {f : α → Op β}
  {id projectId : JsString}

theorem spells_pure {a : α} (h : Q a) : Spells ids Q (pure a : Op α) := by
  rintro _ ⟨⟩
  exact h

theorem spells_fail {e : Failure} : Spells ids Q (.fail e : Op α) := by
  rintro _ ⟨⟩

theorem Spells.bind (h : Spells ids Q task) (hf : ∀ a, Q a → Spells ids Q' (f a)) : Spells ids Q' (task >>= f) := by
  refine meets_bind.mpr (Prog.Meets.mono h fun r _ hr => ?_)
  cases r with
  | error e =>
      rintro _ ⟨⟩
  | ok a => exact hf a (hr a rfl)

theorem Spells.mono {Q' : α → Prop} (h : Spells ids Q task) (hQ : ∀ a, Q a → Q' a) : Spells ids Q' task :=
  Prog.Meets.mono h fun _ _ hr a ha => hQ a (hr a ha)

theorem spells_ite {c : Prop} [Decidable c] {yes no : Op α} (hyes : Spells ids Q yes) (hno : Spells ids Q no) :
    Spells ids Q (if c then yes else no) :=
  meets_ite (fun _ => hyes) fun _ => hno

theorem Spells.tryCatch {handler : Failure → Op α} (h : Spells ids Q task) (hhandler : ∀ e, Spells ids Q (handler e)) :
    Spells ids Q (task.tryCatch handler) := by
  refine meets_tryCatch.mpr (Prog.Meets.mono h fun r _ hr => ?_)
  cases r with
  | error e => exact hhandler e
  | ok a => exact hr

theorem Spells.tryFinally {last : Op Unit} (h : Spells ids Q task) (hlast : Spells ids (fun _ => True) last) :
    Spells ids Q (task.tryFinally last) := by
  refine meets_tryFinally.mpr (Prog.Meets.mono h fun r _ hr => ?_)
  unfold Finally
  refine Prog.Meets.mono hlast fun r' _ _ => ?_
  cases r' with
  | error e =>
      rintro _ ⟨⟩
  | ok _ => exact meets_ofExcept.mpr hr

/-- The command names no row. -/
def Cmd.Idless (c : Cmd) : Prop := c.ids = []

theorem spells_idless (h : task.Only Cmd.Idless) : Spells ids (fun _ => True) task := by
  refine h.meets (fun c hc => ⟨fun id hid => ?_, fun _ => rfl⟩) fun _ _ _ => trivial
  rw [show c.ids = [] from hc] at hid
  cases hid

/-- Work without ids before the task. -/
theorem Spells.after (h : task.Only Cmd.Idless) (hf : ∀ a, Spells ids Q' (f a)) : Spells ids Q' (task >>= f) :=
  (spells_idless h).bind fun a _ => hf a

theorem idless_fs (op : FsOp) : (Op.fs op).Only Cmd.Idless := only_fs rfl

theorem Spells.dbUtilsWithLock {name : JsString} (h : Spells ids Q task) :
    Spells ids Q (dbUtilsWithLock name task) := by
  refine .after (only_lift.mpr rfl) fun held => ?_
  exact Spells.after only_ofExcept fun _ => h.tryFinally (spells_idless (only_lift.mpr rfl))

theorem Spells.withWorkDir (h : Spells ids Q task) : Spells ids Q (withWorkDir task) := by
  refine .after (idless_fs _) fun _ => ?_
  exact (Spells.after (idless_fs _) fun _ => h).tryFinally (spells_idless (idless_fs _))

/-! ### The data layer -/

theorem spells_query {c : Cmd} {g : c.Answer → Except Failure α} (hc : ∀ id ∈ c.ids, ids.Spelled id)
    (hg : ∀ a, ids.Answers c a → ∀ r, g a = .ok r → Q r) :
    Spells ids Q (Prog.lift c >>= fun a => Prog.ofExcept (g a)) :=
  meets_bind.mpr (meets_lift.mpr ⟨hc, fun a ha => meets_ofExcept.mpr (hg a ha)⟩)

theorem spelled_singleton (h : ids.Spelled id) : ∀ i ∈ [id], ids.Spelled i := by
  simpa using h

theorem spelled_pair (h : ids.Spelled id) (h' : ids.Spelled projectId) : ∀ i ∈ [id, projectId], ids.Spelled i := by
  simpa using ⟨h, h'⟩

theorem spells_projectsDataGet (h : ids.Spelled id) :
    Spells ids (fun row => ∀ p ∈ row, ids.Stored p.id) (projectsDataGet id) := by
  refine spells_query (spelled_singleton h) fun a ha row hrow p hp => ?_
  obtain rfl : a = .ok row := hrow
  obtain rfl : row = some p := hp
  exact ha

theorem spells_secretsList (h : ids.Spelled projectId) :
    Spells ids (fun rows => ∀ s ∈ rows, ids.Stored s.id ∧ ids.Stored s.projectId)
      (secretsDataListForProject projectId) := by
  refine spells_query (spelled_singleton h) fun a ha rows hrows => ?_
  obtain rfl : a = .ok rows := hrows
  exact ha

theorem spells_projectsDataList : Spells ids (fun projects => ∀ p ∈ projects, ids.Stored p.id) projectsDataList := by
  refine spells_query (fun id hid => (List.not_mem_nil hid).elim) fun a ha projects hprojects => ?_
  obtain rfl : a = .ok projects := hprojects
  exact ha

theorem spells_transact {tx : Transaction} (h : ∀ id ∈ tx.ids, ids.Spelled id) :
    Spells ids (fun _ => True) (Op.transact tx) :=
  spells_query h fun _ _ _ _ => trivial

theorem spells_uuid : Spells ids ids.Stored Op.uuid := by
  refine meets_lift.mpr ⟨fun id hid => (List.not_mem_nil hid).elim, ?_⟩
  rintro id hid _ ⟨⟩
  exact hid

theorem spells_newSecret {content : SecretContent} :
    Spells ids (fun s => ids.Spelled s.id ∧ s.projectId = projectId) (newSecret projectId content) :=
  spells_uuid.bind fun _ hid => .after (only_lift.mpr rfl) fun _ => spells_pure ⟨hid.spelled, rfl⟩

theorem spells_rereadProject {project : Project} (h : ids.Stored project.id) :
    Spells ids (fun p => ids.Stored p.id) (rereadProject project) := by
  refine (spells_projectsDataGet h.spelled).bind fun row hrow => spells_pure ?_
  cases row with
  | none => exact h
  | some fresh => exact hrow fresh rfl

theorem spells_secretsDataUpdate {secret : Secret} {version : Nat} {hash : JsString} (hid : ids.Stored secret.id)
    (hproject : ids.Stored secret.projectId) :
    Spells ids (fun _ => True) (secretsDataUpdate secret version hash) := by
  refine .after (only_lift.mpr rfl) fun date => ?_
  refine Spells.bind (spells_transact (spelled_pair hid.spelled hproject.spelled)) fun n _ => ?_
  refine spells_ite (spells_pure trivial) ?_
  have hget : Spells ids (fun _ => True) (secretsDataGet secret.id) :=
    spells_query (spelled_singleton hid.spelled) fun _ _ _ _ => trivial
  refine hget.bind fun current _ => ?_
  cases current with
  | none => exact spells_pure trivial
  | some current => exact spells_ite (spells_pure trivial) (spells_pure trivial)

end Rules

end SecretsManager
