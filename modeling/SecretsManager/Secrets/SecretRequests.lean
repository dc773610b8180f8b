import SecretsManager.IssuedTransactions

/-!
# What the secret routes write

Inside its section a creation or an update goes by the project row and the list that it has read there: a
new secret belongs to a project that was found, a new name is that of no other secret of the list, and the
content is the one that the request asks for, after its checks.
-/

namespace SecretsManager

open Js Interleaving

variable {P : Platform} {timeouts : ResticTimeouts}

/-- The name that a full update leaves, before it is checked. -/
def requestedName (body : SecretBody) (s : Secret) : JsValue :=
  if body.name.isSome then orEmpty body.name else .str s.name

/-- The content that a full update leaves. -/
def requestedContent (body : SecretBody) (s : Secret) : SecretContent :=
  ⟨stringOf (requestedName body s), if body.data.isSome then normalizedData body.data else s.data⟩

/-- What an update makes of a secret of its list. -/
def ChangedByRequest (op : Operation) (rows : List Secret) (s : Secret) (content : SecretContent) : Prop :=
  match op with
  | .updateSecret _ _ body =>
      Secret.validate (requestedName body s) (if body.data.isSome then body.data else some s.data.toJson) = [] ∧
        content = requestedContent body s ∧
        (content.name = s.name ∨ ∀ r ∈ rows, r.id ≠ s.id → r.name ≠ content.name)
  | .updateSecretKey _ _ body =>
      requestedKey body ≠ [] ∧ ∃ value, content = ⟨s.name, s.data.define (requestedKey body) value⟩
  | _ => False

/-- What the creation or the update of a secret rests on. -/
def ByRequest (op : Operation) (v : View) : Transaction → Prop
  | .secretsDataAdd secret _ => v.Finds secret.projectId ∧
      (∃ rows, v.Lists secret.projectId rows ∧ ∀ s ∈ rows, s.name ≠ secret.name) ∧
      ∃ projectId body, op = .createSecret projectId body ∧ Secret.validate (orEmpty body.name) body.data = [] ∧
        secret.toSecretContent = ⟨stringOf (orEmpty body.name), normalizedData body.data⟩
  | .secretsDataUpdate id projectId content _ _ _ =>
      ∃ rows s, v.Lists projectId rows ∧ s ∈ rows ∧ s.id = id ∧ ChangedByRequest op rows s content
  | _ => True

/-- Follows the view of an operation: what it has found and listed when it writes. -/
def requests (op : Operation) : Monitor Cmd Cmd.Answer View where
  step := View.step
  allows v c := c.IssuedBy op ∧ ∀ tx, c = .transact tx → ByRequest op v tx
  expects _ c a :=
    match c, a with
    | .secretsList projectId, .ok rows => ∀ s ∈ rows, s.projectId = projectId
    | _, _ => True

section Meets
variable {α : Type} {op : Operation} {v : View} {projectId secretId : JsString}

theorem requests_allows {c : Cmd} (h : ∀ tx, c ≠ .transact tx) : (requests op).allows v c := by
  refine ⟨?_, fun tx htx => absurd htx (h tx)⟩
  cases c with
  | transact tx => exact absurd rfl (h tx)
  | _ => trivial

theorem requests_projectsDataGet {Q : Except Failure (Option Project) → View → Prop} (hlock : v.lock.isSome = true)
    (hok : ∀ row, Q (.ok row) { v with found := row.map fun _ => projectId }) (herror : ∀ e, Q (.error e) v) :
    (projectsDataGet projectId).Meets (requests op) v Q := by
  rw [projectsDataGet, meets_bind, meets_lift]
  refine ⟨requests_allows (by simp), fun a _ => ?_⟩
  rw [then_ok, meets_ofExcept]
  cases a with
  | error e => exact herror e
  | ok row =>
      have hstep : (requests op).step v (.projectsGet projectId) (.ok row) =
          { v with found := row.map fun _ => projectId } := if_pos hlock
      rw [hstep]
      exact hok row

theorem requests_secretsList {Q : Except Failure (List Secret) → View → Prop} (hlock : v.lock.isSome = true)
    (hok : ∀ rows, (∀ s ∈ rows, s.projectId = projectId) → Q (.ok rows) { v with list := some (projectId, rows) })
    (herror : ∀ e, Q (.error e) v) : (secretsDataListForProject projectId).Meets (requests op) v Q := by
  rw [secretsDataListForProject, meets_bind, meets_lift]
  refine ⟨requests_allows (by simp), fun a ha => ?_⟩
  rw [then_ok, meets_ofExcept]
  cases a with
  | error e => exact herror e
  | ok rows =>
      have hstep : (requests op).step v (.secretsList projectId) (.ok rows) =
          { v with list := some (projectId, rows) } := if_pos hlock
      rw [hstep]
      exact hok rows ha

theorem requests_transact {tx : Transaction} {Q : Except Failure Nat → View → Prop} (hissues : op.Issues tx)
    (hkeeps : ByRequest op v tx) (hok : ∀ n, Q (.ok n) (v.committed tx n)) (herror : ∀ e, Q (.error e) v) :
    (Op.transact tx).Meets (requests op) v Q := by
  rw [Op.transact, meets_bind, meets_lift]
  refine ⟨⟨hissues, fun tx' htx => ?_⟩, fun a _ => ?_⟩
  · cases htx
    exact hkeeps
  · rw [then_ok, meets_ofExcept]
    cases a with
    | error e => exact herror e
    | ok n => exact hok n

/-- After the section nothing is written any more. -/
theorem requests_section {task : Op SecretOutcome}
    (h : task.Meets (requests op) (v.enter (projectWriteLockName projectId)) fun _ _ => True) :
    (Prog.tryCatch
      (do
        let outcome ← projectWriteLocksRun projectId task
        pure outcome.response)
      onUniqueViolation).Meets (requests op) v fun _ _ => True := by
  have hcatch : ∀ (e : Failure) (v' : View), (onUniqueViolation e).Meets (requests op) v' fun _ _ => True := by
    intro e v'
    cases e <;> trivial
  rw [meets_tryCatch, meets_bind, projectWriteLocksRun, dbUtilsWithLock, meets_bind, meets_lift]
  refine ⟨requests_allows (by simp), fun held _ => ?_⟩
  rw [then_ok, meets_bind, meets_ofExcept]
  cases held with
  | error e => exact hcatch e _
  | ok =>
      rw [then_ok, meets_tryFinally]
      refine h.mono fun r v' _ => meets_lift.mpr ⟨requests_allows (by simp), fun _ _ => ?_⟩
      rw [then_ok, meets_ofExcept]
      cases r with
      | error e => exact hcatch e _
      | ok outcome => trivial

theorem requests_createSecretSection {body : SecretBody} (hlock : v.Holds projectId)
    (hvalid : Secret.validate (orEmpty body.name) body.data = []) :
    (createSecretSection P projectId (stringOf (orEmpty body.name)) body.data).Meets
      (requests (.createSecret projectId body)) v fun _ _ => True := by
  have hsome : v.lock.isSome = true := by rw [hlock]; rfl
  rw [createSecretSection, meets_bind]
  refine requests_projectsDataGet hsome (fun row => ?_) fun e => trivial
  rw [then_ok]
  cases row with
  | none => trivial
  | some project =>
      rw [meets_bind]
      refine requests_secretsList hsome (fun rows _ => ?_) fun e => trivial
      rw [then_ok]
      refine meets_ite (fun _ => trivial) fun hnew => ?_
      rw [meets_bind, newSecret, meets_bind, Op.uuid, meets_lift]
      refine ⟨requests_allows (by simp), fun id _ => ?_⟩
      rw [then_ok, meets_bind, Op.now, meets_lift]
      refine ⟨requests_allows (by simp), fun now _ => ?_⟩
      rw [then_ok, meets_pure, then_ok, meets_bind]
      refine requests_transact (by exact trivial) ⟨⟨hlock, rfl⟩, ⟨rows, ⟨hlock, rfl⟩, fun s hs hname => hnew ?_⟩,
        projectId, body, rfl, hvalid, rfl⟩ (fun n => trivial) fun e => trivial
      exact List.any_eq_true.mpr ⟨s, hs, by simpa using hname⟩

theorem requests_secretsDataUpdate {secret : Secret} {version : Nat} {hash : JsString}
    {Q : Except Failure SecretsUpdateStatus → View → Prop}
    (hissues : ∀ date, op.Issues (.secretsDataUpdate secret.id secret.projectId secret.toSecretContent date version hash))
    (hchange : ∃ rows s, v.Lists secret.projectId rows ∧ s ∈ rows ∧ s.id = secret.id ∧
      ChangedByRequest op rows s secret.toSecretContent)
    (hQ : ∀ r v', v'.lock = v.lock → Q r v') : (secretsDataUpdate secret version hash).Meets (requests op) v Q := by
  rw [secretsDataUpdate, meets_bind, Op.now, meets_lift]
  refine ⟨requests_allows (by simp), fun date _ => ?_⟩
  rw [then_ok, meets_bind]
  refine requests_transact (hissues date) hchange (fun n => ?_) fun e => hQ _ _ rfl
  rw [then_ok]
  refine meets_ite (fun _ => hQ _ _ rfl) fun _ => ?_
  rw [meets_bind, secretsDataGet, meets_bind, meets_lift]
  refine ⟨requests_allows (by simp), fun a _ => ?_⟩
  rw [then_ok, meets_ofExcept]
  cases a with
  | error e => exact hQ _ _ rfl
  | ok current =>
      rw [then_ok]
      cases current with
      | none => exact hQ _ _ rfl
      | some current => exact meets_ite (fun _ => hQ _ _ rfl) fun _ => hQ _ _ rfl

/-- A full update keeps the name, or takes one that no other secret of the list has. -/
theorem requests_updateSecretSection {version : Nat} {body : SecretBody} (hlock : v.Holds projectId) :
    (updateSecretSection P projectId secretId version body).Meets
      (requests (.updateSecret projectId secretId body)) v fun _ _ => True := by
  have hsome : v.lock.isSome = true := by rw [hlock]; rfl
  rw [updateSecretSection, meets_bind]
  refine requests_projectsDataGet hsome (fun row => ?_) fun e => trivial
  rw [then_ok]
  cases row with
  | none => trivial
  | some project =>
      rw [meets_bind]
      refine requests_secretsList hsome (fun rows hrows => ?_) fun e => trivial
      rw [then_ok]
      split
      · trivial
      · rename_i secret hfind
        have hsecret : secret ∈ rows := List.mem_of_find?_eq_some hfind
        have hproject : secret.projectId = projectId := hrows secret hsecret
        refine meets_ite (fun _ => trivial) fun herrors => meets_ite (fun _ => trivial) fun hname => ?_
        rw [meets_bind]
        refine requests_secretsDataUpdate (fun _ => by exact trivial) ?_ fun r v' _ => by cases r <;> trivial
        refine ⟨rows, secret, ⟨?_, ?_⟩, hsecret, rfl, List.length_eq_zero_iff.mp (Nat.le_zero.mp (not_lt.mp herrors)),
          rfl, ?_⟩
        · rw [hproject]
          exact hlock
        · rw [hproject]
        · by_cases hsame : stringOf (requestedName body secret) = secret.name
          · exact Or.inl hsame
          · refine Or.inr fun r hr hid hrname => hname ⟨hsame, List.any_eq_true.mpr ⟨r, hr, ?_⟩⟩
            exact decide_eq_true ⟨hid, hrname⟩

/-- The update of a key keeps the name. -/
theorem requests_updateKeyAttempts {value : JsString} {body : SecretBody} {attempts : Nat}
    (hlock : v.Holds projectId) (hkey : requestedKey body ≠ []) :
    (updateKeyAttempts P projectId secretId (requestedKey body) value attempts).Meets
      (requests (.updateSecretKey projectId secretId body)) v fun _ _ => True := by
  induction attempts generalizing v with
  | zero => trivial
  | succ attempts ih =>
      have hsome : v.lock.isSome = true := by rw [hlock]; rfl
      rw [updateKeyAttempts, meets_bind]
      refine requests_secretsList hsome (fun rows hrows => ?_) fun e => trivial
      rw [then_ok]
      split
      · trivial
      · rename_i secret hfind
        have hsecret : secret ∈ rows := List.mem_of_find?_eq_some hfind
        have hproject : secret.projectId = projectId := hrows secret hsecret
        dsimp only
        rw [meets_bind]
        refine requests_secretsDataUpdate (fun _ => by exact trivial) ?_ fun r v' hv' => ?_
        · refine ⟨rows, secret, ⟨?_, ?_⟩, hsecret, rfl, hkey, value, rfl⟩
          · rw [hproject]
            exact hlock
          · rw [hproject]
        · cases r with
          | error e => trivial
          | ok status =>
              cases status with
              | versionConflict => exact ih (hv'.trans hlock)
              | _ => trivial

theorem requests_of_issues {p : Op Response} (h : p.Only (Cmd.IssuedBy op))
    (hkeeps : ∀ tx, op.Issues tx → ∀ v, ByRequest op v tx) : p.Meets (requests op) v fun _ _ => True := by
  refine h.meets_true fun v c hc => ⟨hc, fun tx htx => ?_⟩
  subst htx
  exact hkeeps tx hc v

/-- **Every creation and update of a secret goes by its request and by what its section has read.** -/
theorem requests_serve (op : Operation) : (serve P timeouts op).Meets (requests op) .start fun _ _ => True := by
  have hothers : (∀ tx, op.Issues tx → ∀ v, ByRequest op v tx) →
      (serve P timeouts op).Meets (requests op) .start fun _ _ => True := requests_of_issues (only_issues op)
  cases op with
  | createSecret projectId body =>
      rw [serve]
      unfold createSecret
      refine meets_ite (fun _ => trivial) fun herrors => requests_section (requests_createSecretSection rfl ?_)
      exact List.length_eq_zero_iff.mp (Nat.le_zero.mp (not_lt.mp herrors))
  | updateSecret projectId secretId body =>
      rw [serve]
      unfold updateSecret
      split
      · trivial
      · exact meets_ite (fun _ => trivial) fun _ => requests_section (requests_updateSecretSection rfl)
  | updateSecretKey projectId secretId body =>
      rw [serve]
      unfold updateSecretKey
      refine meets_ite (fun _ => trivial) fun hkey => ?_
      split
      · trivial
      · refine meets_ite (fun _ => trivial) fun _ => requests_section ?_
        rw [updateSecretKeySection, meets_bind]
        refine requests_projectsDataGet rfl (fun row => ?_) fun e => trivial
        rw [then_ok]
        cases row with
        | none => trivial
        | some project => exact requests_updateKeyAttempts rfl fun hnil => hkey (by rw [hnil]; rfl)
  | _ =>
      refine hothers fun tx h v => ?_
      cases tx <;> trivial

end Meets

/-- The discipline of the requests beside the outline of the server, with anything that the steps of an operation
keep of its view. -/
theorem requestsOutline {R : Type} (P : Platform) (timeouts : ResticTimeouts) (restic : Restic R)
    (admits : Operation → Prop) {Kept : View → Prop} (hstart : Kept .start)
    (hstep : ∀ {t w w' v} {c : Cmd} {a : c.Answer}, Kept v → Exec restic t w c a w' → Kept (v.step c a)) :
    OverOutline (server P timeouts restic admits) (sections P) .start Inv (Knows restic) requests .start
      (fun _ => True) (fun _ _ v _ => Kept v) fun _ _ _ => True where
  body op _ := requests_serve op
  expects {t op trace w c a w'} h v := by
    cases c with
    | secretsList projectId =>
        cases a with
        | error e => trivial
        | ok rows =>
            have hexec : Exec restic t w (.secretsList projectId) (.ok rows) w' := h
            exact fun s hs => (Tables.mem_rows.mp ((exec_listed hexec).mem_iff.mp hs)).2
    | _ => trivial
  spawn _ _ _ _ := hstart
  inv _ := trivial
  self h := hstep h.assert' h.exec
  other _ _ _ h := h
  environment _ _ := ⟨trivial, fun _ _ _ h => h⟩

end SecretsManager
