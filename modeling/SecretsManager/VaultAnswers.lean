import SecretsManager.IssuedTransactions
import SecretsManager.VaultSteps

/-!
# What is asked for and answered

An operation takes the action that its request asks for at most once, and its response tells whether it did: after
an accepted request there was one action, after a refused one none. A previewing operation never acts.
-/

namespace SecretsManager

open Js JsObject Interleaving

/-! ## What is asked for -/

/-- The action is the one that the request asks for. -/
def Operation.Asks : Operation → Vault.Action → Prop
  | .createProject body, .addProject project =>
      project.name = toWellFormed (Project.stringField body.name) ∧ project.snapshotId = []
  | .deleteProject id, .removeProject projectId => projectId = id
  | .createSecret projectId body, .add entry => entry.projectId = projectId ∧
      entry.name = stringOf (orEmpty body.name) ∧ entry.values = (normalizedData body.data).get?
  | .updateSecret projectId secretId body, .change projectId' id version name values =>
      projectId' = projectId ∧ id = secretId ∧ parseVersion body.version = some version ∧
        name = (if body.name.isSome then some (stringOf (orEmpty body.name)) else none) ∧
        values = if body.data.isSome then some (normalizedData body.data).get? else none
  | .updateSecretKey projectId secretId body, .setKey projectId' id key value =>
      projectId' = projectId ∧ id = secretId ∧ key = requestedKey body ∧ ∃ v, body.value = some v ∧ value = v.toJsString
  | .deleteSecret projectId secretId, .remove projectId' id => projectId' = projectId ∧ id = secretId
  | .push projectId _, .mark projectId' _ => projectId' = projectId
  | .pull projectId snapshotId _, .load projectId' id _ => projectId' = projectId ∧ snapshotId = some (.str id)
  | .restore projectId snapshotId _, .load projectId' id _ => projectId' = projectId ∧ id = snapshotId
  | .discard projectId _, .load projectId' _ _ => projectId' = projectId
  | _, _ => False

/-- The answer is not an error. -/
def Response.Accepts (response : Response) : Prop := ∀ message code, response.body ≠ .error message code

/-- A result of the wanted kind with one action, or another result with none. -/
def Decided {α : Type} (S : α → Prop) (r : Except Failure α) (actions : List Vault.Action) : Prop :=
  ((∃ a, r = .ok a ∧ S a) ∧ ∃ action, actions = [action]) ∨ (∀ a, r = .ok a → ¬ S a) ∧ actions = []

/-- What a result tells about the actions. The creation of a project that fails can have created it: the hash is
stored afterwards. -/
def Operation.Answers (op : Operation) (r : Except Failure Response) (actions : List Vault.Action) : Prop :=
  match op with
  | .startUp | .previewPull _ | .previewRestore _ _ | .previewDiscard _ => actions = []
  | .createProject _ => actions.length ≤ 1 ∧ ∀ response, r = .ok response → (response.Accepts ↔ actions ≠ [])
  | _ => Decided Response.Accepts r actions

/-- Follows the actions of an operation. -/
def acting (op : Operation) : Monitor Cmd Cmd.Answer (List Vault.Action) where
  step actions c a :=
    match c, a with
    | .transact tx, .ok n => actions ++ (op.action? tx n).toList
    | _, _ => actions
  allows _ c := ∀ tx, c = .transact tx → op.confirms = none → ∀ n action, op.action? tx n = some action → op.Asks action
  expects _ c a :=
    match c, a with
    | .projectsGet id, .ok row => ∀ p ∈ row, p.id = id
    | .secretsList projectId, .ok rows => ∀ s ∈ rows, s.projectId = projectId
    | .fs .remove, .error _ => False
    | _, _ => True

/-- No action. -/
def Cmd.Silent (op : Operation) : Cmd → Prop
  | .transact tx => ∀ n, op.action? tx n = none
  | _ => True

theorem Traceless.silent {op : Operation} {c : Cmd} (h : Traceless c) : c.Silent op := by
  cases c with
  | transact tx => exact h.elim
  | _ => trivial

section Decides
variable {α β : Type} {op : Operation} {actions : List Vault.Action} {S : α → Prop} {T : β → Prop} {task : Op α}
  {f : α → Op β} {client : ResticClient}

theorem silent_allowed {c : Cmd} (hc : c.Silent op) : (acting op).allows actions c := by
  rintro tx rfl - n action haction
  rw [hc n] at haction
  cases haction

theorem silent_acting {c : Cmd} (hc : c.Silent op) :
    (acting op).allows actions c ∧ ∀ a, (acting op).step actions c a = actions := by
  refine ⟨silent_allowed hc, fun a => ?_⟩
  cases c with
  | transact tx =>
      cases a with
      | error e => rfl
      | ok n =>
          show actions ++ (op.action? tx n).toList = actions
          rw [hc n, Option.toList_none, List.append_nil]
  | _ => rfl

theorem silent_traceless (h : task.Only Traceless) : task.Only (Cmd.Silent op) := h.mono fun _ => Traceless.silent

theorem silent_meets (h : task.Only (Cmd.Silent op)) {Q : Except Failure α → List Vault.Action → Prop}
    (hQ : ∀ r, Q r actions) : task.Meets (acting op) actions Q :=
  h.meets (fun _ hc => silent_acting hc) hQ

/-- The task takes one action when it has a result of the wanted kind, and otherwise none. -/
def Decides (op : Operation) (S : α → Prop) (task : Op α) : Prop := task.Meets (acting op) [] (Decided S)

theorem decides_pure {a : α} (h : ¬ S a) : Decides op S (pure a) := by
  refine Or.inr ⟨fun b hb => ?_, rfl⟩
  obtain rfl := Except.ok.inj hb
  exact h

theorem decided_error (e : Failure) : Decided S (.error e) [] := Or.inr ⟨by rintro b ⟨⟩, rfl⟩

theorem decides_fail (e : Failure) : Decides op S (.fail e : Op α) := decided_error e

theorem Decides.after (h : task.Only (Cmd.Silent op)) (hf : ∀ a, Decides op T (f a)) : Decides op T (task >>= f) := by
  rw [Decides, meets_bind]
  refine silent_meets h fun r => ?_
  cases r with
  | error e => exact decided_error e
  | ok a => exact hf a

/-- After the action only the result is left. -/
theorem Decides.andThen (h : Decides op S task) (hyes : ∀ a, S a → ∃ b, f a = pure b ∧ T b)
    (hno : ∀ a, ¬ S a → Decides op T (f a)) : Decides op T (task >>= f) := by
  rw [Decides, meets_bind]
  refine Prog.Meets.mono h fun r actions hr => ?_
  rcases hr with ⟨⟨a, rfl, ha⟩, action, rfl⟩ | ⟨hr, rfl⟩
  · obtain ⟨b, hb, hT⟩ := hyes a ha
    rw [then_ok, hb]
    exact Or.inl ⟨⟨b, rfl, hT⟩, action, rfl⟩
  · cases r with
    | error e => exact decided_error e
    | ok a => exact hno a (hr a rfl)

theorem Decides.map (h : Decides op S task) (g : α → β) (hT : ∀ a, T (g a) ↔ S a) :
    Decides op T (task >>= fun a => pure (g a)) :=
  h.andThen (fun a ha => ⟨g a, rfl, (hT a).mpr ha⟩) fun a ha => decides_pure fun h => ha ((hT a).mp h)

theorem decides_transact {tx : Transaction} {b : β}
    (hasks : op.confirms = none → ∀ n action, op.action? tx n = some action → op.Asks action)
    (haction : ∀ n, ∃ action, op.action? tx n = some action) (hT : T b) :
    Decides op T (Op.transact tx >>= fun _ => pure b) := by
  rw [Decides, meets_bind, Op.transact, meets_bind, meets_lift]
  refine ⟨fun tx' htx => ?_, fun a _ => ?_⟩
  · cases htx
    exact hasks
  · rw [then_ok, meets_ofExcept]
    cases a with
    | error e => exact decided_error e
    | ok n =>
        obtain ⟨action, haction⟩ := haction n
        have hstep : (acting op).step [] (.transact tx) (.ok n) = [action] := by
          show [] ++ (op.action? tx n).toList = [action]
          rw [haction]
          rfl
        rw [then_ok, hstep]
        exact Or.inl ⟨⟨b, rfl, hT⟩, action, rfl⟩

theorem Decides.withLock {name : JsString} (h : Decides op S task) : Decides op S (dbUtilsWithLock name task) := by
  rw [dbUtilsWithLock]
  refine .after (only_lift.mpr trivial) fun held => .after only_ofExcept fun _ => ?_
  rw [Decides, meets_tryFinally]
  refine Prog.Meets.mono h fun r actions hr => ?_
  refine meets_lift.mpr ⟨silent_allowed trivial, fun _ _ => ?_⟩
  rw [then_ok, meets_ofExcept]
  exact hr

theorem Decides.catch {handler : Failure → Op α} (h : Decides op S task)
    (hhandler : ∀ e, Decides op S (handler e)) : Decides op S (task.tryCatch handler) := by
  rw [Decides, meets_tryCatch]
  refine Prog.Meets.mono h fun r actions hr => ?_
  cases r with
  | ok a => exact hr
  | error e =>
      rcases hr with ⟨⟨a, ha, -⟩, -⟩ | ⟨-, rfl⟩
      · cases ha
      · exact hhandler e

/-- The removal of the working directory succeeds. -/
theorem Decides.withWorkDir (h : Decides op S task) : Decides op S (withWorkDir task) := by
  rw [SecretsManager.withWorkDir]
  refine .after (only_query trivial) fun _ => ?_
  rw [Decides, meets_tryFinally]
  refine Prog.Meets.mono (Decides.after (only_query (c := Cmd.fs .ensurePrivateDir) trivial) fun _ => h)
    fun r actions hr => ?_
  refine meets_bind.mpr (meets_lift.mpr ⟨silent_allowed (c := .fs .remove) trivial, fun removed hremoved => ?_⟩)
  rw [then_ok, meets_ofExcept]
  cases removed with
  | error e => exact hremoved.elim
  | ok =>
      rw [then_ok, meets_ofExcept]
      exact hr

theorem decides_projectsDataGet {id : JsString} {f : Option Project → Op β}
    (hf : ∀ row, (∀ p ∈ row, p.id = id) → Decides op T (f row)) : Decides op T (projectsDataGet id >>= f) := by
  rw [Decides, meets_bind, projectsDataGet, meets_bind, meets_lift]
  refine ⟨silent_allowed trivial, fun a ha => ?_⟩
  rw [then_ok, meets_ofExcept]
  cases a with
  | error e => exact decided_error e
  | ok row => exact hf row ha

theorem decides_secretsList {projectId : JsString} {f : List Secret → Op β}
    (hf : ∀ rows, (∀ s ∈ rows, s.projectId = projectId) → Decides op T (f rows)) :
    Decides op T (secretsDataListForProject projectId >>= f) := by
  rw [Decides, meets_bind, secretsDataListForProject, meets_bind, meets_lift]
  refine ⟨silent_allowed trivial, fun a ha => ?_⟩
  rw [then_ok, meets_ofExcept]
  cases a with
  | error e => exact decided_error e
  | ok rows => exact hf rows ha

theorem decides_newSecret {projectId : JsString} {content : SecretContent} {f : Secret → Op β}
    (hf : ∀ id now, Decides op T (f ⟨content, id, projectId, now, now, 1⟩)) :
    Decides op T (newSecret projectId content >>= f) := by
  rw [Decides, meets_bind, newSecret, meets_bind, Op.uuid, meets_lift]
  refine ⟨silent_allowed (c := .uuid) trivial, fun id _ => ?_⟩
  rw [then_ok, meets_bind, Op.now, meets_lift]
  exact ⟨silent_allowed (c := .now) trivial, fun now _ => hf id now⟩

theorem decides_ite {c : Prop} [Decidable c] {yes no : Op α} (hyes : c → Decides op S yes)
    (hno : ¬ c → Decides op S no) : Decides op S (if c then yes else no) := meets_ite hyes hno

end Decides

/-! ## The routes -/

theorem not_accepts {response : Response} {message : JsString} {code : Option JsString}
    (h : response.body = .error message code) : ¬ response.Accepts := fun haccepts => haccepts message code h

section Routes
variable {P : Platform} {timeouts : ResticTimeouts} {op : Operation} {projectId secretId : JsString} {body : SecretBody}

/-- The outcome of a section decides the response. -/
theorem decides_secretRoute {lock : JsString} {critical : Op SecretOutcome}
    (h : Decides op (fun outcome => outcome.response.Accepts) critical) :
    Decides op Response.Accepts (Prog.tryCatch
      (do
        let outcome ← projectWriteLocksRun lock critical
        pure outcome.response)
      onUniqueViolation) := by
  refine ((Decides.withLock h).map _ fun _ => Iff.rfl).catch fun e => ?_
  cases e with
  | uniqueViolation => exact decides_pure (not_accepts rfl)
  | _ => exact decides_fail _

theorem decides_createSecret :
    Decides (.createSecret projectId body) Response.Accepts (createSecret P projectId body) := by
  unfold createSecret
  dsimp only
  refine decides_ite (fun _ => decides_pure (not_accepts rfl)) fun _ => decides_secretRoute ?_
  refine decides_projectsDataGet fun row _ => ?_
  cases row with
  | none => exact decides_pure (not_accepts rfl)
  | some project =>
      refine decides_secretsList fun secrets _ => decides_ite (fun _ => decides_pure (not_accepts rfl)) fun _ => ?_
      refine decides_newSecret fun id now => decides_transact (fun _ n action haction => ?_) (fun n => ⟨_, rfl⟩) ?_
      · obtain rfl := Option.some.inj haction
        exact ⟨rfl, rfl, rfl⟩
      · intro message code hbody
        cases hbody

/-- The update acts when it changes the row, and otherwise finds none or another version. -/
theorem decides_secretsDataUpdate {secret : Secret} {version : Nat} {hash : JsString} {action : Vault.Action}
    (haction : ∀ date n, op.action? (.secretsDataUpdate secret.id secret.projectId secret.toSecretContent date version
      hash) n = if n = 1 then some action else none) (hasks : op.Asks action) :
    Decides op (fun status => ∃ s, status = .updated s) (secretsDataUpdate secret version hash) := by
  rw [Decides, secretsDataUpdate, meets_bind, Op.now, meets_lift]
  refine ⟨silent_allowed (c := .now) trivial, fun date _ => ?_⟩
  rw [(silent_acting (c := .now) trivial).2 date, then_ok, meets_bind, Op.transact, meets_bind, meets_lift]
  refine ⟨fun tx htx => ?_, fun a _ => ?_⟩
  · cases htx
    rintro - n action' haction'
    rw [haction] at haction'
    split_ifs at haction'
    obtain rfl := Option.some.inj haction'
    exact hasks
  · rw [then_ok, meets_ofExcept]
    cases a with
    | error e => exact decided_error e
    | ok n =>
        have hstep : (acting op).step [] (.transact (.secretsDataUpdate secret.id secret.projectId
            secret.toSecretContent date version hash)) (.ok n) = if n = 1 then [action] else [] := by
          show [] ++ (op.action? _ n).toList = _
          rw [haction]
          split_ifs <;> rfl
        rw [then_ok, hstep]
        refine meets_ite (fun hn => ?_) fun hn => ?_
        · rw [if_pos hn]
          exact Or.inl ⟨⟨_, rfl, _, rfl⟩, action, rfl⟩
        · rw [if_neg hn]
          refine Decides.after (only_query (c := Cmd.secretsGet secret.id) trivial) fun current => ?_
          cases current with
          | none => exact decides_pure (by rintro ⟨s, ⟨⟩⟩)
          | some current => exact decides_ite (fun _ => decides_pure (by rintro ⟨s, ⟨⟩⟩)) fun _ => decides_pure (by rintro ⟨s, ⟨⟩⟩)

theorem accepts_updated {status : SecretsUpdateStatus} : status.outcome.response.Accepts ↔ ∃ s, status = .updated s := by
  cases status with
  | updated s => exact ⟨fun _ => ⟨s, rfl⟩, fun _ message code hbody => by cases hbody⟩
  | notFound => exact ⟨fun h => absurd h (not_accepts rfl), by rintro ⟨s, ⟨⟩⟩⟩
  | versionConflict => exact ⟨fun h => absurd h (not_accepts rfl), by rintro ⟨s, ⟨⟩⟩⟩

/-- The row that a search for an id finds. -/
theorem find?_listed {rows : List Secret} {s : Secret} (hrows : ∀ s ∈ rows, s.projectId = projectId)
    (hfind : (rows.find? fun candidate => candidate.id = secretId) = some s) :
    s.projectId = projectId ∧ s.id = secretId :=
  ⟨hrows s (List.mem_of_find?_eq_some hfind), by simpa using List.find?_some hfind⟩

theorem decides_updateSecret :
    Decides (.updateSecret projectId secretId body) Response.Accepts (updateSecret P projectId secretId body) := by
  unfold updateSecret
  cases hversion : parseVersion body.version with
  | none => exact decides_pure (not_accepts rfl)
  | some version =>
      refine decides_ite (fun _ => decides_pure (not_accepts rfl)) fun _ => decides_secretRoute ?_
      refine decides_projectsDataGet fun row _ => ?_
      cases row with
      | none => exact decides_pure (not_accepts rfl)
      | some project =>
          refine decides_secretsList fun secrets hsecrets => ?_
          cases hfind : secrets.find? fun candidate => candidate.id = secretId with
          | none => exact decides_pure (not_accepts rfl)
          | some secret =>
              obtain ⟨hproject, hid⟩ := find?_listed hsecrets hfind
              refine decides_ite (fun _ => decides_pure (not_accepts rfl)) fun _ => ?_
              refine decides_ite (fun _ => decides_pure (not_accepts rfl)) fun _ => ?_
              have hasks : (Operation.updateSecret projectId secretId body).Asks
                  (.change secret.projectId secret.id version
                    (if body.name.isSome then some (requestedContent body secret).name else none)
                    (if body.data.isSome then some (requestedContent body secret).data.get? else none)) := by
                refine ⟨hproject, hid, hversion, ?_, ?_⟩ <;> unfold requestedContent requestedName
                · cases body.name.isSome <;> rfl
                · cases body.data.isSome <;> rfl
              exact (decides_secretsDataUpdate (fun _ _ => rfl) hasks).map _ fun _ => accepts_updated

theorem decides_updateKeyAttempts {value : JsValue} (hvalue : body.value = some value) (attempts : Nat) :
    Decides (.updateSecretKey projectId secretId body) (fun outcome => outcome.response.Accepts)
      (updateKeyAttempts P projectId secretId (requestedKey body) value.toJsString attempts) := by
  induction attempts with
  | zero => exact decides_pure (not_accepts rfl)
  | succ attempts ih =>
      refine decides_secretsList fun secrets hsecrets => ?_
      cases hfind : secrets.find? fun candidate => candidate.id = secretId with
      | none => exact decides_pure (not_accepts rfl)
      | some secret =>
          obtain ⟨hproject, hid⟩ := find?_listed hsecrets hfind
          have hasks : (Operation.updateSecretKey projectId secretId body).Asks
              (.setKey secret.projectId secret.id (requestedKey body)
                (((secret.data.define (requestedKey body) value.toJsString).get? (requestedKey body)).getD [])) := by
            refine ⟨hproject, hid, rfl, value, hvalue, ?_⟩
            rw [get?_define, if_pos rfl]
            rfl
          refine (decides_secretsDataUpdate (fun _ _ => rfl) hasks).andThen (fun status hstatus => ?_)
            fun status hstatus => ?_
          · obtain ⟨s, rfl⟩ := hstatus
            exact ⟨.updated s, rfl, by rintro message code ⟨⟩⟩
          · cases status with
            | updated s => exact absurd ⟨s, rfl⟩ hstatus
            | notFound => exact decides_pure (not_accepts rfl)
            | versionConflict => exact ih

theorem decides_updateSecretKey :
    Decides (.updateSecretKey projectId secretId body) Response.Accepts
      (updateSecretKey P projectId secretId body) := by
  unfold updateSecretKey
  refine decides_ite (fun _ => decides_pure (not_accepts rfl)) fun _ => ?_
  cases hscalar : body.value.filter JsValue.isScalar with
  | none => exact decides_pure (not_accepts rfl)
  | some value =>
      refine decides_ite (fun _ => decides_pure (not_accepts rfl)) fun _ => decides_secretRoute ?_
      refine decides_projectsDataGet fun row _ => ?_
      cases row with
      | none => exact decides_pure (not_accepts rfl)
      | some project => exact decides_updateKeyAttempts (Option.filter_eq_some_iff.mp hscalar).1 _

theorem decides_deleteSecret :
    Decides (.deleteSecret projectId secretId) Response.Accepts (deleteSecret P projectId secretId) := by
  refine (Decides.withLock (S := fun outcome => outcome.response.Accepts) ?_).map _ fun _ => Iff.rfl
  refine decides_projectsDataGet fun row _ => ?_
  cases row with
  | none => exact decides_pure (not_accepts rfl)
  | some project =>
      refine decides_secretsList fun secrets hsecrets => ?_
      cases hfind : secrets.find? fun candidate => candidate.id = secretId with
      | none => exact decides_pure (not_accepts rfl)
      | some secret =>
          refine decides_transact (fun _ n action haction => ?_) (fun n => ⟨_, rfl⟩)
            (by rintro message code ⟨⟩)
          obtain rfl := Option.some.inj haction
          exact ⟨rfl, (find?_listed hsecrets hfind).2⟩

theorem decides_deleteProject {id : JsString} :
    Decides (.deleteProject id) Response.Accepts (deleteProject id) := by
  refine decides_projectsDataGet fun row hrow => ?_
  cases row with
  | none => exact decides_pure (not_accepts rfl)
  | some project =>
      have hproject : project.id = id := hrow project rfl
      refine (Decides.withLock (S := fun deleted => deleted = true) ?_).andThen (fun deleted hdeleted => ?_)
        fun deleted hdeleted => ?_
      · refine decides_projectsDataGet fun row hrow => ?_
        cases row with
        | none => exact decides_pure Bool.false_ne_true
        | some fresh =>
            refine decides_transact (fun _ n action haction => ?_) (fun n => ⟨_, rfl⟩) rfl
            obtain rfl := Option.some.inj haction
            exact (hrow fresh rfl).trans hproject
      · rw [hdeleted]
        exact ⟨_, rfl, by rintro message code ⟨⟩⟩
      · rw [if_neg hdeleted]
        exact decides_pure (not_accepts rfl)

/-- The section has created the project when it says so; the hash is stored outside of it. -/
theorem acting_createProject {body : ProjectBody} : (createProject P body).Meets (acting (.createProject body)) []
    fun r actions => actions.length ≤ 1 ∧ ∀ response, r = .ok response → (response.Accepts ↔ actions ≠ []) := by
  have hrefused : ∀ {r : Except Failure Response}, (∀ response, r = .ok response → ¬ response.Accepts) →
      ([] : List Vault.Action).length ≤ 1 ∧ ∀ response, r = .ok response → (response.Accepts ↔ [] ≠ ([] : List Vault.Action)) :=
    fun h => ⟨Nat.zero_le 1, fun response hresponse => ⟨fun haccepts => absurd haccepts (h response hresponse), fun hne =>
      absurd rfl hne⟩⟩
  have hrefusal : ∀ {response : Response}, ¬ response.Accepts → ∀ response', (.ok response : Except Failure Response) =
      .ok response' → ¬ response'.Accepts := by
    rintro response h _ ⟨⟩
    exact h
  have hsection : ∀ project : Project, (Operation.createProject body).Asks (.addProject (project.created P).entry) →
      Decides (.createProject body) (fun outcome => outcome = .created) (createProjectSection P body project) := by
    intro project hproject
    refine .after (only_query (c := Cmd.projectsGetByName _) trivial) fun row => ?_
    cases row with
    | some row => exact decides_pure (by rintro ⟨⟩)
    | none =>
        have hlist : projectsDataList.Only (Cmd.Silent (.createProject body)) :=
          only_query (c := Cmd.projectsList) trivial
        refine .after only_ofExcept fun targetKey => .after (hlist.bind fun _ => only_pure) fun existing => ?_
        cases existing with
        | some existing => exact decides_pure (by rintro ⟨⟩)
        | none =>
            have hadd : Decides (.createProject body) (fun _ : Unit => True) (projectsDataAdd P project) := by
              refine decides_transact (fun _ n action haction => ?_) (fun n => ⟨_, rfl⟩) trivial
              obtain rfl := Option.some.inj haction
              exact hproject
            exact hadd.map _ fun _ => ⟨fun _ => trivial, fun _ => rfl⟩
  unfold createProject
  dsimp only
  refine meets_ite (fun _ => hrefused (hrefusal (not_accepts rfl))) fun _ => ?_
  rw [meets_bind, Op.uuid, meets_lift]
  refine ⟨silent_allowed (c := .uuid) trivial, fun newId _ => ?_⟩
  rw [(silent_acting (c := .uuid) trivial).2 newId, then_ok, meets_bind, Op.now, meets_lift]
  refine ⟨silent_allowed (c := .now) trivial, fun now _ => ?_⟩
  rw [(silent_acting (c := .now) trivial).2 now, then_ok, meets_bind]
  refine Prog.Meets.mono (Decides.withLock (hsection (Project.fromJson body newId now) ⟨rfl, rfl⟩)) fun r actions hr => ?_
  rcases hr with ⟨⟨outcome, rfl, rfl⟩, action, rfl⟩ | ⟨hr, rfl⟩
  · rw [then_ok, meets_bind]
    have hrefresh : (secretsHashRefreshForProject P (Project.fromJson body newId now).id).Only
        (Cmd.Silent (.createProject body)) :=
      (only_query (c := Cmd.secretsList _) trivial).bind fun rows =>
        (only_query (c := Cmd.transact _) fun _ => rfl).bind fun _ => only_pure
    refine silent_meets hrefresh fun r => ?_
    cases r with
    | error e => exact ⟨le_rfl, by rintro response ⟨⟩⟩
    | ok =>
        refine ⟨le_rfl, fun response hresponse => ?_⟩
        obtain rfl := Except.ok.inj hresponse
        exact ⟨fun _ => List.cons_ne_nil _ _, by rintro _ message code ⟨⟩⟩
  · cases r with
    | error e => exact hrefused (by rintro response ⟨⟩)
    | ok outcome =>
        cases outcome with
        | created => exact absurd rfl (hr _ rfl)
        | nameConflict => exact hrefused (hrefusal (not_accepts rfl))
        | targetConflict existingName => exact hrefused (hrefusal (not_accepts rfl))

/-! ## The synchronizations -/

theorem not_accepts_sendSyncError (e : Failure) : ¬ (sendSyncError e).Accepts := by
  cases e <;> exact not_accepts rfl

theorem decides_rereadProject {β : Type} {T : β → Prop} {project : Project} {f : Project → Op β}
    (hf : ∀ fresh, fresh.id = project.id → Decides op T (f fresh)) : Decides op T (rereadProject project >>= f) := by
  have hget : Decides op T (projectsDataGet project.id >>= fun fresh => f (fresh.getD project)) := by
    refine decides_projectsDataGet fun row hrow => hf _ ?_
    cases row with
    | none => rfl
    | some fresh => exact hrow fresh rfl
  rw [Decides, meets_bind, rereadProject, meets_bind]
  refine (meets_bind.mp hget).mono fun r actions hr => ?_
  cases r with
  | error e => exact hr
  | ok row => exact hr

theorem decides_syncRoute {α : Type} {task : Project → Op α} {body : α → ResponseBody}
    (hbody : ∀ a message code, body a ≠ .error message code)
    (h : ∀ project, project.id = projectId → Decides op (fun _ => True) (task project)) :
    Decides op Response.Accepts (syncRoute projectId task body) := by
  refine decides_projectsDataGet fun row hrow => ?_
  cases row with
  | none => exact decides_pure (not_accepts rfl)
  | some project =>
      refine ((h project (hrow project rfl)).map _ fun a => ⟨fun _ => trivial, fun _ => hbody a⟩).catch fun e => ?_
      exact decides_pure (not_accepts_sendSyncError e)

theorem decides_pushSecrets {client : ResticClient} {pushedBy : Option JsString} (hid : client.project.id = projectId) :
    Decides (.push projectId pushedBy) (fun _ => True) (pushSecrets P client pushedBy) := by
  refine .after (only_query (c := Cmd.secretsList _) trivial) fun secrets => ?_
  refine .after (Prog.Only.foldlM (only_exportSecret fun _ => trivial) _ _) fun dir => ?_
  refine .after (silent_traceless traceless_prepareRepository) fun snapshots => ?_
  refine .after only_checkNoConflict fun _ => .after (only_backup trivial) fun createdId => ?_
  refine .after (silent_traceless traceless_resolveCreatedSnapshot) fun created => ?_
  refine (Decides.withLock (S := fun _ => True) ?_).map _ fun _ => Iff.rfl
  refine decides_projectsDataGet fun row _ => ?_
  cases row with
  | none => exact decides_fail _
  | some fresh =>
      refine decides_ite (fun _ => decides_fail _) fun _ => ?_
      refine decides_secretsList fun freshSecrets _ => decides_transact (fun _ n action haction => ?_)
        (fun n => ⟨_, rfl⟩) trivial
      obtain rfl := Option.some.inj haction
      exact hid

theorem decides_push {pushedBy : Option JsString} :
    Decides (.push projectId pushedBy) Response.Accepts (push P timeouts projectId pushedBy) := by
  refine decides_syncRoute (by rintro a message code ⟨⟩) fun project hid => ?_
  exact decides_rereadProject fun fresh hfresh => Decides.withWorkDir (decides_pushSecrets (hfresh.trans hid))

theorem decides_restoreAndApply (hconfirms : op.confirms ≠ none) {client : ResticClient} {expected : JsString}
    {snapshot : ResticSnapshot} : Decides op (fun _ => True) (restoreAndApply P client expected snapshot) := by
  refine .after (only_restore trivial) fun listing => .after (only_fs trivial) fun _ => ?_
  refine .after (silent_traceless (traceless_readSnapshotSecretsForProject _ _)) fun secrets => ?_
  refine (Decides.withLock (S := fun _ => True) ?_).map _ fun _ => Iff.rfl
  refine decides_projectsDataGet fun row _ => ?_
  cases row with
  | none => exact decides_fail _
  | some project =>
      refine decides_secretsList fun current _ => decides_ite (fun _ => decides_fail _) fun _ => ?_
      exact decides_transact (fun hnone => absurd hnone hconfirms) (fun n => ⟨_, rfl⟩) trivial

theorem decides_restoreSnapshotUnlocked (hconfirms : op.confirms ≠ none) {project : Project} {snapshotId : JsString}
    {sent : Option JsString} :
    Decides op (fun _ => True) (resticSyncRestoreSnapshotUnlocked P timeouts project snapshotId sent) := by
  refine decides_rereadProject fun project _ => ?_
  refine .after (silent_traceless (traceless_resolveExpectedContentHash _ _)) fun expected => ?_
  refine Decides.withWorkDir (.after (silent_traceless traceless_snapshots) fun snapshots => ?_)
  split
  · exact decides_fail _
  · exact decides_restoreAndApply hconfirms

theorem decides_pull {snapshotId contentHash : Option JsValue} :
    Decides (.pull projectId snapshotId contentHash) Response.Accepts
      (pull P timeouts projectId snapshotId contentHash) := by
  have hconfirms : (Operation.pull projectId snapshotId contentHash).confirms ≠ none := Option.some_ne_none _
  have hpull : ∀ project id sent, Decides (.pull projectId snapshotId contentHash) (fun _ => True)
      (resticSyncPullUnlocked P timeouts project id sent) := by
    intro project id sent
    refine decides_ite (fun _ => decides_fail _) fun _ => decides_rereadProject fun project _ => ?_
    refine .after (silent_traceless (traceless_resolveExpectedContentHash _ _)) fun expected => ?_
    refine Decides.withWorkDir (.after (silent_traceless traceless_snapshots) fun snapshots => ?_)
    split
    · exact decides_fail _
    · exact decides_ite (fun _ => decides_fail _) fun _ => decides_restoreAndApply hconfirms
  refine decides_projectsDataGet fun row _ => ?_
  cases row with
  | none => exact decides_pure (not_accepts rfl)
  | some project =>
      refine decides_ite (fun _ => decides_pure (not_accepts rfl)) fun _ => ?_
      refine ((hpull _ _ _).map _ fun _ => ⟨fun _ => trivial, by rintro _ message code ⟨⟩⟩).catch fun e => ?_
      exact decides_pure (not_accepts_sendSyncError e)

theorem decides_discard {contentHash : Option JsValue} :
    Decides (.discard projectId contentHash) Response.Accepts (discard P timeouts projectId contentHash) := by
  refine decides_syncRoute (by rintro a message code ⟨⟩) fun project _ => decides_rereadProject fun project _ => ?_
  have hconfirms : (Operation.discard projectId contentHash).confirms ≠ none := Option.some_ne_none _
  exact decides_ite (fun _ => decides_fail _) fun _ => decides_restoreSnapshotUnlocked hconfirms

/-- **The result of each operation tells about its actions.** -/
theorem meets_acting (op : Operation) : (serve P timeouts op).Meets (acting op) [] op.Answers := by
  -- an operation without an action of its kind
  have hidle : (∀ tx n, op.Issues tx → op.action? tx n = none) →
      (serve P timeouts op).Meets (acting op) [] fun _ actions => actions = [] := by
    refine fun hissues => silent_meets ((only_issues op).mono fun c hc => ?_) fun _ => rfl
    cases c with
    | transact tx => exact fun n => hissues tx n hc
    | _ => trivial
  cases op with
  | startUp =>
      refine hidle fun tx n htx => ?_
      cases tx <;> first | rfl | exact htx.elim
  | createProject body => exact acting_createProject
  | deleteProject id => exact decides_deleteProject
  | createSecret projectId body => exact decides_createSecret
  | updateSecret projectId secretId body => exact decides_updateSecret
  | updateSecretKey projectId secretId body => exact decides_updateSecretKey
  | deleteSecret projectId secretId => exact decides_deleteSecret
  | push projectId pushedBy => exact decides_push
  | pull projectId snapshotId contentHash => exact decides_pull
  | restore projectId snapshotId contentHash =>
      have hconfirms : (Operation.restore projectId snapshotId contentHash).confirms ≠ none := Option.some_ne_none _
      exact decides_syncRoute (by rintro a message code ⟨⟩) fun project _ => decides_restoreSnapshotUnlocked hconfirms
  | discard projectId contentHash => exact decides_discard
  | previewPull projectId | previewRestore projectId snapshotId | previewDiscard projectId =>
      exact hidle fun tx n htx => htx.elim

end Routes

end SecretsManager
