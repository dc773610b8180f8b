import SecretsManager.Sections

/-!
# The sections of the secret routes

Every change of a secret follows the discipline of the write sections. A full update that succeeds has
committed one conditional update with the version of its request, which changed one row; one that does
not has changed no row.
-/

namespace SecretsManager

open Js Interleaving

section Platform
variable {P : Platform} {op : Operation} {v : View} {projectId secretId : JsString}

/-! ## What passes the checks can be stored -/

theorem storable_of_validate {name : JsValue} {data : Option Json} (h : Secret.validate name data = []) :
    (⟨stringOf name, normalizedData data⟩ : SecretContent).Storable := by
  obtain ⟨s, props, rfl, hs, -, rfl, hprops⟩ := Secret.validate_eq_nil h
  exact ⟨hs, Secret.keyed_normalizeData fun p hp => (hprops p hp).1⟩

/-- A full update checks the name that it leaves together with the data that it leaves. -/
theorem storable_of_validate_update {name : JsValue} {data : Option Json} {s : SecretContent}
    (hs : s.Storable)
    (h : Secret.validate name (if data.isSome then data else some s.data.toJson) = []) :
    (⟨stringOf name, if data.isSome then normalizedData data else s.data⟩ : SecretContent).Storable := by
  by_cases hdata : data.isSome = true
  · rw [if_pos hdata] at h ⊢
    exact storable_of_validate h
  · rw [if_neg hdata] at h ⊢
    obtain ⟨s', props, rfl, hs', -⟩ := Secret.validate_eq_nil h
    exact ⟨hs', hs.keyed⟩

theorem storable_define {s : SecretContent} (hs : s.Storable) {key : JsString} (hkey : key.length ≠ 0)
    (value : JsString) : (⟨s.name, s.data.define key value⟩ : SecretContent).Storable :=
  ⟨hs.name, hs.keyed.define fun h => hkey (by rw [h]; rfl)⟩

/-! ## Creation and deletion -/

theorem meets_createSecretSection (hop : op.confirms = none) {name : JsValue} {data : Option Json}
    {Q : Except Failure SecretOutcome → View → Prop} (hlock : v.Holds projectId)
    (hvalid : Secret.validate name data = []) (hQ : ∀ r v', v'.lock = v.lock → Q r v') :
    (createSecretSection P projectId (stringOf name) data).Meets (sections P op) v Q := by
  have hsome : v.lock.isSome = true := by rw [hlock]; rfl
  rw [createSecretSection, meets_bind]
  refine meets_projectsDataGet_inside hsome (fun row _ => ?_) fun e _ => hQ _ _ rfl
  rw [then_ok]
  cases row with
  | none => exact hQ _ _ rfl
  | some project =>
      rw [meets_bind]
      refine meets_secretsList_inside hsome (fun rows _ => ?_) fun e _ => hQ _ _ rfl
      rw [then_ok]
      split_ifs
      · exact hQ _ _ rfl
      · rw [meets_bind]
        refine meets_newSecret fun id now _ => ?_
        rw [then_ok, meets_bind]
        refine meets_transact ?_ (fun n => hQ _ _ rfl) fun e _ => hQ _ _ rfl
        exact ⟨hop, storable_of_validate hvalid, rfl, List.mem_cons_self .., rows, ⟨hlock, rfl⟩, rfl⟩

theorem meets_createSecret {body : SecretBody} {Q : Except Failure Response → View → Prop}
    (hop : op.confirms = none) (hlock : v.lock = none) (hQ : ∀ r v', Q r v') :
    (createSecret P projectId body).Meets (sections P op) v Q := by
  unfold createSecret
  dsimp only
  split_ifs with herrors
  · exact hQ _ _
  · have hvalid : Secret.validate (orEmpty body.name) body.data = [] := by
      rw [← List.length_eq_zero_iff]
      omega
    rw [meets_tryCatch, meets_bind, projectWriteLocksRun]
    refine meets_dbUtilsWithLock hlock ?_ fun e _ => ?_
    · refine meets_createSecretSection hop rfl hvalid fun r v' hv' => ⟨hv', ?_⟩
      cases r with
      | ok outcome => exact hQ _ _
      | error e => cases e <;> exact hQ _ _
    · cases e <;> exact hQ _ _

theorem meets_deleteSecretSection {Q : Except Failure SecretOutcome → View → Prop}
    (hop : op.confirms = none) (hlock : v.Holds projectId) (hQ : ∀ r v', v'.lock = v.lock → Q r v') :
    (deleteSecretSection P projectId secretId).Meets (sections P op) v Q := by
  have hsome : v.lock.isSome = true := by rw [hlock]; rfl
  rw [deleteSecretSection, meets_bind]
  refine meets_projectsDataGet_inside hsome (fun row _ => ?_) fun e _ => hQ _ _ rfl
  rw [then_ok]
  cases row with
  | none => exact hQ _ _ rfl
  | some project =>
      rw [meets_bind]
      refine meets_secretsList_inside hsome (fun rows _ => ?_) fun e _ => hQ _ _ rfl
      rw [then_ok]
      split
      · exact hQ _ _ rfl
      · rename_i secret hfind
        rw [meets_bind]
        refine meets_transact ?_ (fun n => hQ _ _ rfl) fun e _ => hQ _ _ rfl
        exact ⟨hop, rows, ⟨hlock, rfl⟩, ⟨secret, List.mem_of_find?_eq_some hfind, rfl⟩, rfl⟩

theorem meets_deleteSecret {Q : Except Failure Response → View → Prop} (hop : op.confirms = none)
    (hlock : v.lock = none)
    (hQ : ∀ r v', Q r v') : (deleteSecret P projectId secretId).Meets (sections P op) v Q := by
  rw [deleteSecret, meets_bind, projectWriteLocksRun]
  refine meets_dbUtilsWithLock hlock ?_ fun e _ => hQ _ _
  refine meets_deleteSecretSection hop rfl fun r v' hv' => ⟨hv', ?_⟩
  cases r <;> exact hQ _ _

/-! ## Updates -/

/-- The transactions of the operation have changed no row. -/
def View.Unchanged (v : View) : Prop :=
  ∀ tx n, (tx, n) ∈ v.done → ∃ id projectId content date version hash,
    tx = .secretsDataUpdate id projectId content date version hash ∧ n ≠ 1

/-- The single committed transaction is the update of one row, with this version. -/
def View.UpdatedOnce (v : View) (projectId secretId : JsString) (version : Nat) : Prop :=
  ∃ content date hash, v.done = [(.secretsDataUpdate secretId projectId content date version hash, 1)]

theorem unchanged_of_done (h : v.done = []) : v.Unchanged := by
  intro tx n hmem
  rw [h] at hmem
  cases hmem

theorem unchanged_committed {content : SecretContent} {date hash : JsString} {version n : Nat}
    (h : v.Unchanged) (hn : n ≠ 1) :
    (v.committed (.secretsDataUpdate secretId projectId content date version hash) n).Unchanged := by
  intro tx m hmem
  rcases List.mem_append.mp hmem with hmem | hmem
  · exact h tx m hmem
  · cases List.mem_singleton.mp hmem
    exact ⟨_, _, _, _, _, _, rfl, hn⟩

theorem updatedOnce_committed {content : SecretContent} {date hash : JsString} {version : Nat}
    (h : v.done = []) :
    (v.committed (.secretsDataUpdate secretId projectId content date version hash) 1).UpdatedOnce projectId
      secretId version :=
  ⟨content, date, hash, by rw [View.committed, h, List.nil_append]⟩

theorem meets_secretsDataUpdate {secret : Secret} {version : Nat} {hash : JsString}
    {Q : Except Failure SecretsUpdateStatus → View → Prop}
    (hallows : Updates P op v secret.id secret.projectId secret.toSecretContent version hash)
    (hupdated : ∀ date secret', Q (.ok (.updated secret'))
      (v.committed (.secretsDataUpdate secret.id secret.projectId secret.toSecretContent date version hash) 1))
    (hmissed : ∀ date n r, n ≠ 1 → (∀ secret', r ≠ .ok (.updated secret')) → Q r
      (v.committed (.secretsDataUpdate secret.id secret.projectId secret.toSecretContent date version hash) n))
    (herror : ∀ e, Q (.error e) v) :
    (secretsDataUpdate secret version hash).Meets (sections P op) v Q := by
  rw [secretsDataUpdate, meets_bind]
  refine harmless_now.meets (fun date => ?_) fun e _ => herror e
  rw [then_ok, meets_bind]
  refine meets_transact hallows (fun n => ?_) fun e _ => herror e
  rw [then_ok]
  split_ifs with hn
  · subst hn
    exact hupdated date _
  · rw [meets_bind]
    refine (harmless_secretsDataGet _).meets (fun current => ?_) fun e _ =>
      hmissed date n _ hn fun _ h => by cases h
    rw [then_ok]
    cases current with
    | none => exact hmissed date n _ hn fun _ h => by cases h
    | some current =>
        simp only
        split_ifs <;> exact hmissed date n _ hn fun _ h => by cases h

/-- A status of a full update that was not carried out. -/
def Rejects (response : Response) : Prop :=
  response.status = 400 ∨ response.status = 404 ∨ response.status = 409

def UpdateSectionOutcome (projectId secretId : JsString) (version : Nat)
    (r : Except Failure SecretOutcome) (v : View) : Prop :=
  (∃ secret, r = .ok (.updated secret) ∧ v.UpdatedOnce projectId secretId version) ∨
    ((∀ outcome, r = .ok outcome → Rejects outcome.response) ∧ v.Unchanged)

/-- A full update answers 200 and has changed one row, or fails or rejects and has changed none. -/
def UpdateOutcome (projectId secretId : JsString) (version : Option Nat) (r : Except Failure Response)
    (v : View) : Prop :=
  (∃ secret version', r = .ok ⟨200, .secret secret⟩ ∧ version = some version' ∧
      v.UpdatedOnce projectId secretId version') ∨
    ((∀ response, r = .ok response → Rejects response) ∧ v.Unchanged)

theorem meets_updateSecretSection {version : Nat} {body : SecretBody}
    {Q : Except Failure SecretOutcome → View → Prop} (hedits : op.confirms = none) (hlock : v.Holds projectId) (hdone : v.done = [])
    (hop : ∀ projectId' secretId' body', op = .updateSecret projectId' secretId' body' →
      projectId' = projectId ∧ secretId' = secretId ∧ parseVersion body'.version = some version)
    (hQ : ∀ r v', v'.lock = v.lock → UpdateSectionOutcome projectId secretId version r v' → Q r v') :
    (updateSecretSection P projectId secretId version body).Meets (sections P op) v Q := by
  have hsome : v.lock.isSome = true := by rw [hlock]; rfl
  have hreject : ∀ (r : Except Failure SecretOutcome) (v' : View), v'.lock = v.lock → v'.Unchanged →
      (∀ outcome, r = .ok outcome → Rejects outcome.response) → Q r v' := fun r v' hv' hu hr =>
    hQ r v' hv' (Or.inr ⟨hr, hu⟩)
  have hunchanged : v.Unchanged := unchanged_of_done hdone
  rw [updateSecretSection, meets_bind]
  refine meets_projectsDataGet_inside hsome (fun row _ => ?_) fun e _ =>
    hreject _ _ rfl hunchanged fun _ h => by cases h
  rw [then_ok]
  cases row with
  | none => exact hreject _ _ rfl hunchanged fun _ h => by cases h; exact Or.inr (Or.inl rfl)
  | some project =>
      rw [meets_bind]
      refine meets_secretsList_inside hsome (fun rows hrows => ?_) fun e _ =>
        hreject _ _ rfl hunchanged fun _ h => by cases h
      have hunchanged' : ({ v with found := some projectId, list := some (projectId, rows) } : View).Unchanged :=
        hunchanged
      rw [then_ok]
      split
      · exact hreject _ _ rfl hunchanged' fun _ h => by cases h; exact Or.inr (Or.inl rfl)
      · rename_i secret hfind
        have hsecret : secret ∈ rows := List.mem_of_find?_eq_some hfind
        have hid : secret.id = secretId := by simpa using List.find?_some hfind
        refine meets_ite (fun _ => ?_) fun herrors => ?_
        · exact hreject _ _ rfl hunchanged' fun _ h => by cases h; exact Or.inl rfl
        · refine meets_ite (fun _ => ?_) fun _ => ?_
          · exact hreject _ _ rfl hunchanged' fun _ h => by cases h; exact Or.inr (Or.inr rfl)
          · rw [meets_bind]
            have hproject : secret.projectId = projectId := hrows secret hsecret
            subst hid hproject
            refine meets_secretsDataUpdate ⟨hedits, ⟨rows, secret, ⟨hlock, rfl⟩, hsecret, rfl, fun hs => ?_, rfl⟩, hop⟩ ?_ ?_ ?_
            · refine storable_of_validate_update hs ?_
              rw [← List.length_eq_zero_iff]
              omega
            · exact fun date secret' => hQ _ _ rfl (Or.inl ⟨secret', rfl, updatedOnce_committed hdone⟩)
            · intro date n r hn hr
              cases r with
              | error e => exact hreject _ _ rfl (unchanged_committed hunchanged' hn) fun _ h => by cases h
              | ok status =>
                  refine hreject _ _ rfl (unchanged_committed hunchanged' hn) fun _ h => ?_
                  cases status with
                  | updated secret' => exact absurd rfl (hr secret')
                  | notFound => cases h; exact Or.inr (Or.inl rfl)
                  | versionConflict => cases h; exact Or.inr (Or.inr rfl)
            · exact fun e => hreject _ _ rfl hunchanged' fun _ h => by cases h

theorem meets_updateSecret {body : SecretBody} {Q : Except Failure Response → View → Prop}
    (hlock : v.lock = none) (hdone : v.done = [])
    (hQ : ∀ r v', UpdateOutcome projectId secretId (parseVersion body.version) r v' → Q r v') :
    (updateSecret P projectId secretId body).Meets
      (sections P (.updateSecret projectId secretId body)) v Q := by
  have hreject : ∀ (r : Except Failure Response) (v' : View), v'.Unchanged →
      (∀ response, r = .ok response → Rejects response) → Q r v' := fun r v' hu hr => hQ r v' (Or.inr ⟨hr, hu⟩)
  unfold updateSecret
  cases hversion : parseVersion body.version with
  | none => exact hreject _ _ (unchanged_of_done hdone) fun _ h => by cases h; exact Or.inl rfl
  | some version =>
      refine meets_ite (fun _ => ?_) fun _ => ?_
      · exact hreject _ _ (unchanged_of_done hdone) fun _ h => by cases h; exact Or.inl rfl
      · -- a violated unique constraint is answered as a name conflict
        have hcatch : ∀ e (v' : View), v'.Unchanged →
            (onUniqueViolation e).Meets (sections P (.updateSecret projectId secretId body)) v' Q := by
          intro e v' hu
          cases e with
          | uniqueViolation => exact hreject _ _ hu fun _ h => by cases h; exact Or.inr (Or.inr rfl)
          | sync e => exact hreject _ _ hu fun _ h => by cases h
          | other m => exact hreject _ _ hu fun _ h => by cases h
        rw [meets_tryCatch, meets_bind, projectWriteLocksRun]
        refine meets_dbUtilsWithLock hlock ?_ fun e _ => hcatch e v (unchanged_of_done hdone)
        refine meets_updateSecretSection rfl rfl hdone ?_ fun r v' hv' hr => ⟨hv', ?_⟩
        · rintro _ _ _ ⟨⟩
          exact ⟨rfl, rfl, hversion⟩
        · rcases hr with ⟨secret, rfl, hupdated⟩ | ⟨hrejects, hu⟩
          · exact hQ _ _ (Or.inl ⟨secret, version, rfl, hversion, hupdated⟩)
          · cases r with
            | error e => exact hcatch e _ hu
            | ok outcome => exact hreject _ _ hu fun _ h => by cases h; exact hrejects _ rfl

theorem meets_updateKeyAttempts (hedits : op.confirms = none) {key value : JsString} (hkey : key.length ≠ 0) {attempts : Nat}
    {Q : Except Failure SecretOutcome → View → Prop} (hlock : v.Holds projectId)
    (hop : ∀ projectId' secretId' body, op ≠ .updateSecret projectId' secretId' body)
    (hQ : ∀ r v', v'.lock = v.lock → Q r v') :
    (updateKeyAttempts P projectId secretId key value attempts).Meets (sections P op) v Q := by
  induction attempts generalizing v with
  | zero => exact hQ _ _ rfl
  | succ attempts ih =>
      have hsome : v.lock.isSome = true := by rw [hlock]; rfl
      rw [updateKeyAttempts, meets_bind]
      refine meets_secretsList_inside hsome (fun rows hrows => ?_) fun e _ => hQ _ _ rfl
      rw [then_ok]
      split
      · exact hQ _ _ rfl
      · rename_i secret hfind
        have hsecret : secret ∈ rows := List.mem_of_find?_eq_some hfind
        have hid : secret.id = secretId := by simpa using List.find?_some hfind
        have hproject : secret.projectId = projectId := hrows secret hsecret
        subst hid hproject
        dsimp only
        rw [meets_bind]
        refine meets_secretsDataUpdate
          ⟨hedits, ⟨rows, secret, ⟨hlock, rfl⟩, hsecret, rfl, fun hs => storable_define hs hkey value, rfl⟩,
            fun _ _ _ h => absurd h (hop _ _ _)⟩ ?_ ?_ ?_
        · exact fun date secret' => hQ _ _ rfl
        · intro date n r _ hr
          cases r with
          | error e => exact hQ _ _ rfl
          | ok status =>
              cases status with
              | updated secret' => exact absurd rfl (hr secret')
              | notFound => exact hQ _ _ rfl
              | versionConflict => exact ih hlock fun r v' hv' => hQ r v' hv'
        · exact fun e => hQ _ _ rfl

theorem meets_updateSecretKey {body : SecretBody} {Q : Except Failure Response → View → Prop}
    (hedits : op.confirms = none) (hlock : v.lock = none) (hop : ∀ projectId' secretId' body, op ≠ .updateSecret projectId' secretId' body)
    (hQ : ∀ r v', Q r v') :
    (updateSecretKey P projectId secretId body).Meets (sections P op) v Q := by
  unfold updateSecretKey
  refine meets_ite (fun _ => hQ _ _) fun hkey => ?_
  split
  · exact hQ _ _
  · refine meets_ite (fun _ => hQ _ _) fun _ => ?_
    have hcatch : ∀ e (v' : View), (onUniqueViolation e).Meets (sections P op) v' Q := by
      intro e v'
      cases e <;> exact hQ _ _
    rw [meets_tryCatch, meets_bind, projectWriteLocksRun]
    refine meets_dbUtilsWithLock hlock ?_ fun e _ => hcatch e v
    rw [updateSecretKeySection, meets_bind]
    have houtcome : ∀ (r : Except Failure SecretOutcome) (v' : View),
        v'.lock = some (projectWriteLockName projectId) →
        v'.lock = some (projectWriteLockName projectId) ∧
          Then (sections P op) (fun outcome => pure outcome.response) (Catch (sections P op) onUniqueViolation Q)
            r v'.leave := by
      intro r v' hv'
      refine ⟨hv', ?_⟩
      cases r with
      | error e => exact hcatch e _
      | ok outcome => exact hQ _ _
    refine meets_projectsDataGet_inside rfl (fun row _ => ?_) fun e _ => houtcome _ _ rfl
    rw [then_ok]
    cases row with
    | none => exact houtcome _ _ rfl
    | some project => exact meets_updateKeyAttempts hedits hkey rfl hop fun r v' hv' => houtcome r v' hv'

end Platform

end SecretsManager
