import SecretsManager.Secrets.SecretVersions

/-!
# Updates of single keys

A partial update reads the row of its secret, sets the key and writes the row back, under the version that it has
read. Beside the operations of the server there may be writers that take no lock, such as an old replica during a
rollout: all that the update relies on is that a changed row gets a larger version, and an inserted one a new id.
-/

namespace SecretsManager

open Js Interleaving

/-! ## Other writers -/

section OtherWriters
variable {R : Type} {restic : Restic R} {P : Platform} {timeouts : ResticTimeouts} {admits : Operation → Prop} {t : Nat}

/-- A write of another writer, which takes no lock. Rows may also go, and the projects may be any. -/
def WrittenElsewhere (w w' : World R) : Prop :=
  ∃ (db : Db) (new : List JsString) (owner : Nat), (∀ id ∈ new, id ∉ w.stored ∧ ∀ t, (id, t) ∉ w.issued) ∧
    (∀ s' ∈ db.secrets, s'.id ∈ new ∨ ∃ s ∈ w.db.secrets, s.id = s'.id ∧ (s' = s ∨ s.version < s'.version)) ∧
    w' = { w with db := db, issued := new.map (fun id => (id, owner)) ++ w.issued, stored := new ++ w.stored }

/-- The server among other writers. -/
def serverAmong (P : Platform) (timeouts : ResticTimeouts) (restic : Restic R) (admits : Operation → Prop) :
    System (World R) Cmd Cmd.Answer Failure Response Operation :=
  { server P timeouts restic admits with environment := fun w w' => Outside restic w w' ∨ WrittenElsewhere w w' }

theorem WrittenElsewhere.evolves {w w' : World R} (h : WrittenElsewhere w w') : Evolves w w' := by
  obtain ⟨db, new, owner, hnew, hrows, rfl⟩ := h
  refine ⟨fun id hid => List.mem_append_right _ hid, fun s' hs' hid => ?_⟩
  exact (hrows s' hs').resolve_left fun hmem => (hnew _ hmem).1 hid

theorem WrittenElsewhere.inv {w w' : World R} (h : WrittenElsewhere w w') (hinv : Inv w) : Inv w' := by
  obtain ⟨db, new, owner, hnew, hrows, rfl⟩ := h
  refine ⟨hinv.exclusive, fun {id t₁ t₂} h₁ h₂ => ?_, fun id hid => ?_, fun s' hs' => ?_⟩
  · rcases List.mem_append.mp h₁ with h₁ | h₁ <;> rcases List.mem_append.mp h₂ with h₂ | h₂
    · obtain ⟨_, -, heq₁⟩ := List.mem_map.mp h₁
      obtain ⟨_, -, heq₂⟩ := List.mem_map.mp h₂
      exact (Prod.mk.inj heq₁).2.symm.trans (Prod.mk.inj heq₂).2
    · obtain ⟨_, hmem, heq⟩ := List.mem_map.mp h₁
      cases heq
      exact absurd h₂ ((hnew _ hmem).2 _)
    · obtain ⟨_, hmem, heq⟩ := List.mem_map.mp h₂
      cases heq
      exact absurd h₁ ((hnew _ hmem).2 _)
    · exact hinv.owner h₁ h₂
  · rcases List.mem_append.mp hid with hid | hid
    · exact ⟨owner, List.mem_append_left _ (List.mem_map_of_mem hid)⟩
    · obtain ⟨t, ht⟩ := hinv.issued id hid
      exact ⟨t, List.mem_append_right _ ht⟩
  · rcases hrows s' hs' with hid | ⟨s, hs, hid, -⟩
    · exact List.mem_append_left _ hid
    · rw [← hid]
      exact List.mem_append_right _ (hinv.stored s hs)

theorem WrittenElsewhere.owns {w w' : World R} (h : WrittenElsewhere w w') {v : View} (howns : Owns t v w) : Owns t v w' := by
  obtain ⟨db, new, owner, hnew, -, rfl⟩ := h
  intro id hid
  obtain ⟨hissued, hstored⟩ := howns id hid
  refine ⟨List.mem_append_right _ hissued, fun hmem => ?_⟩
  rcases List.mem_append.mp hmem with hmem | hmem
  · exact (hnew id hmem).2 t hissued
  · exact hstored hmem

/-- Without the lists of the sections, the rest of the outline of the server holds among other writers. -/
theorem amongOutline (P : Platform) (timeouts : ResticTimeouts) (restic : Restic R) (admits : Operation → Prop) :
    Outline (serverAmong P timeouts restic admits) (sections P) .start Inv (fun t _ v w => Owns t v w) (Outcome P) where
  body op _ := meets_serve timeouts op
  expects _ howns h := exec_expects howns h
  spawn _ _ _ _ := nofun
  inv := inv_exec
  self hinv howns _ h := owns_exec hinv howns h
  other := owns_exec_of_ne
  environment := by
    rintro w w' hinv (⟨r, -, rfl⟩ | hwritten)
    · exact ⟨⟨hinv.exclusive, hinv.owner, hinv.issued, hinv.stored⟩, fun _ _ _ howns => howns⟩
    · exact ⟨hwritten.inv hinv, fun _ _ _ howns => hwritten.owns howns⟩

theorem evolves_among {w w' : World R} (h : (serverAmong P timeouts restic admits).environment w w') : Evolves w w' := by
  rcases h with houtside | hwritten
  · exact evolves_outside houtside
  · exact hwritten.evolves

end OtherWriters

/-! ## The attempts of an update -/

/-- What a partial update has listed since it last wrote, how often it has written, and the transaction that has
changed a row. -/
structure KeyAttempts where
  listed : Option (List Secret)
  attempts : Nat
  written : Option Transaction

namespace KeyAttempts

def start : KeyAttempts := ⟨none, 0, none⟩

def step (s : KeyAttempts) : (c : Cmd) → c.Answer → KeyAttempts
  | .secretsList _, .ok rows => { s with listed := some rows }
  | .transact tx, .ok n => ⟨none, s.attempts + 1, if n = 1 then some tx else s.written⟩
  | .transact _, .error _ => ⟨none, s.attempts + 1, s.written⟩
  | _, _ => s

/-- The transaction sets the key of the request in a secret of the last list, whose version it carries. -/
def Merges (s : KeyAttempts) (projectId secretId : JsString) (body : SecretBody) (tx : Transaction) : Prop :=
  ∃ rows secret value date hash, s.listed = some rows ∧ secret ∈ rows ∧ secret.id = secretId ∧
    body.value = some value ∧ value.isScalar = true ∧
    tx = .secretsDataUpdate secretId projectId
      ⟨secret.name, secret.data.define (requestedKey body) value.toJsString⟩ date secret.version hash

end KeyAttempts

/-- Follows the attempts of a partial update, and lets all other operations do anything. -/
def keyMerge (op : Operation) : Monitor Cmd Cmd.Answer KeyAttempts where
  step := KeyAttempts.step
  allows s c := ∀ tx, c = .transact tx → ∀ projectId secretId body, op = .updateSecretKey projectId secretId body →
    s.written = none ∧ s.attempts < partialUpdateAttempts ∧ s.Merges projectId secretId body tx
  expects _ c a :=
    match c, a with
    | .secretsList projectId, .ok rows => ∀ s ∈ rows, s.projectId = projectId
    | _, _ => True

/-- The secret is the row that the transaction has written. -/
def WritesSecret (tx : Transaction) (secret : Secret) : Prop :=
  ∃ version hash, tx = .secretsDataUpdate secret.id secret.projectId secret.toSecretContent secret.dateUpdated version hash ∧
    secret.version = version + 1

/-- A partial update answers 200 with the row that it has written, or fails or rejects and has written none. -/
def KeyOutcome (op : Operation) (r : Except Failure Response) (s : KeyAttempts) : Prop :=
  ∀ projectId secretId body, op = .updateSecretKey projectId secretId body →
    (∃ secret tx, r = .ok ⟨200, .secret secret⟩ ∧ s.written = some tx ∧ WritesSecret tx secret) ∨
      ((∀ response, r = .ok response → Rejects response) ∧ s.written = none)

section Meets
variable {P : Platform} {timeouts : ResticTimeouts} {projectId secretId : JsString} {body : SecretBody} {s : KeyAttempts}

theorem keyMerge_allows {op : Operation} {c : Cmd} (h : ∀ tx, c ≠ .transact tx) : (keyMerge op).allows s c :=
  fun tx htx => absurd htx (h tx)

theorem keyMerge_secretsDataUpdate {secret : Secret} {version : Nat} {hash : JsString}
    {Q : Except Failure SecretsUpdateStatus → KeyAttempts → Prop} (hwritten : s.written = none)
    (hattempts : s.attempts < partialUpdateAttempts) (hmerges : ∀ date, s.Merges projectId secretId body
      (.secretsDataUpdate secret.id secret.projectId secret.toSecretContent date version hash))
    (hupdated : ∀ date, Q (.ok (.updated { secret with dateUpdated := date, version := version + 1 }))
      ⟨none, s.attempts + 1, some (.secretsDataUpdate secret.id secret.projectId secret.toSecretContent date version hash)⟩)
    (hmissed : ∀ r, (∀ secret', r ≠ .ok (.updated secret')) → Q r ⟨none, s.attempts + 1, none⟩)
    (herror : ∀ e s', s'.written = none → Q (.error e) s') :
    (secretsDataUpdate secret version hash).Meets (keyMerge (.updateSecretKey projectId secretId body)) s Q := by
  rw [secretsDataUpdate, meets_bind, Op.now, meets_lift]
  refine ⟨keyMerge_allows (by simp), fun date _ => ?_⟩
  rw [then_ok, meets_bind, Op.transact, meets_bind, meets_lift]
  refine ⟨fun tx htx projectId' secretId' body' hop => ?_, fun a _ => ?_⟩
  · cases htx
    cases hop
    exact ⟨hwritten, hattempts, hmerges date⟩
  · rw [then_ok, meets_ofExcept]
    cases a with
    | error e => exact herror e _ hwritten
    | ok n =>
        rw [then_ok]
        split_ifs with hn
        · subst hn
          exact hupdated date
        · have hstep : (keyMerge (.updateSecretKey projectId secretId body)).step s
              (.transact (.secretsDataUpdate secret.id secret.projectId secret.toSecretContent date version hash)) (.ok n) =
              ⟨none, s.attempts + 1, none⟩ := by
            show KeyAttempts.mk _ _ _ = _
            rw [if_neg hn, hwritten]
          rw [meets_bind, secretsDataGet, meets_bind, meets_lift]
          refine ⟨keyMerge_allows (by simp), fun a _ => ?_⟩
          rw [then_ok, meets_ofExcept]
          dsimp only [keyMerge] at hstep ⊢
          rw [show KeyAttempts.step s Cmd.now date = s from rfl, hstep]
          cases a with
          | error e => exact herror e _ rfl
          | ok current =>
              rw [then_ok]
              cases current with
              | none => exact hmissed _ (by simp)
              | some current =>
                  dsimp only
                  split_ifs <;> exact hmissed _ (by simp)

/-- The result of the section, before the lock is released and the response is made. -/
def KeySectionOutcome (r : Except Failure SecretOutcome) (s : KeyAttempts) : Prop :=
  (∃ secret tx, r = .ok (.updated secret) ∧ s.written = some tx ∧ WritesSecret tx secret) ∨
    ((∀ outcome, r = .ok outcome → Rejects outcome.response) ∧ s.written = none)

theorem keyMerge_updateKeyAttempts {attempts : Nat} {value : JsValue} (hvalue : body.value = some value)
    (hscalar : value.isScalar = true) (hwritten : s.written = none) (hattempts : s.attempts + attempts ≤ partialUpdateAttempts) :
    (updateKeyAttempts P projectId secretId (requestedKey body) value.toJsString attempts).Meets
      (keyMerge (.updateSecretKey projectId secretId body)) s KeySectionOutcome := by
  have herror : ∀ (e : Failure) (s : KeyAttempts), s.written = none → KeySectionOutcome (.error e) s := fun e s hs =>
    Or.inr ⟨fun _ h => (by cases h), hs⟩
  induction attempts generalizing s with
  | zero => exact Or.inr ⟨fun _ h => by cases h; exact Or.inr (Or.inr rfl), hwritten⟩
  | succ attempts ih =>
      rw [updateKeyAttempts, meets_bind, secretsDataListForProject, meets_bind, meets_lift]
      refine ⟨keyMerge_allows (by simp), fun a ha => ?_⟩
      rw [then_ok, meets_ofExcept]
      cases a with
      | error e => exact herror e _ hwritten
      | ok rows =>
          have hstep : (keyMerge (.updateSecretKey projectId secretId body)).step s (.secretsList projectId) (.ok rows) =
              { s with listed := some rows } := rfl
          rw [then_ok, hstep]
          split
          · exact Or.inr ⟨fun _ h => by cases h; exact Or.inr (Or.inl rfl), hwritten⟩
          · rename_i secret hfind
            have hsecret : secret ∈ rows := List.mem_of_find?_eq_some hfind
            have hid : secret.id = secretId := by simpa using List.find?_some hfind
            have hproject : secret.projectId = projectId := ha secret hsecret
            subst hid hproject
            dsimp only
            rw [meets_bind]
            refine keyMerge_secretsDataUpdate hwritten (by show s.attempts < _; omega)
              (fun date => ⟨rows, secret, value, date, _, rfl, hsecret, rfl, hvalue, hscalar, rfl⟩)
              (fun date => Or.inl ⟨_, _, rfl, rfl, secret.version, _, rfl, rfl⟩) (fun r hr => ?_) herror
            cases r with
            | error e => exact herror e _ rfl
            | ok status =>
                cases status with
                | updated secret' => exact absurd rfl (hr secret')
                | notFound => exact Or.inr ⟨fun _ h => by cases h; exact Or.inr (Or.inl rfl), rfl⟩
                | versionConflict => exact ih rfl (by dsimp only; omega)

theorem keyMerge_updateSecretKey : (updateSecretKey P projectId secretId body).Meets
    (keyMerge (.updateSecretKey projectId secretId body)) .start (KeyOutcome (.updateSecretKey projectId secretId body)) := by
  have hreject : ∀ (r : Except Failure Response) (s : KeyAttempts), s.written = none →
      (∀ response, r = .ok response → Rejects response) → KeyOutcome (.updateSecretKey projectId secretId body) r s :=
    fun r s hs hr _ _ _ _ => Or.inr ⟨hr, hs⟩
  unfold updateSecretKey
  refine meets_ite (fun _ => ?_) fun _ => ?_
  · exact hreject _ _ rfl fun _ h => by cases h; exact Or.inl rfl
  · split
    · exact hreject _ _ rfl fun _ h => by cases h; exact Or.inl rfl
    · rename_i value hfilter
      obtain ⟨hvalue, hscalar⟩ := Option.filter_eq_some_iff.mp hfilter
      refine meets_ite (fun _ => ?_) fun _ => ?_
      · exact hreject _ _ rfl fun _ h => by cases h; exact Or.inl rfl
      · -- a violated unique constraint is answered as a name conflict
        have hcatch : ∀ (e : Failure) (s : KeyAttempts), s.written = none → (onUniqueViolation e).Meets
            (keyMerge (.updateSecretKey projectId secretId body)) s (KeyOutcome (.updateSecretKey projectId secretId body)) := by
          intro e s hs
          cases e with
          | uniqueViolation => exact hreject _ _ hs fun _ h => by cases h; exact Or.inr (Or.inr rfl)
          | sync e => exact hreject _ _ hs fun _ h => by cases h
          | other m => exact hreject _ _ hs fun _ h => by cases h
        have hsection : (updateSecretKeySection P projectId secretId (requestedKey body) value.toJsString).Meets
            (keyMerge (.updateSecretKey projectId secretId body)) .start KeySectionOutcome := by
          rw [updateSecretKeySection, meets_bind, projectsDataGet, meets_bind, meets_lift]
          refine ⟨keyMerge_allows (by simp), fun a _ => ?_⟩
          have hstep : (keyMerge (.updateSecretKey projectId secretId body)).step .start (.projectsGet projectId) a = .start := rfl
          rw [then_ok, meets_ofExcept, hstep]
          cases a with
          | error e => exact Or.inr ⟨fun _ h => (by cases h), rfl⟩
          | ok row =>
              cases row with
              | none => exact Or.inr ⟨fun _ h => by cases h; exact Or.inr (Or.inl rfl), rfl⟩
              | some project => exact keyMerge_updateKeyAttempts hvalue hscalar rfl (by decide)
        rw [meets_tryCatch, meets_bind, projectWriteLocksRun, dbUtilsWithLock, meets_bind, meets_lift]
        refine ⟨keyMerge_allows (by simp), fun held _ => ?_⟩
        rw [then_ok, meets_bind, meets_ofExcept]
        cases held with
        | error e => exact hcatch e _ rfl
        | ok =>
            rw [then_ok, meets_tryFinally]
            refine hsection.mono fun r s hr => meets_lift.mpr ⟨keyMerge_allows (by simp), fun _ _ => ?_⟩
            rw [then_ok, meets_ofExcept]
            rcases hr with ⟨secret, tx, rfl, hwritten, hwrites⟩ | ⟨hrejects, hwritten⟩
            · rintro _ _ _ ⟨⟩
              exact Or.inl ⟨secret, tx, rfl, hwritten, hwrites⟩
            · cases r with
              | error e => exact hcatch e _ hwritten
              | ok outcome => exact hreject _ _ hwritten fun _ h => by cases h; exact hrejects _ rfl

theorem keyMerge_other {op : Operation} (h : ∀ projectId secretId body, op ≠ .updateSecretKey projectId secretId body)
    (task : Op Response) : task.Meets (keyMerge op) .start (KeyOutcome op) := by
  refine (task.only_true.meets_true fun s c _ tx _ projectId secretId body hop => ?_).mono
    fun r s _ projectId secretId body hop => ?_
  · exact absurd hop (h projectId secretId body)
  · exact absurd hop (h projectId secretId body)

theorem keyMerge_serve (op : Operation) : (serve P timeouts op).Meets (keyMerge op) .start (KeyOutcome op) := by
  by_cases h : ∃ projectId secretId body, op = .updateSecretKey projectId secretId body
  · obtain ⟨projectId, secretId, body, rfl⟩ := h
    exact keyMerge_updateSecretKey
  · exact keyMerge_other (fun projectId secretId body hop => h ⟨projectId, secretId, body, hop⟩) _

end Meets

/-! ## Among other writers -/

section Events
variable {R : Type} {restic : Restic R} {P : Platform} {timeouts : ResticTimeouts} {admits : Operation → Prop} {t : Nat}
variable {op : Operation} {s : KeyAttempts} {trace : List (ServerEvent R)} {projectId secretId : JsString} {body : SecretBody}

def Cmd.isTransact : Cmd → Bool
  | .transact _ => true
  | _ => false

/-- The secrets that the update has listed are known. -/
def KeyAttempts.Current (s : KeyAttempts) (w : World R) : Prop := ∀ rows, s.listed = some rows → ∀ row ∈ rows, Known w row

theorem KeyAttempts.Current.evolves {w w' : World R} (h : s.Current w) (hw : Evolves w w') : s.Current w' :=
  fun rows hrows row hrow => (h rows hrows row hrow).evolves hw

/-- What a step leaves listed is the answer of the step, or was listed before. -/
theorem KeyAttempts.listed_step {e : ServerEvent R} {rows : List Secret} (h : (s.step e.cmd e.answer).listed = some rows) :
    (∃ projectId, list? e = some (projectId, rows)) ∨ s.listed = some rows := by
  obtain ⟨w, c, a, w'⟩ := e
  cases c with
  | secretsList projectId =>
      cases a with
      | error e => exact Or.inr h
      | ok answer =>
          cases h
          exact Or.inl ⟨projectId, rfl⟩
  | transact tx => cases a <;> cases h
  | _ => exact Or.inr h

theorem keyMergeOutline (P : Platform) (timeouts : ResticTimeouts) (restic : Restic R) (admits : Operation → Prop) :
    OverOutline (serverAmong P timeouts restic admits) (sections P) .start Inv (fun t _ v w => Owns t v w) keyMerge .start
      (fun _ => True) (fun _ _ s w => s.Current w) KeyOutcome where
  body op _ := keyMerge_serve op
  expects {t req trace w c a w'} h s := by
    cases c with
    | secretsList projectId =>
        cases a with
        | error e => trivial
        | ok rows =>
            have hexec : Exec restic t w (.secretsList projectId) (.ok rows) w' := h
            exact fun row hrow => (Tables.mem_rows.mp ((exec_listed hexec).mem_iff.mp hrow)).2
    | _ => trivial
  spawn _ _ _ _ := nofun
  inv _ := trivial
  self {t req trace w c a w'} h rows hrows row hrow := by
    have hevolves : Evolves w w' := @evolves_of_exec R restic P t req _ ⟨w, c, a, w'⟩ h.assert h.allowed h.exec
    rcases @KeyAttempts.listed_step R _ ⟨w, c, a, w'⟩ rows hrows with ⟨projectId, hlist⟩ | hold
    · obtain ⟨_, _, heq⟩ := list?_eq_some hlist
      cases heq
      have hexec : Exec restic t w (.secretsList projectId) (.ok rows) w' := h.exec
      have hmem := (Tables.mem_rows.mp ((exec_listed hexec).mem_iff.mp hrow)).1
      exact (known_row h.inv hmem).evolves hevolves
    · exact (h.assert' rows hold row hrow).evolves hevolves
  other {t req trace w c a w' t' req' s s'} _ h _ hcurrent :=
    hcurrent.evolves (@evolves_of_exec R restic P t req _ ⟨w, c, a, w'⟩ h.assert h.allowed h.exec)
  environment _ henv := ⟨trivial, fun _ _ _ hcurrent => hcurrent.evolves (evolves_among henv)⟩

/-- Every event of the operation has happened within the outlines. -/
def LawfulAmong (P : Platform) (timeouts : ResticTimeouts) (restic : Restic R) (admits : Operation → Prop) (t : Nat)
    (op : Operation) (trace : List (ServerEvent R)) : Prop :=
  ∀ earlier e later, trace = earlier ++ e :: later →
    Ran (serverAmong P timeouts restic admits) (sections P) .start Inv (fun t _ v w => Owns t v w) keyMerge .start
      (fun _ => True) (fun _ _ s w => s.Current w) t op earlier e.before e.cmd e.answer e.after

theorem LawfulAmong.of_append {earlier later : List (ServerEvent R)}
    (h : LawfulAmong P timeouts restic admits t op (earlier ++ later)) : LawfulAmong P timeouts restic admits t op earlier := by
  rintro a e b rfl
  exact h a e (b ++ later) (by simp)

theorem lawful_among {db : Db} {repository : R} {cfg : Config (World R) Cmd Cmd.Answer Failure Response Operation}
    (h : (serverAmong P timeouts restic admits).Reachable (.initial db repository) cfg) {th} (hth : cfg.threads[t]? = some th) :
    LawfulAmong P timeouts restic admits t th.req th.trace ∧
      ∀ r, th.prog.result? = some r → KeyOutcome th.req r ((keyMerge th.req).after .start th.trace) := by
  have hgood := ((amongOutline P timeouts restic admits).prod (keyMergeOutline P timeouts restic admits)).good
    ⟨inv_initial db repository, trivial⟩ h
  have hthread := hgood.threads t th hth
  refine ⟨fun earlier e later hsplit => ?_, fun r hr => ?_⟩
  · have hpast := hthread.past earlier e later hsplit
    have hassert := hpast.assert
    have hallowed := hpast.allowed
    rw [Monitor.prod_after] at hassert hallowed
    exact ⟨hpast.inv.1, hpast.inv.2, hassert.1, hassert.2, hallowed.1, hallowed.2, hpast.exec⟩
  · have hpost := hthread.meets.result hr
    rw [Monitor.prod_after] at hpost
    exact hpost.2

/-- What an update has done so far: its attempts, and at most one of them has changed the database. -/
structure KeyAttempts.Records (s : KeyAttempts) (trace : List (ServerEvent R)) : Prop where
  attempts : s.attempts = trace.countP fun e => e.cmd.isTransact
  bound : s.attempts ≤ partialUpdateAttempts
  unwritten : s.written = none → ∀ x ∈ trace, x.after.db = x.before.db
  written : ∀ tx, s.written = some tx → ∃ earlier e later, trace = earlier ++ e :: later ∧ committed? e = some (tx, 1) ∧
    ∀ x ∈ earlier ++ later, x.after.db = x.before.db

/-- An event that leaves the database keeps the record. -/
theorem KeyAttempts.Records.kept {s s' : KeyAttempts} {e : ServerEvent R} (h : s.Records trace)
    (hattempts : s'.attempts = s.attempts + if e.cmd.isTransact then 1 else 0) (hbound : s'.attempts ≤ partialUpdateAttempts)
    (hwritten : s'.written = s.written) (hdb : e.after.db = e.before.db) : s'.Records (trace ++ [e]) where
  attempts := by
    rw [List.countP_append, List.countP_singleton, ← h.attempts]
    exact hattempts
  bound := hbound
  unwritten hnone x hx := by
    rcases List.mem_append.mp hx with hx | hx
    · exact h.unwritten (hwritten ▸ hnone) x hx
    · rw [List.mem_singleton.mp hx]
      exact hdb
  written tx htx := by
    obtain ⟨earlier, e', later, rfl, he', hothers⟩ := h.written tx (hwritten ▸ htx)
    refine ⟨earlier, e', later ++ [e], by simp, he', fun x hx => ?_⟩
    rw [← List.append_assoc] at hx
    rcases List.mem_append.mp hx with hx | hx
    · exact hothers x hx
    · rw [List.mem_singleton.mp hx]
      exact hdb

theorem records_after (h : LawfulAmong P timeouts restic admits t (.updateSecretKey projectId secretId body) trace) :
    ((keyMerge (.updateSecretKey projectId secretId body)).after .start trace).Records trace := by
  induction trace using List.reverseRecOn with
  | nil => exact ⟨rfl, Nat.zero_le _, fun _ => nofun, nofun⟩
  | append_singleton trace e ih =>
      have hrecords := ih h.of_append
      have hran := h trace e [] rfl
      rw [Monitor.after_append]
      obtain ⟨w, c, a, w'⟩ := e
      have hexec : Exec restic t w c a w' := hran.exec
      cases c with
      | transact tx =>
          obtain ⟨hnone, hbound, rows, secret, value, date, hash, -, -, -, -, -, htx⟩ := hran.allowed' tx rfl _ _ _ rfl
          cases a with
          | error e => exact hrecords.kept rfl hbound rfl (exec_db (e := ⟨w, .transact tx, .error e, w'⟩) hexec rfl)
          | ok n =>
              by_cases hn : n = 1
              · subst hn
                exact
                  { attempts := by
                      rw [List.countP_append, List.countP_singleton, ← hrecords.attempts]
                      rfl
                    bound := hbound
                    unwritten := nofun
                    written := fun tx' htx' => by
                      cases htx'
                      refine ⟨trace, _, [], rfl, rfl, fun x hx => hrecords.unwritten hnone x ?_⟩
                      rwa [List.append_nil] at hx }
              · refine hrecords.kept rfl hbound (if_neg hn) ?_
                subst htx
                exact db_of_missed hexec hn
      | secretsList projectId' =>
          have hdb := exec_db (e := ⟨w, .secretsList projectId', a, w'⟩) hexec rfl
          cases a with
          | error e => exact hrecords.kept rfl hrecords.bound rfl hdb
          | ok rows => exact hrecords.kept rfl hrecords.bound rfl hdb
      | _ => exact hrecords.kept rfl hrecords.bound rfl (exec_db (e := ⟨w, _, a, w'⟩) hexec rfl)

/-- The event has replaced the row of the secret, as it was immediately before, by one with the key set to the value,
and has left all other rows. -/
structure MergesKey (projectId secretId key value : JsString) (e : ServerEvent R) (secret : Secret) : Prop where
  row : ∃ s ∈ e.before.db.secrets, s.id = secretId ∧ s.projectId = projectId ∧
    secret = { s with data := s.data.define key value, dateUpdated := secret.dateUpdated, version := s.version + 1 }
  rows : e.after.db.secrets = e.before.db.secrets.map fun x => if x.id = secretId then secret else x

/-- The name and all other keys are as they were. -/
theorem MergesKey.kept {key value : JsString} {e : ServerEvent R} {secret : Secret}
    (h : MergesKey projectId secretId key value e secret) : ∃ s ∈ e.before.db.secrets, s.id = secretId ∧
      secret ∈ e.after.db.secrets ∧ secret.name = s.name ∧
      ∀ k, secret.data.get? k = if k = key then some value else s.data.get? k := by
  obtain ⟨s, hs, hid, -, hsecret⟩ := h.row
  refine ⟨s, hs, hid, ?_, by rw [hsecret], fun k => by rw [hsecret, JsObject.get?_define]⟩
  rw [h.rows]
  exact List.mem_map.mpr ⟨s, hs, if_pos hid⟩

/-- The row that the update has listed is still there when it is written. -/
theorem mergesKey_of_committed {w w' : World R} {tx : Transaction} {sent : Secret} (hmerges : s.Merges projectId secretId body tx)
    (hcurrent : s.Current w) (hexec : Exec restic t w (.transact tx) (.ok 1) w') (hwrites : WritesSecret tx sent) :
    ∃ value secret, body.value = some value ∧ value.isScalar = true ∧
      MergesKey projectId secretId (requestedKey body) value.toJsString (⟨w, .transact tx, .ok 1, w'⟩ : ServerEvent R) secret ∧
      sent = { secret with dateCreated := sent.dateCreated } := by
  obtain ⟨rows, listed, value, date, hash, hlisted, hrow, rfl, hvalue, hscalar, rfl⟩ := hmerges
  obtain ⟨version, hash', htx, hversion⟩ := hwrites
  injection htx with hid hproject hcontent hdate hsame _
  obtain ⟨r, hr, hrid, rfl, hrversion⟩ := (updatesRow_of_committed hexec).found
  obtain rfl : r = listed := ((hcurrent rows hlisted listed hrow).2 r hr hrid).resolve_right fun hlt => by omega
  refine ⟨value, Sql.updatedSecret ⟨r.name, r.data.define (requestedKey body) value.toJsString⟩ date r, hvalue, hscalar,
    ⟨⟨r, hr, rfl, rfl, rfl⟩, ?_⟩, ?_⟩
  · show w'.db.secrets = _
    rw [secrets_of_committed hexec]
    refine List.map_congr_left fun x hx => ?_
    by_cases hxid : x.id = r.id
    · obtain rfl := Tables.secret_unique w.db.valid hx hr hxid
      rw [if_pos rfl, if_pos (by simp [Sql.matchesVersion])]
    · rw [if_neg hxid, if_neg (by simp [Sql.matchesVersion, hxid])]
  · obtain ⟨content, id, projectId, dateCreated, dateUpdated, version'⟩ := sent
    dsimp only at hid hproject hcontent hdate hversion
    subst hid hproject hcontent hdate hsame hversion
    rfl

end Events

/-- **A partial update is an atomic merge.** Among any other writers it tries a bounded number of times. When it
succeeds, it has replaced the row of the secret as it was immediately before, with the key set to the value and all
else in the row as it was; when it ends in any other way, it has rejected or failed and left the database. -/
theorem keyUpdate_merges {R : Type} {restic : Restic R} {P : Platform} {timeouts : ResticTimeouts} {admits : Operation → Prop}
    {db : Db} {repository : R} {cfg : Config (World R) Cmd Cmd.Answer Failure Response Operation}
    (h : (serverAmong P timeouts restic admits).Reachable (.initial db repository) cfg) :
    ∀ (t : Nat) (th : Thread (World R) Cmd Cmd.Answer Failure Response Operation) (projectId secretId : JsString)
      (body : SecretBody), cfg.threads[t]? = some th → th.req = .updateSecretKey projectId secretId body →
      (th.trace.countP fun e => e.cmd.isTransact) ≤ partialUpdateAttempts ∧
      (∀ b, th.prog.result? = some (.ok ⟨200, b⟩) → ∃ value secret sent earlier e later,
        body.value = some value ∧ value.isScalar = true ∧ th.trace = earlier ++ e :: later ∧
        MergesKey projectId secretId (requestedKey body) value.toJsString e secret ∧
        (∀ x ∈ earlier ++ later, x.after.db = x.before.db) ∧
        b = .secret sent ∧ sent = { secret with dateCreated := sent.dateCreated }) ∧
      ∀ r, th.prog.result? = some r → (∀ b, r ≠ .ok ⟨200, b⟩) →
        (∀ response, r = .ok response → Rejects response) ∧ ∀ x ∈ th.trace, x.after.db = x.before.db := by
  intro t th projectId secretId body hth hreq
  obtain ⟨hlawful, houtcome⟩ := lawful_among h hth
  rw [hreq] at hlawful houtcome
  have hrecords := records_after hlawful
  refine ⟨hrecords.attempts ▸ hrecords.bound, fun b hb => ?_, fun r hr hrefused => ?_⟩
  · rcases houtcome _ hb _ _ _ rfl with ⟨sent, tx, hsent, hwritten, hwrites⟩ | ⟨hrejects, -⟩
    · obtain ⟨earlier, e, later, hsplit, he, hothers⟩ := hrecords.written tx hwritten
      obtain ⟨w, w', rfl⟩ := committed?_eq_some he
      have hran := hlawful earlier _ later hsplit
      obtain ⟨-, -, hmerges⟩ := hran.allowed' tx rfl _ _ _ rfl
      have hexec : Exec restic t w (.transact tx) (.ok 1) w' := hran.exec
      obtain ⟨value, secret, hvalue, hscalar, hmerge, hsame⟩ := mergesKey_of_committed hmerges hran.assert' hexec hwrites
      refine ⟨value, secret, sent, earlier, _, later, hvalue, hscalar, hsplit, hmerge, hothers, ?_, hsame⟩
      cases hsent
      rfl
    · exact absurd (hrejects _ rfl) (by rintro (h | h | h) <;> cases h)
  · rcases houtcome r hr _ _ _ rfl with ⟨sent, tx, rfl, -⟩ | ⟨hrejects, hwritten⟩
    · exact absurd rfl (hrefused _)
    · exact ⟨hrejects, hrecords.unwritten hwritten⟩

section Example

/-- The secret `api` after another writer has added a key. -/
def addedElsewhere : Secret := { exampleSecret "a" "1" 2 with data := (exampleData "1").define (js "B") (js "2") }

def elsewhereDb : Db where
  projects := [exampleProject]
  secrets := [addedElsewhere]
  valid := by decide

/-- A partial update of a third key. -/
def putKey : Operation :=
  .updateSecretKey (js "p") (js "a") ⟨none, none, versionOne, some (.str (js "C")), some (.str (js "3"))⟩

/-- The other writer comes between the list of the update and its first attempt. -/
noncomputable def playKey : Option (Config (World Snapshots) Cmd Cmd.Answer Failure Response Operation) :=
  (playExample (.spawn putKey :: steps 0 3) (.initial firstDb [])).bind fun cfg =>
    play (serve runPlatform exampleTimeouts) (fun t _ _ => act Snapshots.run t) (steps 0 7)
      ⟨{ cfg.world with db := elsewhereDb }, cfg.threads⟩

def putKeyResponse : Response :=
  ⟨200, .secret { addedElsewhere with
    data := addedElsewhere.data.define (js "C") (js "3"), dateUpdated := exampleNow, version := 3 }⟩

theorem keyUpdate_merges_example : ∃ cfg th, (serverAmong runPlatform exampleTimeouts Snapshots.restic fun _ => True).Reachable
      (.initial firstDb []) cfg ∧ cfg.threads[0]? = some th ∧ th.prog.result? = some (.ok putKeyResponse) ∧
    ∃ value secret, ∃ e ∈ th.trace, MergesKey (js "p") (js "a") (js "C") value e secret := by
  have hrestricts : (serverAmong runPlatform exampleTimeouts Snapshots.restic fun _ => True).Restricts
      (server runPlatform exampleTimeouts Snapshots.restic fun _ => True) :=
    ⟨fun _ h => h, fun _ => rfl, fun _ _ _ _ _ _ _ h => h, fun _ _ h => Or.inl h⟩
  obtain ⟨cfg, hplay, hends⟩ : ∃ cfg, playKey = some cfg ∧ ends cfg = [(putKey, some (.ok putKeyResponse))] :=
    Option.map_eq_some_iff.mp rfl
  obtain ⟨th, hth, hop, hresult⟩ := thread_of_ends hends (t := 0) rfl
  obtain ⟨mid, hmid, hrest⟩ := Option.bind_eq_some_iff.mp hplay
  have hlisted : (playExample (.spawn putKey :: steps 0 3) (.initial firstDb [])).map (fun cfg => (cfg.world.db.secrets)) =
      some [exampleSecret "a" "1" 1] := rfl
  rw [hmid, Option.map_some, Option.some.injEq] at hlisted
  have hwritten : WrittenElsewhere mid.world { mid.world with db := elsewhereDb } := by
    refine ⟨elsewhereDb, [], 0, nofun, fun s' hs' => Or.inr ⟨exampleSecret "a" "1" 1, ?_, ?_⟩, rfl⟩
    · rw [hlisted]
      exact List.mem_singleton.mpr rfl
    · obtain rfl : s' = addedElsewhere := List.mem_singleton.mp hs'
      exact ⟨rfl, Or.inr (by decide)⟩
  have hreachable : (serverAmong runPlatform exampleTimeouts Snapshots.restic fun _ => True).Reachable (.initial firstDb []) cfg :=
    ((hrestricts.steps (playExample_reachable (fun _ _ => trivial) hmid)).tail (.environment (Or.inr hwritten))).trans
      (hrestricts.steps (play_server (fun _ _ _ => rfl) (fun _ _ => trivial) hrest))
  obtain ⟨value, secret, sent, earlier, e, later, -, -, hsplit, hmerges, -⟩ :=
    (keyUpdate_merges hreachable 0 th _ _ _ hth hop).2.1 _ hresult
  exact ⟨cfg, th, hreachable, hth, hresult, value.toJsString, secret, e, by rw [hsplit]; simp, hmerges⟩

end Example

end SecretsManager
