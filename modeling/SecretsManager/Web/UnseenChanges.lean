import SecretsManager.Secrets.SecretVersions
import SecretsManager.Web.SecretEditor

/-!
# Changes that the editor has not shown

A session runs beside the server and all its other users. The server takes a save only with the version of the
row, so what matters is where the version of the session comes from: from the secret that the dialog was opened
with, from a conflict notice, or from the list over which a draft was restored. The draft does not keep the version
that it was captured with.
-/

namespace SecretsManager

open Js Interleaving

/-! ## What the edits rest on -/

section Basis
variable {K K' : Secret → Prop}

/-- The secret has the id and the version of one in `K` that the dialog was opened with or that a conflict notice
has shown. -/
def Basis.Covers (basis : Basis) (K : Secret → Prop) (secret : Secret) : Prop :=
  ∃ x, (basis.started = some x ∨ basis.noticed = some x) ∧ K x ∧ x.id = secret.id ∧ x.version = secret.version

theorem Basis.Covers.mono {basis : Basis} {secret : Secret} (h : basis.Covers K secret) (hK : ∀ x, K x → K' x) :
    basis.Covers K' secret := by
  obtain ⟨x, hx, hknown, hsame⟩ := h
  exact ⟨x, hx, hK x hknown, hsame⟩

/-- The draft names the secret that was edited, and its edits rest on that. -/
structure Captured.Good (K : Secret → Prop) (draft : Captured) : Prop where
  secretId : draft.secretId = draft.editing.map Secret.id
  covers : ∀ secret, draft.editing = some secret → draft.basis.Covers K secret

structure ProjectPage.Good (K : Secret → Prop) (page : ProjectPage) : Prop where
  secrets : ∀ x ∈ page.secrets, K x
  answers : ∀ load ∈ page.loads, ∀ rows, load.answer = some rows → ∀ x ∈ rows, K x
  editing : ∀ secret, page.editingSecret = some secret → page.basis.Covers K secret
  pending : ∀ draft, page.pendingDraft = some draft → draft.Good K

structure Session.Good (K : Secret → Prop) (s : Session) : Prop where
  page : ∀ page, s.page = some page → page.Good K
  pending : ∀ draft, s.pendingDraft = some draft → draft.Good K
  stored : ∀ draft, s.stored = some draft → draft.Good K

theorem Captured.Good.mono {draft : Captured} (h : draft.Good K) (hK : ∀ x, K x → K' x) : draft.Good K' :=
  ⟨h.secretId, fun secret hsecret => (h.covers secret hsecret).mono hK⟩

theorem Session.Good.mono {s : Session} (h : s.Good K) (hK : ∀ x, K x → K' x) : s.Good K' where
  page page hpage :=
    { secrets := fun x hx => hK x ((h.page page hpage).secrets x hx)
      answers := fun load hload rows hrows x hx => hK x ((h.page page hpage).answers load hload rows hrows x hx)
      editing := fun secret hsecret => ((h.page page hpage).editing secret hsecret).mono hK
      pending := fun draft hdraft => ((h.page page hpage).pending draft hdraft).mono hK }
  pending draft hdraft := (h.pending draft hdraft).mono hK
  stored draft hdraft := (h.stored draft hdraft).mono hK

end Basis

/-! ## The steps of a session -/

section Steps
variable {K : Secret → Prop} {s s' : Session} {page : ProjectPage}

/-- A draft is restored over the version of its secret that it was captured with. -/
def Session.RestoresCaptured (s : Session) (e : SessionEvent) : Prop :=
  match e with
  | .restoreDraft => ∀ page draft, s.page = some page → page.pendingDraft = some draft →
      ∀ secret, page.draftSecret draft = some secret → ∃ x, draft.editing = some x ∧ x.version = secret.version
  | _ => True

/-- The lists that arrive have known secrets. -/
def SessionEvent.Lists (K : Secret → Prop) : SessionEvent → Prop
  | .listed _ rows => ∀ x ∈ rows, K x
  | _ => True

theorem good_none {α : Type} {p : α → Prop} : ∀ a, none = some a → p a := fun _ h => by cases h

theorem good_start : Session.start.Good K := ⟨good_none, good_none, good_none⟩

theorem Session.onPage_eq_some {f : ProjectPage → Option ProjectPage} :
    s.onPage f = some s' ↔ ∃ page page', s.page = some page ∧ f page = some page' ∧ s' = { s with page := some page' } := by
  rw [Session.onPage, Option.map_eq_some_iff]
  constructor
  · rintro ⟨page', h, rfl⟩
    obtain ⟨page, hpage, hf⟩ := Option.bind_eq_some_iff.mp h
    exact ⟨page, page', hpage, hf, rfl⟩
  · rintro ⟨page, page', hpage, hf, rfl⟩
    exact ⟨page', Option.bind_eq_some_iff.mpr ⟨page, hpage, hf⟩, rfl⟩

theorem Session.Good.withPage (h : s.Good K) {page' : ProjectPage} (hpage : page'.Good K) :
    ({ s with page := some page' } : Session).Good K where
  page page hp := by
    cases hp
    exact hpage
  pending := h.pending
  stored := h.stored

theorem good_mount (projectId : JsString) : (ProjectPage.mount projectId).Good K where
  secrets _ h := by cases h
  answers load hload rows hrows := by
    rw [List.mem_singleton.mp hload] at hrows
    cases hrows
  editing := good_none
  pending := good_none

theorem ProjectPage.Good.load (h : page.Good K) (after : AfterLoad) : (page.load after).Good K where
  secrets := h.secrets
  answers load hload rows hrows := by
    rcases List.mem_append.mp hload with hload | hload
    · exact h.answers load hload rows hrows
    · rw [List.mem_singleton.mp hload] at hrows
      cases hrows
  editing := h.editing
  pending := h.pending

theorem ProjectPage.Good.close (h : page.Good K) : page.closeSecretModal.Good K :=
  ⟨h.secrets, h.answers, good_none, h.pending⟩

theorem ProjectPage.Good.dismiss (h : page.Good K) : ({ page with pendingDraft := none } : ProjectPage).Good K :=
  ⟨h.secrets, h.answers, h.editing, good_none⟩

/-- A conflict notice shows the secret that the list has. -/
theorem ProjectPage.Good.afterSaveConflict (h : page.Good K) (secretId : JsString) :
    (page.afterSaveConflict secretId).Good K := by
  unfold ProjectPage.afterSaveConflict
  cases hfind : page.secrets.find? fun item => item.id = secretId with
  | none => exact ⟨h.secrets, h.answers, good_none, h.pending⟩
  | some latest =>
      refine ⟨h.secrets, h.answers, fun secret hsecret => ?_, h.pending⟩
      cases hsecret
      exact ⟨latest, Or.inr rfl, h.secrets _ (List.mem_of_find?_eq_some hfind), rfl, rfl⟩

theorem ProjectPage.Good.afterLoad (h : page.Good K) {pendingDraft : Option Captured}
    (hpending : ∀ draft, pendingDraft = some draft → draft.Good K) (after : AfterLoad) :
    (page.afterLoad pendingDraft after).Good K := by
  cases after with
  | mounted =>
      cases pendingDraft with
      | none => exact h
      | some draft =>
          unfold ProjectPage.afterLoad
          dsimp only
          split_ifs
          · refine ⟨h.secrets, h.answers, h.editing, fun d hd => ?_⟩
            cases hd
            exact hpending draft rfl
          · exact h
  | reloaded => exact h
  | saved => exact ⟨h.secrets, h.answers, h.editing, h.pending⟩
  | conflict secretId =>
      have hconflict := h.afterSaveConflict secretId
      exact ⟨hconflict.secrets, hconflict.answers, hconflict.editing, hconflict.pending⟩
  | missing => exact ⟨h.secrets, h.answers, good_none, h.pending⟩

/-- The same edits on the same list. -/
theorem ProjectPage.Good.of_same (h : page.Good K) {page' : ProjectPage} (hsecrets : page'.secrets = page.secrets)
    (hloads : page'.loads = page.loads) (hediting : page'.editingSecret = page.editingSecret)
    (hbasis : page'.basis = page.basis) (hpending : page'.pendingDraft = page.pendingDraft) : page'.Good K where
  secrets := by rw [hsecrets]; exact h.secrets
  answers := by rw [hloads]; exact h.answers
  editing := by rw [hediting, hbasis]; exact h.editing
  pending := by rw [hpending]; exact h.pending

theorem ProjectPage.Good.saveSecret (h : page.Good K) (request : Nat) : (page.saveSecret request).Good K := by
  unfold ProjectPage.saveSecret
  split <;> exact h.of_same rfl rfl rfl rfl rfl

theorem ProjectPage.Good.saveAnswered (h : page.Good K) (response : Response) : (page.saveAnswered response).Good K := by
  have hanswered : ({ page with request := none } : ProjectPage).Good K := h.of_same rfl rfl rfl rfl rfl
  unfold ProjectPage.saveAnswered
  by_cases hok : 200 ≤ response.status ∧ response.status < 300
  · rw [if_pos hok]
    exact hanswered.close.load .saved
  · rw [if_neg hok]
    dsimp only
    split
    · split
      · exact hanswered.load _
      · split
        · exact hanswered.load _
        · exact hanswered.of_same rfl rfl rfl rfl rfl
    · exact hanswered.of_same rfl rfl rfl rfl rfl

/-- What is captured is the secret that is edited, with what the edits rest on. -/
theorem ProjectPage.Good.captured (h : page.Good K) {userId : Option JsString} {now : Int} {draft : Captured}
    (hdraft : page.captureUnsavedEdits userId now = some draft) : draft.Good K := by
  unfold ProjectPage.captureUnsavedEdits at hdraft
  split at hdraft
  · cases hdraft
  · cases hdraft
  · split_ifs at hdraft
    cases hdraft
    exact ⟨rfl, h.editing⟩

theorem mem_takeSecretDraftForUser {stored : Option Captured} {userId : JsString} {now : Int} {draft : Captured}
    (h : takeSecretDraftForUser stored userId now = some draft) : stored = some draft :=
  (Option.filter_eq_some_iff.mp (Option.filter_eq_some_iff.mp h).1).1

/-- A draft that is restored over the captured version rests on what its edits rested on. -/
theorem ProjectPage.Good.restoreDraft (h : page.Good K) {draft : Captured} (hdraft : draft.Good K)
    (hcaptured : ∀ secret, page.draftSecret draft = some secret →
      ∃ x, draft.editing = some x ∧ x.version = secret.version) : (page.restoreDraft draft).Good K where
  secrets := h.secrets
  answers := h.answers
  editing secret hsecret := by
    have hfound : page.draftSecret draft = some secret := hsecret
    obtain ⟨x, hx, hversion⟩ := hcaptured secret hfound
    have hid : x.id = secret.id := by
      unfold ProjectPage.draftSecret at hfound
      rw [hdraft.secretId, hx] at hfound
      split at hfound
      · cases hfound
      · cases hfound
      · rename_i secretId _ heq
        have hsecretId : x.id = secretId := Option.some.inj heq
        have hfind : secret.id = secretId := by simpa using List.find?_some hfound
        rw [hsecretId, hfind]
    obtain ⟨y, hy, hknown, hyid, hyversion⟩ := hdraft.covers x hx
    exact ⟨y, hy, hknown, hyid.trans hid, hyversion.trans hversion⟩
  pending := good_none

theorem Session.Good.endLoad (h : s.Good K) {i : Nat} {rows : ProjectPage → SecretsLoad → Option (List Secret)}
    (hrows : ∀ page load secrets, page.Good K → load ∈ page.loads → rows page load = some secrets → ∀ x ∈ secrets, K x)
    (hstep : s.endLoad i rows = some s') : s'.Good K := by
  obtain ⟨page, page', hpage, hload, rfl⟩ := Session.onPage_eq_some.mp hstep
  obtain ⟨load, hi, hload⟩ := Option.bind_eq_some_iff.mp hload
  obtain ⟨secrets, hsecrets, rfl⟩ := Option.map_eq_some_iff.mp hload
  have hgood := h.page page hpage
  refine h.withPage (ProjectPage.Good.afterLoad ?_ h.pending load.after)
  exact
    { secrets := hrows page load secrets hgood (List.mem_of_getElem? hi) hsecrets
      answers := fun load hload => hgood.answers load (List.mem_of_mem_eraseIdx hload)
      editing := hgood.editing
      pending := hgood.pending }

/-- **Every step** keeps that edits rest on what the dialog was opened with or a notice has shown, when drafts are
restored over the version that they were captured with. -/
theorem Session.Good.step (h : s.Good K) {e : SessionEvent} (hcaptured : s.RestoresCaptured e) (hlists : e.Lists K)
    (hstep : s.step e = some s') : s'.Good K := by
  cases e with
  | login userId now =>
      rw [Session.step] at hstep
      cases hstep
      exact ⟨h.page, fun draft hdraft => h.stored draft (mem_takeSecretDraftForUser hdraft), good_none⟩
  | logout =>
      rw [Session.step] at hstep
      cases hstep
      exact ⟨h.page, good_none, good_none⟩
  | openPage projectId userId =>
      rw [Session.step] at hstep
      cases hstep
      exact ⟨fun page hpage => by cases hpage; exact good_mount projectId, h.pending, h.stored⟩
  | leavePage =>
      rw [Session.step] at hstep
      cases hstep
      exact ⟨good_none, h.pending, h.stored⟩
  | unload =>
      rw [Session.step] at hstep
      cases hstep
      exact ⟨good_none, good_none, h.stored⟩
  | savedLate =>
      rw [Session.step] at hstep
      cases hstep
      exact ⟨h.page, good_none, h.stored⟩
  | reload =>
      rw [Session.step] at hstep
      obtain ⟨page, page', hpage, heq, rfl⟩ := Session.onPage_eq_some.mp hstep
      cases heq
      exact h.withPage ((h.page page hpage).load _)
  | listed i rows =>
      rw [Session.step] at hstep
      obtain ⟨page, page', hpage, heq, rfl⟩ := Session.onPage_eq_some.mp hstep
      obtain ⟨load, -, rfl⟩ := Option.map_eq_some_iff.mp heq
      have hgood := h.page page hpage
      refine h.withPage ⟨hgood.secrets, fun load' hload' rows' hrows' => ?_, hgood.editing, hgood.pending⟩
      rcases List.mem_or_eq_of_mem_set hload' with hload' | rfl
      · exact hgood.answers load' hload' rows' hrows'
      · cases hrows'
        exact hlists
  | loaded i =>
      rw [Session.step] at hstep
      exact h.endLoad (fun page load secrets hgood hload hsecrets => hgood.answers load hload secrets hsecrets) hstep
  | loadFailed i =>
      rw [Session.step] at hstep
      refine h.endLoad (fun page load secrets hgood _ hsecrets => ?_) hstep
      cases hsecrets
      exact hgood.secrets
  | openCreate =>
      rw [Session.step] at hstep
      obtain ⟨page, page', hpage, heq, rfl⟩ := Session.onPage_eq_some.mp hstep
      cases heq
      have hgood := h.page page hpage
      exact h.withPage ⟨hgood.secrets, hgood.answers, good_none, hgood.pending⟩
  | openEdit secret =>
      rw [Session.step] at hstep
      obtain ⟨page, page', hpage, heq, rfl⟩ := Session.onPage_eq_some.mp hstep
      split_ifs at heq with hmem
      cases heq
      have hgood := h.page page hpage
      refine h.withPage ⟨hgood.secrets, hgood.answers, fun x hx => ?_, hgood.pending⟩
      cases hx
      exact ⟨secret, Or.inl rfl, hgood.secrets _ hmem, rfl, rfl⟩
  | edit form =>
      rw [Session.step] at hstep
      obtain ⟨page, page', hpage, heq, rfl⟩ := Session.onPage_eq_some.mp hstep
      split_ifs at heq
      cases heq
      exact h.withPage ((h.page page hpage).of_same rfl rfl rfl rfl rfl)
  | close =>
      rw [Session.step] at hstep
      obtain ⟨page, page', hpage, heq, rfl⟩ := Session.onPage_eq_some.mp hstep
      cases heq
      exact h.withPage (h.page page hpage).close
  | save request =>
      rw [Session.step] at hstep
      obtain ⟨page, hpage, heq⟩ := Option.bind_eq_some_iff.mp hstep
      split_ifs at heq
      cases heq
      have hgood := h.withPage ((h.page page hpage).saveSecret request)
      exact ⟨hgood.page, h.pending, h.stored⟩
  | answered response =>
      rw [Session.step] at hstep
      obtain ⟨page, hpage, heq⟩ := Option.bind_eq_some_iff.mp hstep
      split_ifs at heq
      · cases heq
        exact ⟨(h.withPage ((h.page page hpage).saveAnswered response)).page, good_none, h.stored⟩
      · cases heq
        exact ⟨(h.withPage ((h.page page hpage).saveAnswered response)).page, h.pending, h.stored⟩
  | unanswered =>
      rw [Session.step] at hstep
      obtain ⟨page, page', hpage, heq, rfl⟩ := Session.onPage_eq_some.mp hstep
      split_ifs at heq
      cases heq
      exact h.withPage ((h.page page hpage).of_same rfl rfl rfl rfl rfl)
  | unauthorized now stored =>
      rw [Session.step] at hstep
      obtain ⟨page, hpage, rfl⟩ := Option.map_eq_some_iff.mp hstep
      split
      · rename_i draft hdraft
        split_ifs
        · refine ⟨h.page, h.pending, fun d hd => ?_⟩
          cases hd
          exact (h.page page hpage).captured hdraft
        · exact h
      · exact h
  | restoreDraft =>
      rw [Session.step] at hstep
      obtain ⟨page, hpage, heq⟩ := Option.bind_eq_some_iff.mp hstep
      obtain ⟨draft, hdraft, rfl⟩ := Option.map_eq_some_iff.mp heq
      have hgood := h.page page hpage
      exact ⟨(h.withPage (hgood.restoreDraft (hgood.pending draft hdraft) (hcaptured page draft hpage hdraft))).page,
        good_none, h.stored⟩
  | discardDraft =>
      rw [Session.step] at hstep
      obtain ⟨page, hpage, rfl⟩ := Option.map_eq_some_iff.mp hstep
      exact ⟨(h.withPage (h.page page hpage).dismiss).page, good_none, h.stored⟩
  | dismissDraft =>
      rw [Session.step] at hstep
      obtain ⟨page, page', hpage, heq, rfl⟩ := Session.onPage_eq_some.mp hstep
      cases heq
      exact h.withPage (h.page page hpage).dismiss

end Steps

/-! ## A session beside the server -/

abbrev ServerConfig (R : Type) := Config (World R) Cmd Cmd.Answer Failure Response Operation

/-- The server with the operations of everyone, and one session. -/
structure Editing (R : Type) where
  server : ServerConfig R
  session : Session

section Editing
variable {R : Type}

/-- What the server has to do with an event: a list is that of the moment when it is read, and the answer to a
save is that of its operation. -/
def Answers (cfg : ServerConfig R) (s : Session) : SessionEvent → Prop
  | .listed _ rows => ∃ page, s.page = some page ∧ rows.Perm (cfg.world.db.rows page.projectId)
  | .save _ => s.sends = none
  | .answered response => ∃ page request th, s.page = some page ∧ page.request = some request ∧
      cfg.threads[request]? = some th ∧ th.prog.result? = some (.ok response)
  | _ => True

/-- Any step of the server, a save whose request becomes an operation of the server, or another event of the
session. -/
inductive EditingStep (sys : System (World R) Cmd Cmd.Answer Failure Response Operation)
    (Cond : Session → SessionEvent → Prop) : Editing R → Editing R → Prop where
  | server {cfg cfg' s} : sys.Step cfg cfg' → EditingStep sys Cond ⟨cfg, s⟩ ⟨cfg', s⟩
  | sent {w ths s s' op} : Cond s (.save ths.length) → s.sends = some op → sys.admits op →
      s.step (.save ths.length) = some s' →
      EditingStep sys Cond ⟨⟨w, ths⟩, s⟩ ⟨⟨w, ths ++ [⟨op, [], sys.body op⟩]⟩, s'⟩
  | session {cfg s e s'} : Cond s e → Answers cfg s e → s.step e = some s' →
      EditingStep sys Cond ⟨cfg, s⟩ ⟨cfg, s'⟩

/-- The runs in which every event of the session meets the condition. -/
abbrev EditingSteps (sys : System (World R) Cmd Cmd.Answer Failure Response Operation)
    (Cond : Session → SessionEvent → Prop) : Editing R → Editing R → Prop :=
  Relation.ReflTransGen (EditingStep sys Cond)

/-- The row that a successful save has replaced is the one that the dialog was opened with, or the one that a
conflict notice has shown. -/
def SentSave.ReplacesSeen (save : SentSave) (th : Thread (World R) Cmd Cmd.Answer Failure Response Operation) : Prop :=
  ∃ earlier e later, th.trace = earlier ++ e :: later ∧
    UpdatesRow save.projectId save.secret.id save.secret.version e ∧
    ∃ row ∈ e.before.db.secrets, row.id = save.secret.id ∧
      (save.basis.started = some row ∨ save.basis.noticed = some row)

/-- No save of the session has overwritten a change that was not seen. -/
def Editing.NothingUnseen (st : Editing R) : Prop :=
  ∀ save ∈ st.session.saves, ∀ th body, st.server.threads[save.request]? = some th →
    th.prog.result? = some (.ok ⟨200, body⟩) → save.ReplacesSeen th

end Editing

section Runs
variable {R : Type} {restic : Restic R} {P : Platform} {timeouts : ResticTimeouts} {admits : Operation → Prop}
  {cfg cfg' : ServerConfig R} {db : Db} {repository : R}

theorem known_step (h : (server P timeouts restic admits).Reachable (.initial db repository) cfg)
    (hs : (server P timeouts restic admits).Step cfg cfg') (x : Secret) (hx : Known cfg.world x) :
    Known cfg'.world x :=
  hx.evolves (evolves_steps h (.single hs))

/-- The operation of a save carries its version, and the edits rest on known secrets whenever it runs. -/
structure SentSave.Good (cfg : ServerConfig R) (save : SentSave) : Prop where
  covers : save.basis.Covers (Known cfg.world) save.secret
  sent : ∃ th body, cfg.threads[save.request]? = some th ∧
    th.req = .updateSecret save.projectId save.secret.id body ∧
    (∀ version, parseVersion body.version = some version → version = save.secret.version) ∧
    ∀ e ∈ th.trace, save.basis.Covers (Known e.before) save.secret

theorem SentSave.Good.step (h : (server P timeouts restic admits).Reachable (.initial db repository) cfg)
    (hs : (server P timeouts restic admits).Step cfg cfg') {save : SentSave} (hsave : save.Good cfg) :
    save.Good cfg' := by
  obtain ⟨th, body, hth, hreq, hversion, hpast⟩ := hsave.sent
  refine ⟨hsave.covers.mono (known_step h hs), ?_⟩
  cases hs with
  | spawn _ =>
      refine ⟨th, body, ?_, hreq, hversion, hpast⟩
      rw [List.getElem?_append_left (List.getElem?_eq_some_iff.mp hth).1]
      exact hth
  | @run w ths t req trace c next a w' hth' _ =>
      by_cases htt : save.request = t
      · rw [htt] at hth ⊢
        obtain rfl := Option.some.inj (hth.symm.trans hth')
        refine ⟨_, body, List.getElem?_set_self (List.getElem?_eq_some_iff.mp hth).1, hreq, hversion, fun e he => ?_⟩
        rcases List.mem_append.mp he with he | he
        · exact hpast e he
        · rw [List.mem_singleton.mp he]
          exact hsave.covers
      · refine ⟨th, body, ?_, hreq, hversion, hpast⟩
        rw [List.getElem?_set_ne (Ne.symm htt)]
        exact hth
  | environment _ => exact ⟨th, body, hth, hreq, hversion, hpast⟩

/-- What holds of every state of a run. -/
structure Editing.Good (P : Platform) (timeouts : ResticTimeouts) (restic : Restic R) (admits : Operation → Prop)
    (db : Db) (repository : R) (st : Editing R) : Prop where
  reachable : (SecretsManager.server P timeouts restic admits).Reachable (.initial db repository) st.server
  session : st.session.Good (Known st.server.world)
  saves : ∀ save ∈ st.session.saves, save.Good st.server

theorem saves_of_step {s s' : Session} {e : SessionEvent} (h : s.step e = some s') (he : ∀ request, e ≠ .save request) :
    s'.saves = s.saves := by
  cases e with
  | save request => exact absurd rfl (he request)
  | login | logout | openPage | leavePage | unload | savedLate =>
      rw [Session.step] at h
      cases h
      rfl
  | reload | listed | openCreate | openEdit | edit | close | unanswered | dismissDraft =>
      rw [Session.step] at h
      obtain ⟨_, _, -, -, rfl⟩ := Session.onPage_eq_some.mp h
      rfl
  | loaded | loadFailed =>
      rw [Session.step] at h
      obtain ⟨_, _, -, -, rfl⟩ := Session.onPage_eq_some.mp h
      rfl
  | answered =>
      rw [Session.step] at h
      obtain ⟨_, -, h⟩ := Option.bind_eq_some_iff.mp h
      split_ifs at h <;>
        · cases h
          rfl
  | unauthorized =>
      rw [Session.step] at h
      obtain ⟨_, -, rfl⟩ := Option.map_eq_some_iff.mp h
      split
      · split_ifs <;> rfl
      · rfl
  | restoreDraft =>
      rw [Session.step] at h
      obtain ⟨_, -, h⟩ := Option.bind_eq_some_iff.mp h
      obtain ⟨_, -, rfl⟩ := Option.map_eq_some_iff.mp h
      rfl
  | discardDraft =>
      rw [Session.step] at h
      obtain ⟨_, -, rfl⟩ := Option.map_eq_some_iff.mp h
      rfl

/-- A click on Save adds the full update that it sends. -/
theorem mem_saves_of_save {s s' : Session} {request : Nat} (h : s.step (.save request) = some s') {save : SentSave}
    (hsave : save ∈ s'.saves) : save ∈ s.saves ∨ ∃ page secret data, s.page = some page ∧
      page.editingSecret = some secret ∧ s.sends = some (page.saveRequest data) ∧
      save = ⟨request, page.projectId, secret, page.basis⟩ := by
  rw [Session.step] at h
  obtain ⟨page, hpage, h⟩ := Option.bind_eq_some_iff.mp h
  split_ifs at h
  cases h
  have hrecord : save ∈ s.record page request := hsave
  unfold Session.record at hrecord
  split at hrecord
  · rename_i op secret hsends hediting
    rcases List.mem_cons.mp hrecord with rfl | hrecord
    · have hop := hsends
      rw [ProjectPage.sends] at hop
      split_ifs at hop
      obtain ⟨data, -, rfl⟩ := Option.map_eq_some_iff.mp hop
      exact Or.inr ⟨page, secret, data, hpage, hediting, by rw [Session.sends, hpage]; exact hsends, rfl⟩
    · exact Or.inl hrecord
  · exact Or.inl hrecord

theorem saveRequest_some {page : ProjectPage} {secret : Secret} (h : page.editingSecret = some secret)
    (data : SecretData) : page.saveRequest data = .updateSecret page.projectId secret.id
      ⟨none, some data.toJson, some (.num ⟨js (toString secret.version), some secret.version⟩), none, none⟩ := by
  rw [ProjectPage.saveRequest, h]

/-- The version of the request is that of the secret that is edited. -/
theorem parseVersion_saveRequest {secret : Secret} {version : Nat}
    (h : parseVersion (some (.num ⟨js (toString secret.version), some secret.version⟩)) = some version) :
    version = secret.version := by
  have h' : (if (1 : Int) ≤ secret.version then some (secret.version : Int).toNat else none) = some version := h
  split_ifs at h'
  rw [Int.toNat_natCast] at h'
  exact (Option.some.inj h').symm

variable {st st' : Editing R}

theorem Editing.Good.step (h : st.Good P timeouts restic admits db repository)
    (hs : EditingStep (SecretsManager.server P timeouts restic admits) Session.RestoresCaptured st st') :
    st'.Good P timeouts restic admits db repository := by
  cases hs with
  | server hs =>
      exact
        { reachable := h.reachable.tail hs
          session := h.session.mono (known_step h.reachable hs)
          saves := fun save hsave => (h.saves save hsave).step h.reachable hs }
  | @sent w ths s s' op hcond hsends hadmits hstep =>
      have hspawn : (SecretsManager.server P timeouts restic admits).Step ⟨w, ths⟩
          ⟨w, ths ++ [⟨op, [], (SecretsManager.server P timeouts restic admits).body op⟩]⟩ := .spawn hadmits
      refine
        { reachable := h.reachable.tail hspawn
          session := h.session.step hcond trivial hstep
          saves := fun save hsave => ?_ }
      rcases mem_saves_of_save hstep hsave with hold | ⟨page, secret, data, hpage, hediting, hop, rfl⟩
      · exact (h.saves save hold).step h.reachable hspawn
      · obtain rfl := Option.some.inj (hsends.symm.trans hop)
        have hrequest := saveRequest_some hediting data
        refine ⟨(h.session.page page hpage).editing secret hediting, _, _, List.getElem?_concat_length, hrequest, ?_, ?_⟩
        · exact fun version hversion => parseVersion_saveRequest hversion
        · exact fun _ he => absurd he List.not_mem_nil
  | @session cfg s e s' hcond hanswers hstep =>
      have hlists : e.Lists (Known cfg.world) := by
        cases e with
        | listed load rows =>
            obtain ⟨page, -, hperm⟩ := hanswers
            have hinv := ((serverOutline P timeouts restic admits).good (inv_initial db repository) h.reachable).inv
            exact fun x hx => known_row hinv (Tables.mem_rows.mp (hperm.mem_iff.mp hx)).1
        | _ => trivial
      refine
        { reachable := h.reachable
          session := h.session.step hcond hlists hstep
          saves := fun save hsave => ?_ }
      by_cases he : ∃ request, e = .save request
      · obtain ⟨request, rfl⟩ := he
        have hnone : s.sends = none := hanswers
        rcases mem_saves_of_save hstep hsave with hold | ⟨page, secret, data, -, -, hop, -⟩
        · exact h.saves save hold
        · cases hnone.symm.trans hop
      · have hsaves : s'.saves = s.saves := saves_of_step hstep fun request heq => he ⟨request, heq⟩
        have hold : save ∈ s.saves := hsaves ▸ hsave
        exact h.saves save hold

theorem good_editing (h : EditingSteps (SecretsManager.server P timeouts restic admits) Session.RestoresCaptured
    ⟨⟨.initial db repository, []⟩, .start⟩ st) : st.Good P timeouts restic admits db repository := by
  induction h with
  | refl => exact ⟨.refl, good_start, nofun⟩
  | tail _ hs ih => exact ih.step hs

/-- A successful save has changed the row with the version that it was sent with. -/
theorem updatesRow_of_save (h : (SecretsManager.server P timeouts restic admits).Reachable (.initial db repository) cfg)
    {t : Nat} {th : Thread (World R) Cmd Cmd.Answer Failure Response Operation} (hth : cfg.threads[t]? = some th)
    {projectId secretId : JsString} {body : SecretBody} (hreq : th.req = .updateSecret projectId secretId body)
    {b : ResponseBody} (hresult : th.prog.result? = some (.ok ⟨200, b⟩)) :
    ∃ version earlier e later, parseVersion body.version = some version ∧ th.trace = earlier ++ e :: later ∧
      UpdatesRow projectId secretId version e := by
  have hthread := ((serverOutline P timeouts restic admits).good (inv_initial db repository) h).threads t th hth
  have hlawful : Lawful P timeouts restic admits t th.req th.trace := hthread.past
  have houtcome : UpdateOutcome projectId secretId (parseVersion body.version) (.ok ⟨200, b⟩) (viewAfter th.trace) := by
    have hpost := hthread.meets.result hresult
    rwa [hreq] at hpost
  rcases houtcome with ⟨secret, version, -, hversion, content, date, hash, hdone⟩ | ⟨hrejects, -⟩
  · obtain ⟨earlier, e, later, hsplit, he, -⟩ := hlawful.one_committed hdone
    obtain ⟨w, w', rfl⟩ := committed?_eq_some he
    have hexec : Exec restic t w (.transact (.secretsDataUpdate secretId projectId content date version hash))
        (.ok 1) w' := (hlawful earlier _ later hsplit).exec
    exact ⟨version, earlier, _, later, hversion, hsplit, updatesRow_of_committed hexec⟩
  · exact absurd (hrejects _ rfl) (by rintro (h | h | h) <;> cases h)

/-- **No unseen change is overwritten** in the runs in which every draft is restored over the version of its
secret that it was captured with. -/
theorem nothing_unseen (h : EditingSteps (SecretsManager.server P timeouts restic admits) Session.RestoresCaptured
    ⟨⟨.initial db repository, []⟩, .start⟩ st) : st.NothingUnseen := by
  intro save hsave th b hth hresult
  have hgood := good_editing h
  obtain ⟨th', body, hth', hreq, hversion, hpast⟩ := (hgood.saves save hsave).sent
  obtain rfl := Option.some.inj (hth.symm.trans hth')
  obtain ⟨version, earlier, e, later, hparse, hsplit, hupdates⟩ := updatesRow_of_save hgood.reachable hth hreq hresult
  obtain rfl := hversion version hparse
  refine ⟨earlier, e, later, hsplit, hupdates, ?_⟩
  obtain ⟨row, hrow, hid, -, hrowVersion⟩ := hupdates.found
  obtain ⟨x, hx, hknown, hxid, hxversion⟩ := hpast e (by rw [hsplit]; simp)
  -- the row has the id and the version of a secret that the user has seen, so it is that secret
  have hsame : row = x := by
    refine (hknown.2 row hrow (hid.trans hxid.symm)).resolve_right ?_
    omega
  subst hsame
  exact ⟨row, hrow, hid, hx⟩

end Runs

/-! ## Example sessions -/

section Example

inductive EditingMove where
  | server (move : Move Operation JsString)
  | send
  | session (e : SessionEvent)

/-- The event has what it gets from the server. -/
def answers? (cfg : ServerConfig Snapshots) (s : Session) : SessionEvent → Bool
  | .listed _ rows => s.page.any fun page => rows = cfg.world.db.rows page.projectId
  | .save _ => s.sends.isNone
  | .answered response =>
      match (s.page.bind ProjectPage.request).bind fun request => cfg.threads[request]? with
      | some th =>
          match th.prog.result? with
          | some (.ok r) => r = response
          | _ => false
      | none => false
  | _ => true

theorem answers_of_answers? {cfg : ServerConfig Snapshots} {s : Session} {e : SessionEvent}
    (h : answers? cfg s e = true) : Answers cfg s e := by
  cases e with
  | listed load rows =>
      obtain ⟨page, hpage, hrows⟩ := (Option.any_eq_true _ _).mp h
      exact ⟨page, hpage, .of_eq (of_decide_eq_true hrows)⟩
  | save request => exact Option.isNone_iff_eq_none.mp h
  | answered response =>
      rw [answers?] at h
      split at h
      · rename_i th hth
        obtain ⟨request, hrequest, hth⟩ := Option.bind_eq_some_iff.mp hth
        obtain ⟨page, hpage, hrequest⟩ := Option.bind_eq_some_iff.mp hrequest
        split at h
        · rename_i r hr
          exact ⟨page, request, th, hpage, hrequest, hth, by rw [hr, of_decide_eq_true h]⟩
        · cases h
      · cases h
  | _ => trivial

noncomputable def playEditing : List EditingMove → Editing Snapshots → Option (Editing Snapshots)
  | [], st => some st
  | .server move :: moves, st =>
      (play (serve runPlatform exampleTimeouts) (fun t _ _ => act Snapshots.run t) [move] st.server).bind fun cfg =>
        playEditing moves ⟨cfg, st.session⟩
  | .send :: moves, st =>
      match st.session.sends, st.session.step (.save st.server.threads.length) with
      | some op, some s =>
          playEditing moves
            ⟨⟨st.server.world, st.server.threads ++ [⟨op, [], serve runPlatform exampleTimeouts op⟩]⟩, s⟩
      | _, _ => none
  | .session e :: moves, st =>
      if answers? st.server st.session e then
        (st.session.step e).bind fun s => playEditing moves ⟨st.server, s⟩
      else none

abbrev ExampleSteps (Cond : Session → SessionEvent → Prop) : Editing Snapshots → Editing Snapshots → Prop :=
  EditingSteps (server runPlatform exampleTimeouts Snapshots.restic fun _ => True) Cond

theorem playEditing_steps {Cond : Session → SessionEvent → Prop} (hsave : ∀ s request, Cond s (.save request))
    {moves : List EditingMove} (hcond : ∀ e, EditingMove.session e ∈ moves → ∀ s, Cond s e)
    {st st' : Editing Snapshots} (h : playEditing moves st = some st') : ExampleSteps Cond st st' := by
  induction moves generalizing st with
  | nil =>
      cases h
      exact .refl
  | cons move moves ih =>
      have ih := @ih fun e he => hcond e (List.mem_cons_of_mem _ he)
      cases move with
      | server move =>
          obtain ⟨cfg, hcfg, h⟩ := Option.bind_eq_some_iff.mp h
          have hact : ∀ (t : Nat) (op : Operation) (trace : List (Event (World Snapshots) Cmd Cmd.Answer))
              (w : World Snapshots) (c : Cmd) (fresh : JsString) (a : c.Answer) (w' : World Snapshots),
              act Snapshots.run t w c fresh = some (a, w') →
              (server runPlatform exampleTimeouts Snapshots.restic fun _ => True).exec t op trace w c a w' :=
            fun _ _ _ _ _ _ _ _ h => act_exec (fun _ _ _ => rfl) h
          have hsteps : (server runPlatform exampleTimeouts Snapshots.restic fun _ => True).Steps st.server cfg :=
            play_steps hact (fun _ _ => trivial) hcfg
          exact .trans (hsteps.lift (fun cfg => (⟨cfg, st.session⟩ : Editing Snapshots)) fun _ _ => .server) (ih h)
      | send =>
          unfold playEditing at h
          split at h
          · rename_i op s hsends hstep
            exact .head (.sent (hsave _ _) hsends trivial hstep) (ih h)
          · cases h
      | session e =>
          rw [playEditing] at h
          split_ifs at h with hanswers
          obtain ⟨s, hs, h⟩ := Option.bind_eq_some_iff.mp h
          exact .head (.session (hcond e (List.mem_cons_self ..) _) (answers_of_answers? hanswers) hs) (ih h)

/-- The user opens the secret with the value `1` and enters the value `3`. -/
def openMoves : List EditingMove :=
  [.session (.openPage (js "p") (js "u")), .session (.listed 0 [exampleSecret "a" "1" 1]), .session (.loaded 0),
    .session (.openEdit (exampleSecret "a" "1" 1)), .session (.edit ⟨js "api", [⟨js "A", js "3"⟩]⟩)]

/-- Another user saves the value `2`. -/
def otherSaveMoves : List EditingMove := putMoves.map .server

def updatedSecret : Secret := { exampleSecret "a" "2" 2 with dateUpdated := exampleNow }

/-- The session expires before the other user saves, and the draft is restored and saved after it. -/
def draftMoves : List EditingMove :=
  openMoves ++ [.session (.unauthorized 0 true), .session .unload] ++ otherSaveMoves ++
    [.session (.login (js "u") 0), .session (.openPage (js "p") (js "u")), .session (.listed 0 [updatedSecret]),
      .session (.loaded 0), .session .restoreDraft, .send] ++ (steps 1 6).map .server

/-- The save meets the change of the other user, and is repeated after the notice. -/
def retryMoves : List EditingMove :=
  openMoves ++ otherSaveMoves ++ [.send] ++ (steps 1 7).map .server ++
    [.session (.answered secretVersionConflict), .session (.listed 0 [updatedSecret]), .session (.loaded 0), .send] ++
    (steps 2 6).map .server

def editingStart : Editing Snapshots := ⟨⟨.initial firstDb [], []⟩, .start⟩

theorem replaced_version {save : SentSave} {th : Thread (World Snapshots) Cmd Cmd.Answer Failure Response Operation}
    (h : save.ReplacesSeen th) : (∃ x, save.basis.started = some x ∧ x.version = save.secret.version) ∨
      ∃ x, save.basis.noticed = some x ∧ x.version = save.secret.version := by
  obtain ⟨earlier, e, later, -, hupdates, row, hrow, hid, hseen⟩ := h
  obtain ⟨r, hr, hrid, -, hversion⟩ := hupdates.found
  obtain rfl : row = r := Tables.secret_unique e.before.db.valid hrow hr (hid.trans hrid.symm)
  exact hseen.imp (fun h => ⟨row, h, hversion⟩) fun h => ⟨row, h, hversion⟩

/-- The full update of the secret of the examples with the value `3`. -/
def putThree (version : Nat) : Operation :=
  .updateSecret (js "p") (js "a")
    ⟨none, some (exampleData "3").toJson, some (.num ⟨js (toString version), some version⟩), none, none⟩

def threeResponse : Response := ⟨200, .secret { exampleSecret "a" "3" 3 with dateUpdated := exampleNow }⟩

/-- The restored draft is saved over the change of the other user, without any notice. -/
theorem not_nothing_unseen :
    ¬ ∀ (P : Platform) (timeouts : ResticTimeouts) (restic : Restic Snapshots) (db : Db) (repository : Snapshots)
      (st : Editing Snapshots), EditingSteps (server P timeouts restic fun _ => True) (fun _ _ => True)
        ⟨⟨.initial db repository, []⟩, .start⟩ st → st.NothingUnseen := by
  intro hall
  obtain ⟨st, hplay, hboth⟩ : ∃ st, playEditing draftMoves editingStart = some st ∧
      (st.session.saves, ends st.server) =
        ([⟨1, js "p", updatedSecret, ⟨some (exampleSecret "a" "1" 1), none⟩⟩],
          [(putData, some (.ok putResponse)), (putThree 2, some (.ok threeResponse))]) :=
    Option.map_eq_some_iff.mp rfl
  obtain ⟨hsaves, hends⟩ := Prod.mk.inj hboth
  obtain ⟨th, hth, -, hresult⟩ := thread_of_ends hends (t := 1) rfl
  have hsteps : ExampleSteps (fun _ _ => True) editingStart st :=
    playEditing_steps (fun _ _ => trivial) (fun _ _ _ => trivial) hplay
  have hseen := hall runPlatform exampleTimeouts Snapshots.restic firstDb [] st hsteps _
    (by rw [hsaves]; exact List.mem_singleton.mpr rfl) th _ hth hresult
  rcases replaced_version hseen with ⟨x, hx, hversion⟩ | ⟨x, hx, -⟩
  · cases hx
    cases hversion
  · cases hx

/-- The repeated save has replaced the change that the notice has shown. -/
theorem nothing_unseen_retry : ∃ st save th,
    ExampleSteps Session.RestoresCaptured ⟨⟨.initial firstDb [], []⟩, .start⟩ st ∧ save ∈ st.session.saves ∧
      st.server.threads[save.request]? = some th ∧ th.prog.result? = some (.ok threeResponse) ∧
      save.basis = ⟨some (exampleSecret "a" "1" 1), some updatedSecret⟩ ∧ save.ReplacesSeen th := by
  obtain ⟨st, hplay, hboth⟩ : ∃ st, playEditing retryMoves editingStart = some st ∧
      (st.session.saves, ends st.server) =
        ([⟨2, js "p", updatedSecret, ⟨some (exampleSecret "a" "1" 1), some updatedSecret⟩⟩,
            ⟨1, js "p", exampleSecret "a" "1" 1, ⟨some (exampleSecret "a" "1" 1), none⟩⟩],
          [(putData, some (.ok putResponse)), (putThree 1, some (.ok secretVersionConflict)),
            (putThree 2, some (.ok threeResponse))]) :=
    Option.map_eq_some_iff.mp rfl
  obtain ⟨hsaves, hends⟩ := Prod.mk.inj hboth
  obtain ⟨th, hth, -, hresult⟩ := thread_of_ends hends (t := 2) rfl
  have hcond : ∀ e, EditingMove.session e ∈ retryMoves → ∀ s : Session, s.RestoresCaptured e := by
    intro e he s
    have hne : EditingMove.session .restoreDraft ∉ retryMoves := by
      simp [retryMoves, openMoves, otherSaveMoves]
    cases e with
    | restoreDraft => exact absurd he hne
    | _ => trivial
  have hsteps : ExampleSteps Session.RestoresCaptured editingStart st :=
    playEditing_steps (fun _ _ => trivial) hcond hplay
  refine ⟨st, _, th, hsteps, by rw [hsaves]; exact List.mem_cons_self .., hth, hresult, rfl, ?_⟩
  exact nothing_unseen hsteps _ (by rw [hsaves]; exact List.mem_cons_self ..) th _ hth hresult

end Example

end SecretsManager
