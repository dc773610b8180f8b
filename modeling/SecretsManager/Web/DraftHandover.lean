import SecretsManager.Library.Machine
import SecretsManager.Web.UnseenChanges

/-!
# Drafts across a login

A draft passes through three places of a tab: the session storage when a session is refused, the store after the
next login, and the page that offers it. The storage outlives the page and the user, so who gets the draft depends
on what each of the events between does with it.
-/

namespace SecretsManager

open Js Machine

namespace SessionEvent

/-- The event empties the session storage. -/
def Clears : SessionEvent → Prop
  | login .. | logout => True
  | _ => False

/-- After the event nothing of a draft that was taken from the storage before is offered. -/
def Consumes : SessionEvent → Prop
  | login .. | unload | restoreDraft | discardDraft => True
  | _ => False

end SessionEvent

namespace Session

/-- The unsaved edits of the page become the draft of the storage. -/
def Captures (draft : Captured) (s : Session) (e : SessionEvent) : Prop :=
  ∃ now page, e = .unauthorized now true ∧ s.page = some page ∧ page.captureUnsavedEdits s.userId now = some draft

/-- The login takes the draft from the storage for its own user, in time. -/
def HandsOver (draft : Captured) (s : Session) (e : SessionEvent) : Prop :=
  ∃ now, e = .login draft.userId now ∧ s.stored = some draft ∧ now - draft.savedAt ≤ secretDraftTtlMs

/-- The login form is a page of its own. -/
def Routed (s : Session) : SessionEvent → Prop
  | .login .. => s.page = none
  | _ => True

end Session

/-! ## One step -/

section Step
variable {s s' : Session} {e : SessionEvent} {page page' : ProjectPage} {draft : Captured}

theorem captureUnsavedEdits_eq_some {userId : Option JsString} {now : Int}
    (h : page.captureUnsavedEdits userId now = some draft) :
    userId = some draft.userId ∧ draft.userId ≠ [] ∧ draft.savedAt = now ∧ draft.projectId = page.projectId ∧
      draft.rows = page.secretForm.rows := by
  unfold ProjectPage.captureUnsavedEdits at h
  split at h
  · cases h
  · cases h
  · rename_i userId hempty
    split_ifs at h
    cases h
    exact ⟨rfl, hempty, rfl, rfl, rfl⟩

theorem takeSecretDraftForUser_eq_some {stored : Option Captured} {userId : JsString} {now : Int}
    (h : takeSecretDraftForUser stored userId now = some draft) :
    stored = some draft ∧ draft.userId = userId ∧ now - draft.savedAt ≤ secretDraftTtlMs := by
  obtain ⟨hload, huser⟩ := Option.filter_eq_some_iff.mp h
  obtain ⟨hstored, hvalid⟩ := Option.filter_eq_some_iff.mp hload
  obtain ⟨-, htime⟩ := of_decide_eq_true hvalid
  exact ⟨hstored, of_decide_eq_true huser, not_lt.mp htime⟩

/-- The page after an event offers what it has offered, or nothing. -/
def ProjectPage.Retains (page page' : ProjectPage) : Prop :=
  page'.projectId = page.projectId ∧ ∀ draft, page'.pendingDraft = some draft → page.pendingDraft = some draft

theorem ProjectPage.Retains.of_same (hproject : page'.projectId = page.projectId)
    (hpending : page'.pendingDraft = page.pendingDraft) : page.Retains page' :=
  ⟨hproject, fun _ h => hpending ▸ h⟩

theorem retains_saveSecret (page : ProjectPage) (request : Nat) : page.Retains (page.saveSecret request) := by
  unfold ProjectPage.saveSecret
  split <;> exact .of_same rfl rfl

theorem retains_saveAnswered (page : ProjectPage) (response : Response) : page.Retains (page.saveAnswered response) := by
  unfold ProjectPage.saveAnswered
  by_cases hok : 200 ≤ response.status ∧ response.status < 300
  · rw [if_pos hok]
    exact .of_same rfl rfl
  · rw [if_neg hok]
    dsimp only
    split
    · split_ifs <;> exact .of_same rfl rfl
    · exact .of_same rfl rfl

/-- What follows a list offers the draft of the store, on the page of its project only. -/
theorem afterLoad_offers {pending : Option Captured} {after : AfterLoad}
    (h : (page.afterLoad pending after).pendingDraft = some draft) :
    (page.afterLoad pending after).projectId = page.projectId ∧
      (page.pendingDraft = some draft ∨ pending = some draft ∧ draft.projectId = page.projectId) := by
  cases after with
  | mounted =>
      cases pending with
      | none => exact ⟨rfl, Or.inl h⟩
      | some waiting =>
          rw [ProjectPage.afterLoad] at h ⊢
          split_ifs at h ⊢ with hproject
          · cases h
            exact ⟨rfl, Or.inr ⟨rfl, hproject⟩⟩
          · exact ⟨rfl, Or.inl h⟩
  | reloaded => exact ⟨rfl, Or.inl h⟩
  | saved => exact ⟨rfl, Or.inl h⟩
  | conflict secretId =>
      rw [ProjectPage.afterLoad, ProjectPage.afterSaveConflict] at h ⊢
      split at h <;> exact ⟨rfl, Or.inl h⟩
  | missing => exact ⟨rfl, Or.inl h⟩

/-- What an event does with the drafts of the tab. -/
structure DraftStep (s : Session) (e : SessionEvent) (s' : Session) : Prop where
  stored : ∀ draft, s'.stored = some draft → s.Captures draft e ∨ s.stored = some draft ∧ ¬ e.Clears
  pending : ∀ draft, s'.pendingDraft = some draft → s.HandsOver draft e ∨ s.pendingDraft = some draft ∧ ¬ e.Consumes
  offered : ∀ page' draft, s'.page = some page' → page'.pendingDraft = some draft → ¬ e.Consumes ∧
    ((∃ page, s.page = some page ∧ page.pendingDraft = some draft ∧ page.projectId = page'.projectId) ∨
      s.pendingDraft = some draft ∧ draft.projectId = page'.projectId)

/-- An event that touches neither the storage nor the store. -/
theorem DraftStep.of_page (hstored : s'.stored = s.stored) (hpending : s'.pendingDraft = s.pendingDraft)
    (hclears : ¬ e.Clears) (hconsumes : ¬ e.Consumes)
    (hpage : ∀ page', s'.page = some page' → ∃ page, s.page = some page ∧ page.Retains page') : DraftStep s e s' where
  stored draft h := Or.inr ⟨hstored ▸ h, hclears⟩
  pending draft h := Or.inr ⟨hpending ▸ h, hconsumes⟩
  offered page' draft h hdraft := by
    obtain ⟨page, hp, hproject, hretains⟩ := hpage page' h
    exact ⟨hconsumes, Or.inl ⟨page, hp, hretains draft hdraft, hproject.symm⟩⟩

theorem DraftStep.onPage {f : ProjectPage → Option ProjectPage} (h : s.onPage f = some s') (hclears : ¬ e.Clears)
    (hconsumes : ¬ e.Consumes) (hf : ∀ page page', f page = some page' → page.Retains page') : DraftStep s e s' := by
  obtain ⟨page, page', hpage, hfpage, rfl⟩ := Session.onPage_eq_some.mp h
  refine .of_page rfl rfl hclears hconsumes fun page₁ hpage₁ => ⟨page, hpage, ?_⟩
  cases hpage₁
  exact hf page _ hfpage

theorem DraftStep.endLoad {i : Nat} {rows : ProjectPage → SecretsLoad → Option (List Secret)}
    (h : s.endLoad i rows = some s') (hclears : ¬ e.Clears) (hconsumes : ¬ e.Consumes) : DraftStep s e s' := by
  obtain ⟨page, page₁, hpage, hload, rfl⟩ := Session.onPage_eq_some.mp h
  obtain ⟨load, -, hload⟩ := Option.bind_eq_some_iff.mp hload
  obtain ⟨secrets, -, rfl⟩ := Option.map_eq_some_iff.mp hload
  refine ⟨fun draft h => Or.inr ⟨h, hclears⟩, fun draft h => Or.inr ⟨h, hconsumes⟩, fun page' draft hpage' hdraft => ?_⟩
  cases hpage'
  obtain ⟨hproject, hoffers⟩ := afterLoad_offers hdraft
  refine ⟨hconsumes, hoffers.imp (fun hold => ?_) fun hnew => ?_⟩
  · exact ⟨page, hpage, hold, hproject.symm⟩
  · exact ⟨hnew.1, hnew.2.trans hproject.symm⟩

/-- **One step.** The storage is filled by a refused session, the store by a login, and the page from the store. -/
theorem draftStep (hrouted : s.Routed e) (h : s.step e = some s') : DraftStep s e s' := by
  cases e with
  | login userId now =>
      rw [Session.step] at h
      cases h
      refine ⟨fun draft hdraft => ?_, fun draft hdraft => ?_, fun page' draft hpage' => ?_⟩
      · cases hdraft
      · obtain ⟨hstored, rfl, htime⟩ := takeSecretDraftForUser_eq_some hdraft
        exact Or.inl ⟨now, rfl, hstored, htime⟩
      · have hnone : s.page = none := hrouted
        rw [show s.page = some page' from hpage'] at hnone
        cases hnone
  | logout =>
      rw [Session.step] at h
      cases h
      refine ⟨fun draft hdraft => ?_, fun draft hdraft => ?_, fun page' draft hpage' hdraft => ?_⟩
      · cases hdraft
      · cases hdraft
      · exact ⟨id, Or.inl ⟨page', hpage', hdraft, rfl⟩⟩
  | openPage projectId userId =>
      rw [Session.step] at h
      cases h
      refine ⟨fun draft hdraft => Or.inr ⟨hdraft, id⟩, fun draft hdraft => Or.inr ⟨hdraft, id⟩, fun page' draft hpage' hdraft => ?_⟩
      cases hpage'
      cases hdraft
  | leavePage =>
      rw [Session.step] at h
      cases h
      exact .of_page rfl rfl id id fun page' hpage' => by cases hpage'
  | unload =>
      rw [Session.step] at h
      cases h
      refine ⟨fun draft hdraft => Or.inr ⟨hdraft, id⟩, fun draft hdraft => ?_, fun page' draft hpage' => ?_⟩
      · cases hdraft
      · cases hpage'
  | reload =>
      rw [Session.step] at h
      exact .onPage h id id fun page page' hpage' => by
        cases hpage'
        exact .of_same rfl rfl
  | listed i rows =>
      rw [Session.step] at h
      refine .onPage h id id fun page page' hpage' => ?_
      obtain ⟨load, -, rfl⟩ := Option.map_eq_some_iff.mp hpage'
      exact .of_same rfl rfl
  | loaded i =>
      rw [Session.step] at h
      exact .endLoad h id id
  | loadFailed i =>
      rw [Session.step] at h
      exact .endLoad h id id
  | openCreate =>
      rw [Session.step] at h
      exact .onPage h id id fun page page' hpage' => by
        cases hpage'
        exact .of_same rfl rfl
  | openEdit secret =>
      rw [Session.step] at h
      refine .onPage h id id fun page page' hpage' => ?_
      split_ifs at hpage'
      cases hpage'
      exact .of_same rfl rfl
  | edit form =>
      rw [Session.step] at h
      refine .onPage h id id fun page page' hpage' => ?_
      split_ifs at hpage'
      cases hpage'
      exact .of_same rfl rfl
  | close =>
      rw [Session.step] at h
      exact .onPage h id id fun page page' hpage' => by
        cases hpage'
        exact .of_same rfl rfl
  | save request =>
      rw [Session.step] at h
      obtain ⟨page, hpage, h⟩ := Option.bind_eq_some_iff.mp h
      split_ifs at h
      cases h
      refine .of_page rfl rfl id id fun page' hpage' => ⟨page, hpage, ?_⟩
      cases hpage'
      exact retains_saveSecret page request
  | answered response =>
      rw [Session.step] at h
      obtain ⟨page, hpage, h⟩ := Option.bind_eq_some_iff.mp h
      split_ifs at h
      all_goals cases h
      all_goals refine ⟨fun draft hdraft => Or.inr ⟨hdraft, id⟩, fun draft hdraft => ?_, fun page' draft hpage' hdraft => ?_⟩
      · cases hdraft
      · cases hpage'
        obtain ⟨hproject, hretains⟩ := retains_saveAnswered page response
        exact ⟨id, Or.inl ⟨page, hpage, hretains draft hdraft, hproject.symm⟩⟩
      · exact Or.inr ⟨hdraft, id⟩
      · cases hpage'
        obtain ⟨hproject, hretains⟩ := retains_saveAnswered page response
        exact ⟨id, Or.inl ⟨page, hpage, hretains draft hdraft, hproject.symm⟩⟩
  | unanswered =>
      rw [Session.step] at h
      refine .onPage h id id fun page page' hpage' => ?_
      split_ifs at hpage'
      cases hpage'
      exact .of_same rfl rfl
  | savedLate =>
      rw [Session.step] at h
      cases h
      refine ⟨fun draft hdraft => Or.inr ⟨hdraft, id⟩, fun draft hdraft => ?_, fun page' draft hpage' hdraft => ?_⟩
      · cases hdraft
      · exact ⟨id, Or.inl ⟨page', hpage', hdraft, rfl⟩⟩
  | unauthorized now kept =>
      rw [Session.step] at h
      obtain ⟨page, hpage, rfl⟩ := Option.map_eq_some_iff.mp h
      have hsame : ∀ page', s.page = some page' → ∃ page, s.page = some page ∧ page.Retains page' := fun page' hpage' =>
        ⟨page', hpage', .of_same rfl rfl⟩
      split
      · rename_i draft hdraft
        split_ifs with hkept
        · subst hkept
          refine ⟨fun stored hstored => ?_, fun _ hpending => Or.inr ⟨hpending, id⟩, fun page' draft' hpage' hdraft' => ?_⟩
          · cases hstored
            exact Or.inl ⟨now, page, rfl, hpage, hdraft⟩
          · exact ⟨id, Or.inl ⟨page', hpage', hdraft', rfl⟩⟩
        · exact .of_page rfl rfl id id hsame
      · exact .of_page rfl rfl id id hsame
  | restoreDraft =>
      rw [Session.step] at h
      obtain ⟨page, hpage, h⟩ := Option.bind_eq_some_iff.mp h
      obtain ⟨draft, hdraft, rfl⟩ := Option.map_eq_some_iff.mp h
      refine ⟨fun draft hdraft => Or.inr ⟨hdraft, id⟩, fun draft hdraft => ?_, fun page' draft hpage' hdraft => ?_⟩
      · cases hdraft
      · cases hpage'
        cases hdraft
  | discardDraft =>
      rw [Session.step] at h
      obtain ⟨page, hpage, rfl⟩ := Option.map_eq_some_iff.mp h
      refine ⟨fun draft hdraft => Or.inr ⟨hdraft, id⟩, fun draft hdraft => ?_, fun page' draft hpage' hdraft => ?_⟩
      · cases hdraft
      · cases hpage'
        cases hdraft
  | dismissDraft =>
      rw [Session.step] at h
      exact .onPage h id id fun page page' hpage' => by
        cases hpage'
        exact ⟨rfl, fun draft hdraft => by cases hdraft⟩

end Step

/-! ## Where an offered draft comes from -/

section Runs
variable {s s' : Session} {e : SessionEvent} {events : List SessionEvent} {draft : Captured}

/-- The draft is still in the storage since it was captured. -/
def StillKept (draft : Captured) (events : List SessionEvent) : Prop :=
  Since Session.step (Session.Captures draft) SessionEvent.Clears .start events

/-- The draft is still on offer since a login has taken it from the storage. -/
def StillOnOffer (draft : Captured) (events : List SessionEvent) : Prop :=
  Since Session.step (Session.HandsOver draft) SessionEvent.Consumes .start events

structure DraftInv (events : List SessionEvent) (s : Session) : Prop where
  stored : ∀ draft, s.stored = some draft → StillKept draft events
  pending : ∀ draft, s.pendingDraft = some draft → StillOnOffer draft events
  offered : ∀ page draft, s.page = some page → page.pendingDraft = some draft →
    StillOnOffer draft events ∧ draft.projectId = page.projectId

theorem draftInv_step (hrun : run Session.step .start events = some s) (hinv : DraftInv events s) (h : DraftStep s e s') :
    DraftInv (events ++ [e]) s' where
  stored draft hdraft := (since_concat hrun).mpr
    ((h.stored draft hdraft).imp_right fun hold => ⟨hinv.stored draft hold.1, hold.2⟩)
  pending draft hdraft := (since_concat hrun).mpr
    ((h.pending draft hdraft).imp_right fun hold => ⟨hinv.pending draft hold.1, hold.2⟩)
  offered page' draft hpage' hdraft := by
    obtain ⟨hconsumes, hold⟩ := h.offered page' draft hpage' hdraft
    rcases hold with ⟨page, hpage, hpending, hproject⟩ | ⟨hpending, hproject⟩
    · obtain ⟨hsince, hdraftProject⟩ := hinv.offered page draft hpage hpending
      exact ⟨(since_concat hrun).mpr (Or.inr ⟨hsince, hconsumes⟩), hdraftProject.trans hproject⟩
    · exact ⟨(since_concat hrun).mpr (Or.inr ⟨hinv.pending draft hpending, hconsumes⟩), hproject⟩

/-- In every run, what the storage, the store and the page have was captured and handed over. -/
theorem draftInv_run (h : run Session.step .start events = some s)
    (hrouted : Along Session.step Session.Routed .start events) : DraftInv events s := by
  have hall := run_history (I := fun events s => Along Session.step Session.Routed .start events → DraftInv events s)
    (fun {events s e s'} hrun hinv hstep halong => ?_) h fun _ => ?_
  · exact hall hrouted
  · have hcond : s.Routed e := along_iff.mp halong events e [] s rfl hrun
    exact draftInv_step hrun (hinv halong.of_append) (draftStep hcond hstep)
  · refine ⟨fun draft hdraft => ?_, fun draft hdraft => ?_, fun page draft hpage => ?_⟩
    · cases hdraft
    · cases hdraft
    · cases hpage

/-- **A draft is only for the user who wrote it.** Whatever happens in a tab, a page that offers a draft is that of
its project, and the unsaved edits in it were captured when a session of its user was refused; the storage was not
emptied before the next login, which was that of the same user, within 15 minutes; and since then nobody else has
logged in, and the draft was neither restored nor discarded. -/
theorem offered_draft_handed_over (h : run Session.step .start events = some s)
    (hrouted : Along Session.step Session.Routed .start events) {page : ProjectPage} (hpage : s.page = some page)
    (hoffer : page.pendingDraft = some draft) :
    draft.projectId = page.projectId ∧ ∃ before away since t₁ t₂ s₁ page₁,
      events = before ++ .unauthorized t₁ true :: (away ++ .login draft.userId t₂ :: since) ∧
      run Session.step .start before = some s₁ ∧ s₁.page = some page₁ ∧ s₁.userId = some draft.userId ∧
      page₁.captureUnsavedEdits (some draft.userId) t₁ = some draft ∧ t₂ - t₁ ≤ secretDraftTtlMs ∧
      (∀ e ∈ away, ¬ e.Clears) ∧ ∀ e ∈ since, ¬ e.Consumes := by
  obtain ⟨hsince, hproject⟩ := (draftInv_run h hrouted).offered page draft hpage hoffer
  obtain ⟨taken, e, since, s₂, rfl, htaken, ⟨t₂, rfl, hstored, htime⟩, hsince⟩ := hsince
  have hcaptured := (draftInv_run htaken hrouted.of_append).stored draft hstored
  obtain ⟨before, e, away, s₁, rfl, hbefore, ⟨t₁, page₁, rfl, hpage₁, hcapture⟩, haway⟩ := hcaptured
  obtain ⟨huser, -, rfl, -⟩ := captureUnsavedEdits_eq_some hcapture
  rw [huser] at hcapture
  exact ⟨hproject, before, away, since, _, t₂, s₁, page₁, by simp, hbefore, hpage₁, huser, hcapture, htime, haway, hsince⟩

/-- What was captured is offered to its user, and restored with the rows that it had. -/
theorem captured_draft_offered {page : ProjectPage} {t₁ t₂ : Int} (hpage : s.page = some page)
    (hcapture : page.captureUnsavedEdits s.userId t₁ = some draft) (htime : t₂ - t₁ ≤ secretDraftTtlMs)
    (rows : List Secret) :
    ∃ s' page', run Session.step s [.unauthorized t₁ true, .unload, .login draft.userId t₂,
        .openPage draft.projectId draft.userId, .listed 0 rows, .loaded 0] = some s' ∧
      s'.page = some page' ∧ page'.secrets = rows ∧ page'.pendingDraft = some draft ∧
      (page'.restoreDraft draft).secretForm.rows = page.secretForm.rows := by
  obtain ⟨-, huser, hsaved, -, hrows⟩ := captureUnsavedEdits_eq_some hcapture
  have hstored : s.step (.unauthorized t₁ true) = some { s with stored := some draft } := by
    rw [Session.step, hpage]
    simp only [Option.map_some, hcapture, if_true]
  have htaken : takeSecretDraftForUser (some draft) draft.userId t₂ = some draft := by
    rw [takeSecretDraftForUser, loadSecretDraft, Option.filter_some_pos, Option.filter_some_pos (by simp)]
    exact decide_eq_true ⟨huser, not_lt.mpr (hsaved ▸ htime)⟩
  let page' : ProjectPage :=
    { ProjectPage.mount draft.projectId with secrets := rows, loads := [], pendingDraft := some draft }
  refine ⟨{ s with userId := some draft.userId, pendingDraft := some draft, stored := none, page := some page' }, page', ?_,
    rfl, rfl, rfl, hrows⟩
  rw [run, hstored]
  simp [run, Session.step, htaken, Session.onPage, Session.endLoad, ProjectPage.mount, ProjectPage.afterLoad, page']

end Runs

/-! ## A session that expires -/

section Example

/-- The form of a new secret with one key. -/
def unsavedForm : SecretFormState := ⟨js "db", [⟨js "KEY", js "x"⟩]⟩

/-- The session is refused while a new secret is written, and the same user comes back after ten minutes. -/
def expiredMoves : List SessionEvent :=
  [.openPage (js "p") (js "u"), .openCreate, .edit unsavedForm, .unauthorized 0 true, .unload, .login (js "u") 600000,
    .openPage (js "p") (js "u"), .loadFailed 0]

def unsavedDraft : Captured where
  projectId := js "p"
  secretId := none
  name := js "db"
  rows := unsavedForm.rows
  savedAt := 0
  userId := js "u"
  editing := none
  basis := ⟨none, none⟩

/-- Its page offers the draft. -/
def offeringPage : ProjectPage :=
  { ProjectPage.mount (js "p") with loads := [], pendingDraft := some unsavedDraft }

theorem run_expiredMoves :
    run Session.step .start expiredMoves =
      some ⟨some (js "u"), some unsavedDraft, none, some offeringPage, []⟩ := rfl

theorem routed_expiredMoves : Along Session.step Session.Routed .start expiredMoves :=
  .cons trivial rfl (.cons trivial rfl (.cons trivial rfl (.cons trivial rfl (.cons trivial rfl
    (.cons rfl rfl (.cons trivial rfl (.cons trivial rfl trivial)))))))

theorem offered_draft_handed_over_expired :
    unsavedDraft.projectId = offeringPage.projectId ∧ ∃ before away since t₁ t₂ s₁ page₁,
      expiredMoves = before ++ .unauthorized t₁ true :: (away ++ .login unsavedDraft.userId t₂ :: since) ∧
      run Session.step .start before = some s₁ ∧ s₁.page = some page₁ ∧ s₁.userId = some unsavedDraft.userId ∧
      page₁.captureUnsavedEdits (some unsavedDraft.userId) t₁ = some unsavedDraft ∧ t₂ - t₁ ≤ secretDraftTtlMs ∧
      (∀ e ∈ away, ¬ e.Clears) ∧ ∀ e ∈ since, ¬ e.Consumes :=
  offered_draft_handed_over run_expiredMoves routed_expiredMoves rfl rfl

end Example

end SecretsManager
