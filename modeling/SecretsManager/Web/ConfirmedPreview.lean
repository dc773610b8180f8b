import SecretsManager.Restic.CompareAndSwap
import SecretsManager.SpelledRuns

/-!
# Confirmed previews

The preview dialog of the web client asks for a preview and, when the user confirms, sends the request that
carries it out. A pull and a restore send the previewed snapshot; a discard sends the content hash alone,
and the server applies the snapshot that is the last synchronized one by then.
-/

namespace SecretsManager

open Js Interleaving

/-! ## The requests of the dialog -/

/-- `mode` of the preview dialog. -/
inductive SyncMode where
  | pull
  | discard
  | snapshot

/-- The segments of the URL, and the fields of the body. -/
structure SyncExecutionRequest where
  url : List JsString
  snapshotId : Option JsValue
  contentHash : Option JsValue

def buildSyncExecutionRequest (mode : SyncMode) (projectId snapshotId contentHash : JsString) :
    SyncExecutionRequest :=
  let base := [js "projects", projectId]
  let token : Option JsValue := if contentHash = [] then none else some (.str contentHash)
  match mode with
  | .pull => ⟨base ++ [js "pull"], some (.str snapshotId), token⟩
  | .discard => ⟨base ++ [js "discard"], none, token⟩
  | .snapshot => ⟨base ++ [js "snapshots", snapshotId, js "restore"], none, token⟩

/-- The operation that the server runs for a `POST` request. -/
def SyncExecutionRequest.route (request : SyncExecutionRequest) : Option Operation :=
  match request.url with
  | [root, id, action] =>
      if root ≠ js "projects" then none
      else if action = js "pull" then some (.pull id request.snapshotId request.contentHash)
      else if action = js "discard" then some (.discard id request.contentHash)
      else none
  | [root, id, collection, snapshotId, action] =>
      if root = js "projects" ∧ collection = js "snapshots" ∧ action = js "restore" then
        some (.restore id snapshotId request.contentHash)
      else none
  | _ => none

/-- `pinnedSnapshotId` -/
def pinnedSnapshotId (mode : SyncMode) (snapshotId : JsString) (preview : SyncPreviewResult) : JsString :=
  match mode with
  | .snapshot => snapshotId
  | .pull | .discard => preview.snapshotId

/-- `loadPreview` -/
def loadPreview (mode : SyncMode) (projectId snapshotId : JsString) : Operation :=
  match mode with
  | .pull => .previewPull projectId
  | .discard => .previewDiscard projectId
  | .snapshot => .previewRestore projectId snapshotId

/-- `execute`: the request that confirms a preview. -/
def executePreview (mode : SyncMode) (projectId snapshotId : JsString) (preview : SyncPreviewResult) :
    SyncExecutionRequest :=
  buildSyncExecutionRequest mode projectId (pinnedSnapshotId mode snapshotId preview) preview.contentHash

section Requests
variable {mode : SyncMode} {projectId snapshotId : JsString} {preview : SyncPreviewResult} {op : Operation}

/-- A confirmation carries the hash of its preview. -/
theorem confirms_executePreview (hhash : preview.contentHash ≠ [])
    (h : (executePreview mode projectId snapshotId preview).route = some op) :
    op.confirms = some (projectId, some preview.contentHash) := by
  have htoken : readContentHash (some (.str preview.contentHash)) = some preview.contentHash := if_neg hhash
  cases mode <;>
    simp only [executePreview, buildSyncExecutionRequest, if_neg hhash] at h <;>
    · cases h
      simp only [Operation.confirms, htoken]

/-- Except for a discard, it targets the previewed snapshot. -/
theorem targets_executePreview {v : View} {id : JsString} (hmode : mode ≠ .discard)
    (h : (executePreview mode projectId snapshotId preview).route = some op) (htargets : v.Targets id op) :
    id = pinnedSnapshotId mode snapshotId preview := by
  cases mode with
  | pull =>
      cases h
      cases htargets
      rfl
  | snapshot =>
      cases h
      exact htargets
  | discard => exact absurd rfl hmode

end Requests

variable {R : Type} {restic : Restic R} {P : Platform} {timeouts : ResticTimeouts}
  {admits : Operation → Prop} {t : Nat} {projectId snapshotId : JsString}

/-! ## What a preview has shown -/

/-- What the dialog of a successful preview rests on. -/
structure Shown (P : Platform) (restic : Restic R) (projectId : JsString) (preview : SyncPreviewResult)
    (trace : List (ServerEvent R)) (w : World R) (seen incoming : List SecretContent) : Prop where
  listed : ∃ w₁ rows w₂, (⟨w₁, .secretsList projectId, .ok rows, w₂⟩ : ServerEvent R) ∈ trace ∧
    seen = contents (w₁.db.rows projectId)
  names : UniqueNames seen
  hash : preview.contentHash = computeSecretsHash P seen
  snapshot : SnapshotContent P restic w projectId preview.snapshotId incoming
  diff : preview.toSecretsDiffResult = computeSecretsDiff seen incoming

theorem outcome_of_preview {mode : SyncMode} {r : Except Failure Response} {v : View}
    (h : Outcome P (loadPreview mode projectId snapshotId) r v) :
    ∃ pinned, PreviewRouteOutcome P projectId pinned r v ∧ (mode = .snapshot → pinned = some snapshotId) := by
  cases mode with
  | pull | discard => exact ⟨none, h, fun hmode => by cases hmode⟩
  | snapshot => exact ⟨some snapshotId, h, fun _ => rfl⟩

/-- A successful preview has shown the diff between a content that the project had while it ran and the
content of the snapshot that it names, which is the requested one when there is one. -/
theorem shown_of_preview (hf : restic.Faithful) {w₀ : World R} (h₀ : Inv w₀)
    {cfg : Config (World R) Cmd Cmd.Answer Failure Response Operation}
    (h : (server P timeouts restic admits).Reachable w₀ cfg)
    {th : Thread (World R) Cmd Cmd.Answer Failure Response Operation} (hth : cfg.threads[t]? = some th)
    {mode : SyncMode} (hreq : th.req = loadPreview mode projectId snapshotId) {preview : SyncPreviewResult}
    (hresult : th.prog.result? = some (.ok ⟨200, .preview preview⟩)) :
    pinnedSnapshotId mode snapshotId preview = preview.snapshotId ∧
      ∃ seen incoming, Shown P restic projectId preview th.trace cfg.world seen incoming := by
  have hthread := ((serverOutline P timeouts restic admits).good h₀ h).threads t th hth
  have hlawful : Lawful P timeouts restic admits t th.req th.trace := hthread.past
  have houtcome : Outcome P (loadPreview mode projectId snapshotId) (.ok ⟨200, .preview preview⟩)
      (viewAfter th.trace) := hreq ▸ hthread.meets.result hresult
  obtain ⟨pinned, ⟨-, hpreview⟩, hmode⟩ := outcome_of_preview houtcome
  obtain ⟨_, hbody, hpinned, rows, listing, incoming, hlisted, hrestored, hread, hdiff, hhash⟩ :=
    hpreview _ rfl
  cases hbody
  have hpin : pinnedSnapshotId mode snapshotId preview = preview.snapshotId := by
    cases mode with
    | pull | discard => rfl
    | snapshot => exact (hpinned snapshotId (hmode rfl)).symm
  obtain ⟨earlier, w₁, w₂, later, hsplit, -⟩ := listed_viewAfter hlisted
  have hexec : Exec restic t w₁ (.secretsList projectId) (.ok rows) w₂ := (hlawful earlier _ later hsplit).exec
  have hrows : (contents rows).Perm (contents (w₁.db.rows projectId)) := (exec_listed hexec).map _
  have hseen : UniqueNames (contents (w₁.db.rows projectId)) := w₁.db.valid.uniqueNames projectId
  have hnames : UniqueNames (contents rows) := hseen.perm hrows.symm
  have hknows : Knows restic t th.req (viewAfter th.trace) cfg.world := hthread.assert
  obtain ⟨dir, hdir, hlisting⟩ := hknows.restored hf hrestored
  obtain ⟨incoming', hread', hperm⟩ := readSnapshotSecrets_perm hread hlisting
  have hincoming' : UniqueNames incoming' := uniqueNames_readSnapshotSecrets dir.distinct hread'
  have hincoming : UniqueNames incoming := hincoming'.perm hperm.symm
  refine ⟨hpin, contents (w₁.db.rows projectId), incoming', ?_⟩
  refine
    { listed := ⟨w₁, rows, w₂, by simp [hsplit], rfl⟩
      names := hseen
      hash := ?_
      snapshot := ⟨dir, hdir, hread'⟩
      diff := ?_ }
  · rw [hhash]
    exact computeSecretsHash_eq_of_contentMap_eq P hnames hseen (contentMap_eq_of_perm hnames hrows)
  · rw [hdiff]
    exact computeSecretsDiff_congr hnames hseen hincoming hincoming' (contentMap_eq_of_perm hnames hrows)
      (contentMap_eq_of_perm hincoming hperm)

/-! ## The reads of a discard -/

theorem View.step_reads (v : View) (e : ServerEvent R) :
    ∃ more, (v.step e.cmd e.answer).reads = v.reads ++ more := by
  obtain ⟨w, c, a, w'⟩ := e
  have hkeep : ∀ v' : View, v'.reads = v.reads → ∃ more, v'.reads = v.reads ++ more := fun v' h =>
    ⟨[], by rw [h, List.append_nil]⟩
  cases c with
  | projectsGet id =>
      cases a with
      | error e => exact hkeep v rfl
      | ok row =>
          rw [View.step]
          split_ifs
          · exact hkeep _ rfl
          · exact ⟨[row], rfl⟩
  | secretsList projectId =>
      cases a with
      | error e => exact hkeep v rfl
      | ok rows =>
          refine hkeep _ ?_
          rw [View.step]
          split_ifs <;> rfl
  | transact tx => cases a <;> exact hkeep _ rfl
  | acquire lock => cases a <;> exact hkeep _ rfl
  | restic projectId op =>
      cases op with
      | restore snapshotId =>
          refine hkeep _ ?_
          rw [View.step]
          split_ifs <;> rfl
      | _ => exact hkeep _ rfl
  | _ => exact hkeep _ rfl

theorem reads_viewAfter (earlier later : List (ServerEvent R)) :
    ∃ more, (viewAfter (earlier ++ later)).reads = (viewAfter earlier).reads ++ more := by
  induction later using List.reverseRecOn with
  | nil => exact ⟨[], by rw [List.append_nil, List.append_nil]⟩
  | append_singleton later e ih =>
      obtain ⟨more, hmore⟩ := ih
      obtain ⟨last, hlast⟩ := View.step_reads (viewAfter (earlier ++ later)) e
      refine ⟨more ++ last, ?_⟩
      rw [← List.append_assoc, viewAfter_append, hlast, hmore, List.append_assoc]

/-- A discard that has come to a transaction has read the project twice at its start. -/
theorem discard_reads {contentHash : Option JsValue} {h : List ((c : Cmd) × c.Answer)} {p : Op Response}
    (hf : Prog.Follows (serve P timeouts (.discard projectId contentHash)) h p) {tx : Transaction}
    {a : Except Failure Nat} (hx : (⟨.transact tx, a⟩ : (c : Cmd) × c.Answer) ∈ h) : ∃ first second rest,
      h = ⟨.projectsGet projectId, .ok (some first)⟩ :: ⟨.projectsGet first.id, .ok second⟩ :: rest := by
  have hlater : ∀ {c₀ : Cmd} {a₀ : c₀.Answer} {l : List ((c : Cmd) × c.Answer)},
      (⟨.transact tx, a⟩ : (c : Cmd) × c.Answer) ∈ ⟨c₀, a₀⟩ :: l → (∀ tx, c₀ ≠ .transact tx) →
        (⟨.transact tx, a⟩ : (c : Cmd) × c.Answer) ∈ l := by
    rintro _ _ l (_ | hx) hc
    · exact absurd rfl (hc tx)
    · assumption
  cases hf with
  | nil => cases hx
  | @cons _ _ first h _ hf =>
      have hx₁ := hlater hx fun tx h => by cases h
      cases first with
      | error e =>
          cases hf
          exact absurd hx₁ List.not_mem_nil
      | ok first =>
          cases first with
          | none =>
              cases hf
              exact absurd hx₁ List.not_mem_nil
          | some first =>
              cases hf with
              | nil => exact absurd hx₁ List.not_mem_nil
              | @cons _ _ second h _ hf =>
                  have hx₂ := hlater hx₁ fun tx h => by cases h
                  cases second with
                  | error e =>
                      cases hf
                      exact absurd hx₂ List.not_mem_nil
                  | ok second => exact ⟨first, second, h, rfl⟩

/-- The snapshot that was the last synchronized one when a discard read the project for the second time, or
for the first time if the project is gone by then. -/
def rereadLastSync? (projectId : JsString) : List (ServerEvent R) → Option JsString
  | first :: second :: _ =>
      ((second.before.db.project? projectId).or (first.before.db.project? projectId)).map
        Project.lastSyncSnapshotId
  | _ => none

theorem exec_project {w w' : World R} {id : JsString} {row : Option Project}
    (h : Exec restic t w (.projectsGet id) (.ok row) w') : row = w.db.project? id := by
  obtain ⟨-, h | ⟨m, h⟩⟩ := h
  · exact Except.ok.inj h
  · cases h

/-- A discard targets the snapshot that it reads at its start. -/
theorem targets_discard {contentHash : Option JsValue} {p : Op Response} {op : Operation}
    {earlier later : List (ServerEvent R)} {e : ServerEvent R} {id : JsString}
    (h : Lawful P timeouts restic admits t op (earlier ++ e :: later))
    (hf : Prog.Follows (serve P timeouts (.discard projectId contentHash))
      ((earlier ++ e :: later).map fun x => ⟨x.cmd, x.answer⟩) p)
    (he : ∃ x, committed? e = some x) (htargets : (viewAfter earlier).Targets id (.discard projectId contentHash)) :
    rereadLastSync? projectId (earlier ++ e :: later) = some id := by
  obtain ⟨⟨tx, n⟩, he⟩ := he
  obtain ⟨w, w', rfl⟩ := committed?_eq_some he
  have hmem : (⟨.transact tx, .ok n⟩ : (c : Cmd) × c.Answer) ∈
      (earlier ++ ⟨w, .transact tx, .ok n, w'⟩ :: later).map fun x => ⟨x.cmd, x.answer⟩ :=
    List.mem_map.mpr ⟨⟨w, .transact tx, .ok n, w'⟩, by simp, rfl⟩
  obtain ⟨first, second, rest, hreads⟩ := discard_reads hf hmem
  -- the two reads come before the transaction
  cases earlier with
  | nil => cases (List.cons.inj hreads).1
  | cons x₁ earlier =>
      cases earlier with
      | nil => cases (List.cons.inj (List.cons.inj hreads).2).1
      | cons x₂ earlier =>
          obtain ⟨w₁, c₁, a₁, w₁'⟩ := x₁
          obtain ⟨w₂, c₂, a₂, w₂'⟩ := x₂
          obtain ⟨h₁, h₂⟩ := List.cons.inj hreads
          cases h₁
          cases (List.cons.inj h₂).1
          have hexec₁ : Exec restic t w₁ (.projectsGet projectId) (.ok (some first)) w₁' := (h [] _ _ rfl).exec
          have hexec₂ : Exec restic t w₂ (.projectsGet first.id) (.ok second) w₂' := (h [_] _ _ rfl).exec
          have hfirst := exec_project hexec₁
          have hid : first.id = projectId := Tables.project?_id hfirst.symm
          have hsecond := exec_project hexec₂
          rw [hid] at hsecond
          obtain ⟨first', second', rest', htargets, rfl⟩ := htargets
          obtain ⟨more, hmore⟩ := reads_viewAfter
            [⟨w₁, .projectsGet projectId, .ok (some first), w₁'⟩, ⟨w₂, .projectsGet first.id, .ok second, w₂'⟩]
            earlier
          have hpair := hmore.symm.trans htargets
          obtain rfl : first = first' := Option.some.inj (List.cons.inj hpair).1
          obtain rfl : second = second' := (List.cons.inj (List.cons.inj hpair).2).1
          show ((w₂.db.project? projectId).or (w₁.db.project? projectId)).map Project.lastSyncSnapshotId = _
          rw [← hsecond, ← hfirst]
          cases second <;> rfl

/-! ## Confirmations -/

/-- The event turns the content that the preview has listed into the content of the snapshot that the
preview names, which becomes the last synchronized one, and the change is the diff of the preview. -/
structure AppliesPreview (P : Platform) (restic : Restic R) (w : World R) (projectId : JsString)
    (preview : SyncPreviewResult) (trace : List (ServerEvent R)) (e : ServerEvent R) : Prop where
  before : ∃ w₁ rows w₂, (⟨w₁, .secretsList projectId, .ok rows, w₂⟩ : ServerEvent R) ∈ trace ∧
    preview.contentHash = computeSecretsHash P (contents (w₁.db.rows projectId)) ∧
    contentMap (contents (e.before.db.rows projectId)) = contentMap (contents (w₁.db.rows projectId))
  after : ∃ incoming, SnapshotContent P restic w projectId preview.snapshotId incoming ∧
    contentMap (contents (e.after.db.rows projectId)) = contentMap incoming
  synced : ∃ p, e.after.db.project? projectId = some p ∧ p.lastSyncSnapshotId = preview.snapshotId
  shown : computeSecretsDiff (contents (e.before.db.rows projectId)) (contents (e.after.db.rows projectId)) =
    preview.toSecretsDiffResult

/-- On the server that takes the ids as stored. -/
theorem server_applies_iff (hP : P.HashInjective) (hdigest : ∀ text, P.sha256 text ≠ [])
    (hf : restic.Faithful) {db : Db} {repository : R}
    {cfg : Config (World R) Cmd Cmd.Answer Failure Response Operation}
    (h : (server P timeouts restic admits).Reachable (.initial db repository) cfg)
    {t₁ t₂ : Nat} {shown confirmed : Thread (World R) Cmd Cmd.Answer Failure Response Operation}
    (hshown : cfg.threads[t₁]? = some shown) (hconfirmed : cfg.threads[t₂]? = some confirmed)
    {mode : SyncMode} {preview : SyncPreviewResult} {body : ResponseBody}
    (hreq : shown.req = loadPreview mode projectId snapshotId)
    (hpreview : shown.prog.result? = some (.ok ⟨200, .preview preview⟩))
    (hroute : (executePreview mode projectId snapshotId preview).route = some confirmed.req)
    (hbody : confirmed.prog.result? = some (.ok ⟨200, body⟩)) :
    ∃ earlier e later, confirmed.trace = earlier ++ e :: later ∧
      (∃ secrets state n, committed? e = some (.secretsDataReplaceForProject projectId secrets state, n)) ∧
      (∀ x ∈ earlier ++ later, x.after.db = x.before.db) ∧
      (AppliesPreview P restic cfg.world projectId preview shown.trace e ↔
        (mode = .discard → rereadLastSync? projectId confirmed.trace = some preview.snapshotId)) := by
  have h₀ := inv_initial db repository
  obtain ⟨hpin, seen, incoming, hseen⟩ := shown_of_preview hf h₀ h hshown hreq hpreview
  have hhash : preview.contentHash ≠ [] := by
    rw [hseen.hash]
    exact hdigest _
  have hconfirms := confirms_executePreview hhash hroute
  obtain ⟨earlier, w, w', later, secrets, state, n, hsplit, hreplaces, hothers⟩ :=
    confirmed_replaces h₀ h hconfirmed hconfirms hbody
  have hthread := ((serverOutline P timeouts restic admits).good h₀ h).threads t₂ confirmed hconfirmed
  have hlawful : Lawful P timeouts restic admits t₂ confirmed.req confirmed.trace := hthread.past
  have hhappened := hlawful earlier _ later hsplit
  have hknows : Knows restic t₂ confirmed.req (viewAfter earlier) w := hhappened.assert
  have hexec : Exec restic t₂ w (.transact (.secretsDataReplaceForProject projectId secrets state)) (.ok n) w' :=
    hhappened.exec
  obtain ⟨hsynced, read, hcontent, hafter⟩ := applied_of_replaces hf hknows hreplaces hexec
  -- the target of the confirmation
  have htarget : (mode = .discard → rereadLastSync? projectId confirmed.trace = some preview.snapshotId) ↔
      state.snapshotId = preview.snapshotId := by
    by_cases hmode : mode = .discard
    · subst hmode
      have hop : confirmed.req = .discard projectId (some (.str preview.contentHash)) := by
        simp only [executePreview, buildSyncExecutionRequest, if_neg hhash] at hroute
        exact (Option.some.inj hroute).symm
      have hfollows := h.follows hconfirmed
      have htargets := hreplaces.target
      rw [hop] at htargets
      rw [hsplit] at hlawful hfollows
      rw [hsplit, targets_discard hlawful (hop ▸ hfollows) ⟨_, rfl⟩ htargets]
      exact ⟨fun heq => Option.some.inj (heq rfl), fun heq _ => by rw [heq]⟩
    · exact ⟨fun _ => (targets_executePreview hmode hroute hreplaces.target).trans hpin, fun _ heq => absurd heq hmode⟩
  refine ⟨earlier, _, later, hsplit, ⟨secrets, state, n, rfl⟩, hothers, ?_⟩
  rw [htarget]
  constructor
  · rintro ⟨-, -, ⟨p, hp, hpsync⟩, -⟩
    obtain ⟨p', hp', hpsync'⟩ := hsynced
    obtain rfl : p = p' := Option.some.inj (hp.symm.trans hp')
    exact hpsync'.symm.trans hpsync
  · intro hid
    rw [hid] at hsynced hcontent
    -- the snapshot of the confirmation is that of the preview
    have hkept := (keeps_past hf h₀ h confirmed (List.mem_of_getElem? hconfirmed) _
      (hsplit ▸ List.mem_append_right _ (List.mem_cons_self ..))).1
    obtain rfl : read = incoming := (hcontent.kept hkept).unique hseen.snapshot
    obtain ⟨sent, rows, hsent, hlists, hexpected⟩ := hreplaces.compared
    rw [hconfirms] at hsent
    cases hsent
    have hrowsHash : rowsHash P rows = preview.contentHash := hexpected
    have hbefore := contentMap_of_rowsHash hP (hknows.list hlists) hseen.names (hseen.hash.symm.trans hrowsHash.symm)
    obtain ⟨w₁, listed, w₂, hmem, rfl⟩ := hseen.listed
    refine ⟨⟨w₁, listed, w₂, hmem, hseen.hash, hbefore.symm⟩, ⟨read, hseen.snapshot, hafter⟩, hsynced, ?_⟩
    rw [hseen.diff]
    exact computeSecretsDiff_congr (w.db.valid.uniqueNames projectId) hseen.names (w'.db.valid.uniqueNames projectId)
      hseen.snapshot.names hbefore.symm hafter

/-! ### On columns of ids -/

section Column
variable {ids : IdColumn}

theorem rereadLastSync?_spellTrace (trace : List (ServerEvent R)) :
    rereadLastSync? projectId (spellTrace ids trace) = rereadLastSync? projectId trace := by
  match trace with
  | [] | [_] => rfl
  | first :: second :: rest =>
      show ((second.before.db.project? projectId).or ((spellEvent ids first).before.db.project? projectId)).map _ = _
      rw [before_spellEvent]
      rfl

theorem appliesPreview_spellTrace {w : World R} {preview : SyncPreviewResult} {trace : List (ServerEvent R)}
    {e : ServerEvent R} :
    AppliesPreview P restic w projectId preview (spellTrace ids trace) e ↔
      AppliesPreview P restic w projectId preview trace e := by
  have hlisted : ∀ w₁ rows w₂, (⟨w₁, .secretsList projectId, .ok rows, w₂⟩ : ServerEvent R) ∈ spellTrace ids trace ↔
      (⟨w₁, .secretsList projectId, .ok rows, w₂⟩ : ServerEvent R) ∈ trace := fun w₁ rows w₂ =>
    mem_spellTrace fun id h => by cases h
  constructor
  · rintro ⟨⟨w₁, rows, w₂, hmem, hbefore⟩, hafter, hsynced, hshown⟩
    exact ⟨⟨w₁, rows, w₂, (hlisted w₁ rows w₂).mp hmem, hbefore⟩, hafter, hsynced, hshown⟩
  · rintro ⟨⟨w₁, rows, w₂, hmem, hbefore⟩, hafter, hsynced, hshown⟩
    exact ⟨⟨w₁, rows, w₂, (hlisted w₁ rows w₂).mpr hmem, hbefore⟩, hafter, hsynced, hshown⟩

theorem respell_loadPreview (mode : SyncMode) :
    (loadPreview mode projectId snapshotId).respell ids = loadPreview mode (ids.spell projectId) snapshotId := by
  cases mode <;> rfl

theorem route_executePreview {mode : SyncMode} {preview : SyncPreviewResult} {op : Operation}
    (h : (executePreview mode projectId snapshotId preview).route = some op) :
    (executePreview mode (ids.spell projectId) snapshotId preview).route = some (op.respell ids) := by
  cases mode <;>
    · cases h
      rfl

/-- **A confirmed preview does what it showed**, except that a discard applies the snapshot that was last
synchronized when it starts. On a database whose ids the creations and the secret routes spell as it stores them, a
successful confirmation, sent as the dialog builds it, changes the database at one replacement only; that replacement
applies the preview if and only if, for a discard, the project still has the previewed snapshot as the last synchronized
one when the discard rereads it. -/
theorem confirmedPreview_applies_iff (hspelled : ∀ op, admits op → op.Spelled ids) (hP : P.HashInjective)
    (hdigest : ∀ text, P.sha256 text ≠ []) (hf : restic.Faithful) {db : Db} (hstored : db.toTables.Stored ids)
    {repository : R} {cfg : Config (World R) Cmd Cmd.Answer Failure Response Operation}
    (h : (serverOn ids P timeouts restic admits).Reachable (.initial db repository) cfg)
    {t₁ t₂ : Nat} {shown confirmed : Thread (World R) Cmd Cmd.Answer Failure Response Operation}
    (hshown : cfg.threads[t₁]? = some shown) (hconfirmed : cfg.threads[t₂]? = some confirmed)
    {mode : SyncMode} {preview : SyncPreviewResult} {body : ResponseBody}
    (hreq : shown.req = loadPreview mode projectId snapshotId)
    (hpreview : shown.prog.result? = some (.ok ⟨200, .preview preview⟩))
    (hroute : (executePreview mode projectId snapshotId preview).route = some confirmed.req)
    (hbody : confirmed.prog.result? = some (.ok ⟨200, body⟩)) :
    ∃ earlier e later, confirmed.trace = earlier ++ e :: later ∧
      (∃ secrets state n, committed? e = some (.secretsDataReplaceForProject (ids.spell projectId) secrets state, n)) ∧
      (∀ x ∈ earlier ++ later, x.after.db = x.before.db) ∧
      (AppliesPreview P restic cfg.world (ids.spell projectId) preview shown.trace e ↔
        (mode = .discard → rereadLastSync? (ids.spell projectId) confirmed.trace = some preview.snapshotId)) := by
  obtain ⟨cfg', h', hbeside⟩ := serverOn_mirrored (fun _ => True) hspelled (fun _ _ => trivial) hstored h
  obtain ⟨shown', hshown', hshownRel⟩ := hbeside.threads hshown
  obtain ⟨confirmed', hconfirmed', hconfirmedRel⟩ := hbeside.threads hconfirmed
  have hreq' : shown'.req = loadPreview mode (ids.spell projectId) snapshotId := by
    rw [hshownRel.req, hreq, respell_loadPreview]
  have hroute' : (executePreview mode (ids.spell projectId) snapshotId preview).route = some confirmed'.req := by
    rw [hconfirmedRel.req]
    exact route_executePreview hroute
  obtain ⟨earlier', e', later, hsplit, hreplaces, hothers, happlies⟩ := server_applies_iff hP hdigest hf h' hshown'
    hconfirmed' hreq' (hshownRel.result.trans hpreview) hroute' (hconfirmedRel.result.trans hbody)
  rw [hconfirmedRel.trace] at hsplit happlies
  rw [rereadLastSync?_spellTrace, hshownRel.trace, appliesPreview_spellTrace, hbeside.world] at happlies
  obtain ⟨earlier, e, htrace, rfl, hsame⟩ := spellTrace_split hsplit
  -- the replacement is no lookup
  obtain rfl : e' = e := by
    rcases hsame with rfl | rfl
    · rfl
    · obtain ⟨secrets, state, n, hcommitted⟩ := hreplaces
      exact spellEvent_of_committed hcommitted
  refine ⟨earlier, e', later, htrace, hreplaces, fun x hx => ?_, happlies⟩
  rcases List.mem_append.mp hx with hx | hx
  · obtain ⟨x', hx', hbefore, hafter⟩ := exists_mem_spellTrace hx
    rw [← hbefore, ← hafter]
    exact hothers x' (List.mem_append_left _ hx')
  · exact hothers x (List.mem_append_right _ hx)

end Column

section Example

def restoreMoves : List (Move Operation JsString) :=
  .spawn (loadPreview .snapshot (js "p") (js "s1")) :: steps 0 10 ++ .spawn swap :: steps 1 8 ++
    [.run 1 (js "b")] ++ steps 1 7

/-- The value `1` of the snapshot `s1` comes for the value `2`. -/
def examplePreview : SyncPreviewResult where
  secrets := [⟨js "api", .changed, [⟨js "A", .changed, none, some 1, some 1⟩]⟩]
  summary := ⟨0, 0, 1, 0, 0, 1⟩
  snapshotId := js "s1"
  snapshotTime := Snapshots.snapshotTime
  contentHash := hash2

theorem confirmedPreview_applies_restore :
    ∃ cfg shown confirmed, (serverOn .text runPlatform exampleTimeouts Snapshots.restic
        (Operation.Spelled .text)).Reachable (.initial editedDb [(js "s1", exampleFiles "1")]) cfg ∧
      cfg.threads[0]? = some shown ∧ cfg.threads[1]? = some confirmed ∧
      shown.prog.result? = some (.ok ⟨200, .preview examplePreview⟩) ∧
      confirmed.prog.result? = some (.ok swapped) ∧
      ∃ e ∈ confirmed.trace,
        AppliesPreview runPlatform Snapshots.restic cfg.world (js "p") examplePreview shown.trace e := by
  obtain ⟨cfg, hplay, hends⟩ : ∃ cfg,
      playOn .text restoreMoves (.initial editedDb [(js "s1", exampleFiles "1")]) = some cfg ∧
      ends cfg = [(loadPreview .snapshot (js "p") (js "s1"), some (.ok ⟨200, .preview examplePreview⟩)),
        (swap, some (.ok swapped))] :=
    Option.map_eq_some_iff.mp rfl
  obtain ⟨shown, hshown, hreq, hpreview⟩ := thread_of_ends hends (t := 0) rfl
  obtain ⟨confirmed, hconfirmed, hop, hresult⟩ := thread_of_ends hends (t := 1) rfl
  have hroute : (executePreview .snapshot (js "p") (js "s1") examplePreview).route = some confirmed.req := by
    rw [hop]
    rfl
  have hspelled : ∀ op, Move.spawn op ∈ restoreMoves → op.Spelled .text := by
    intro op hop
    simp only [restoreMoves, steps, List.mem_append, List.mem_cons, List.mem_replicate, Move.spawn.injEq,
      reduceCtorEq, and_false, or_false, List.not_mem_nil] at hop
    rcases hop with rfl | rfl <;> trivial
  have hreachable := playOn_reachable hspelled hplay
  have hspell : IdColumn.text.spell (js "p") = js "p" := rfl
  obtain ⟨earlier, e, later, hsplit, -, -, happlies⟩ := confirmedPreview_applies_iff (fun _ h => h)
    hashInjective_runPlatform digest_runPlatform Snapshots.faithful_restic (by decide) hreachable hshown hconfirmed hreq
    hpreview hroute hresult
  rw [hspell] at happlies
  refine ⟨cfg, shown, confirmed, hreachable, hshown, hconfirmed, hpreview, hresult, e, ?_, ?_⟩
  · rw [hsplit]
    exact List.mem_append_right _ (List.mem_cons_self ..)
  · exact happlies.mpr fun hmode => by cases hmode

/-- Another user pushes between the preview of a discard and its confirmation. -/
def discardMoves : List (Move Operation JsString) :=
  .spawn (loadPreview .discard (js "p") []) :: steps 0 10 ++ .spawn (.push (js "p") none) :: steps 1 16 ++
    .spawn (.discard (js "p") (some (.str hash2))) :: steps 2 9 ++ [.run 2 (js "b")] ++ steps 2 7

def pushedResponse : Response := ⟨200, .pushed ⟨js "s2", Snapshots.snapshotTime⟩⟩

/-- The confirmed discard applies the pushed snapshot `s2`, not the previewed `s1`. -/
theorem not_confirmedPreview_applies :
    ∃ cfg shown confirmed, (serverOn .text runPlatform exampleTimeouts Snapshots.restic fun _ => True).Reachable
        (.initial editedDb [(js "s1", exampleFiles "1")]) cfg ∧
      cfg.threads[0]? = some shown ∧ cfg.threads[2]? = some confirmed ∧
      shown.req = loadPreview .discard (js "p") [] ∧
      shown.prog.result? = some (.ok ⟨200, .preview examplePreview⟩) ∧
      (executePreview .discard (js "p") [] examplePreview).route = some confirmed.req ∧
      confirmed.prog.result? = some (.ok ⟨200, .restored ⟨js "s2", Snapshots.snapshotTime, 1, 1⟩⟩) ∧
      ∀ e ∈ confirmed.trace,
        ¬ AppliesPreview runPlatform Snapshots.restic cfg.world (js "p") examplePreview shown.trace e := by
  obtain ⟨cfg, hplay, hends⟩ : ∃ cfg,
      playOn .text discardMoves (.initial editedDb [(js "s1", exampleFiles "1")]) = some cfg ∧
      ends cfg = [(loadPreview .discard (js "p") [], some (.ok ⟨200, .preview examplePreview⟩)),
        (.push (js "p") none, some (.ok pushedResponse)),
        (.discard (js "p") (some (.str hash2)),
          some (.ok ⟨200, .restored ⟨js "s2", Snapshots.snapshotTime, 1, 1⟩⟩))] :=
    Option.map_eq_some_iff.mp rfl
  have hsynced : (playOn .text discardMoves (.initial editedDb [(js "s1", exampleFiles "1")])).map
      (fun cfg => cfg.threads[2]?.map fun th => th.trace.all fun e =>
        (e.after.db.project? (js "p")).map Project.lastSyncSnapshotId = some (js "s2")) = some (some true) := rfl
  rw [hplay, Option.map_some, Option.some.injEq] at hsynced
  obtain ⟨shown, hshown, hreq, hpreview⟩ := thread_of_ends hends (t := 0) rfl
  obtain ⟨confirmed, hconfirmed, hop, hresult⟩ := thread_of_ends hends (t := 2) rfl
  rw [hconfirmed, Option.map_some, Option.some.injEq, List.all_eq_true] at hsynced
  have hroute : (executePreview .discard (js "p") [] examplePreview).route = some confirmed.req := by
    rw [hop]
    rfl
  refine ⟨cfg, shown, confirmed, playOn_reachable (fun _ _ => trivial) hplay, hshown, hconfirmed, hreq, hpreview,
    hroute, hresult, fun e he happlies => ?_⟩
  obtain ⟨p, hp, hpsync⟩ := happlies.synced
  have hlast := of_decide_eq_true (hsynced e he)
  rw [hp, Option.map_some, hpsync] at hlast
  exact absurd hlast (by decide)

end Example

end SecretsManager
