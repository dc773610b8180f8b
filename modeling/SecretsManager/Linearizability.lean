import SecretsManager.Library.Linearization
import SecretsManager.Secrets.SavedBack
import SecretsManager.Secrets.SecretVersions
import SecretsManager.VaultAnswers

/-!
# The server as a vault

Each operation acts on the vault once at most, in the one step in which its transaction commits. Hence every run,
with its locks, lists, hashes and retries, has the outcome of the same actions one after the other, and a
result tells whether there was one.
-/

namespace SecretsManager

open Js JsObject Interleaving

variable {R : Type} {restic : Restic R} {P : Platform} {timeouts : ResticTimeouts} {admits : Operation → Prop}

section Runs
variable {db : Db} {repository : R} {cfg : Config (World R) Cmd Cmd.Answer Failure Response Operation}

theorem actingOutline (P : Platform) (timeouts : ResticTimeouts) (restic : Restic R) (admits : Operation → Prop) :
    OverOutline (server P timeouts restic admits) (fun op => (sections P op).prod (requests op)) (.start, .start)
      (fun w => Inv w ∧ True) (fun t op x w => Knows restic t op x.1 w ∧ True) acting [] (fun _ => True)
      (fun _ _ _ _ => True) fun op r actions => op.Answers r actions where
  body op _ := meets_acting op
  expects {t op trace w c a w'} h actions := by
    cases c with
    | projectsGet id =>
        cases a with
        | error e => trivial
        | ok row =>
            intro p hp
            obtain ⟨-, hrow | ⟨m, hrow⟩⟩ := h
            · obtain rfl := Except.ok.inj hrow
              exact ((Tables.project?_eq_some w.db.valid).mp hp).2
            · cases hrow
    | secretsList projectId =>
        cases a with
        | error e => trivial
        | ok rows =>
            have hexec : Exec restic t w (.secretsList projectId) (.ok rows) w' := h
            exact fun s hs => (Tables.mem_rows.mp ((exec_listed hexec).mem_iff.mp hs)).2
    | fs f =>
        cases f with
        | remove =>
            cases a with
            | ok => trivial
            | error e =>
                obtain ⟨-, hremoved | ⟨hremove, -⟩⟩ := h
                · cases hremoved
                · exact hremove rfl
        | _ => trivial
    | _ => trivial
  spawn _ _ _ _ := trivial
  inv _ := trivial
  self _ := trivial
  other _ _ _ _ := trivial
  environment _ _ := ⟨trivial, fun _ _ _ _ => trivial⟩

/-- What a confirmation loads is what it was asked for. -/
theorem asks_of_confirms {op : Operation} {v : View} {tx : Transaction} {n : Nat} {action : Vault.Action}
    (hallows : AllowsTransaction P op v tx) (hconfirms : op.confirms ≠ none)
    (haction : op.action? tx n = some action) : op.Asks action := by
  cases tx with
  | secretsDataReplaceForProject projectId secrets state =>
      obtain rfl := Option.some.inj haction
      have htarget := hallows.target
      obtain ⟨sent, rows, hproject, -⟩ := hallows.compared
      cases op with
      | pull id snapshotId contentHash =>
          obtain ⟨rfl, -⟩ := Prod.mk.inj (Option.some.inj hproject)
          exact ⟨rfl, htarget⟩
      | restore id snapshotId contentHash =>
          obtain ⟨rfl, -⟩ := Prod.mk.inj (Option.some.inj hproject)
          exact ⟨rfl, htarget⟩
      | discard id contentHash =>
          obtain ⟨rfl, -⟩ := Prod.mk.inj (Option.some.inj hproject)
          exact rfl
      | _ => exact absurd rfl hconfirms
  | projectsDataAdd project =>
      have hrefreshes := hallows.1
      cases op <;> first | exact absurd rfl hconfirms | cases hrefreshes
  | projectsDataDeleteCascade projectId =>
      obtain rfl := hallows.2
      exact absurd rfl hconfirms
  | projectsDataUpdateSyncState id snapshotId time lastSync current => exact absurd hallows.pushes hconfirms
  | projectsDataUpdateCurrentContentHash id hash | projectsDataUpdateLastSyncContentHash id hash => cases haction
  | secretsDataAdd secret hash | secretsDataDelete id projectId hash => exact absurd hallows.1 hconfirms
  | secretsDataUpdate id projectId content date version hash => exact absurd hallows.edits hconfirms

/-- The outlines of the server, of the requests and of the actions together. -/
theorem vaultOutline (P : Platform) (timeouts : ResticTimeouts) (restic : Restic R) (admits : Operation → Prop) :
    Outline (server P timeouts restic admits) (fun op => ((sections P op).prod (requests op)).prod (acting op))
      ((.start, .start), []) (fun w => (Inv w ∧ True) ∧ True)
      (fun t op x w => (Knows restic t op x.1.1 w ∧ True) ∧ True)
      fun op r x => (Outcome P op r x.1.1 ∧ True) ∧ op.Answers r x.2 :=
  (savedOutline P timeouts restic admits).prod (actingOutline P timeouts restic admits)

/-- What the outlines say of an event. -/
abbrev Watched (P : Platform) (timeouts : ResticTimeouts) (restic : Restic R) (admits : Operation → Prop) :
    Nat → Operation → List (ServerEvent R) → ServerEvent R → Prop :=
  Happened (server P timeouts restic admits) (fun op => ((sections P op).prod (requests op)).prod (acting op))
    ((.start, .start), []) (fun w => (Inv w ∧ True) ∧ True) (fun t op x w => (Knows restic t op x.1.1 w ∧ True) ∧ True)

/-- The monitor has the actions of the program. -/
theorem acting_after (op : Operation) (trace : List (ServerEvent R)) :
    (acting op).after [] trace = trace.filterMap (point op) := by
  induction trace using List.reverseRecOn with
  | nil => rfl
  | append_singleton trace e ih =>
      rw [Monitor.after_append, ih, List.filterMap_append]
      obtain ⟨w, c, a, w'⟩ := e
      cases c with
      | transact tx =>
          cases a with
          | error e => exact (List.append_nil _).symm
          | ok n =>
              have hpoint : point op (⟨w, .transact tx, .ok n, w'⟩ : ServerEvent R) = op.action? tx n := rfl
              show trace.filterMap (point op) ++ (op.action? tx n).toList = _
              rw [List.filterMap_cons, hpoint]
              cases op.action? tx n <;> rfl
      | _ => exact (List.append_nil _).symm

section Happened
variable {t : Nat} {op : Operation} {earlier : List (ServerEvent R)} {e : ServerEvent R}

/-- What they say of an event that has committed. -/
theorem watched_committed (h : Watched P timeouts restic admits t op earlier e) {tx : Transaction} {n : Nat}
    (hcommitted : committed? e = some (tx, n)) :
    Knows restic t op (viewAfter earlier) e.before ∧ AllowsTransaction P op (viewAfter earlier) tx ∧
      ByRequest op (viewAfter earlier) tx ∧ tx.run e.before.db.toTables = (e.after.db.toTables, n) := by
  have hassert := h.assert
  have hallowed := h.allowed
  rw [Monitor.prod_after] at hassert hallowed
  have hhappened : Happened (server P timeouts restic admits) (fun op => (sections P op).prod (requests op))
      (.start, .start) (fun w => Inv w ∧ True) (fun t op x w => Knows restic t op x.1 w ∧ True) t op earlier e :=
    ⟨h.admits, h.inv.1, hassert.1, hallowed.1, h.exec⟩
  obtain ⟨hk, hallows, hrequest, -⟩ := committed_requests hhappened hcommitted
  obtain ⟨w, w', rfl⟩ := committed?_eq_some hcommitted
  have hexec : Exec restic t w (.transact tx) (.ok n) w' := h.exec
  exact ⟨hk, hallows, hrequest, (exec_committed hexec).1⟩

theorem linearizes_vault (P : Platform) (timeouts : ResticTimeouts) (restic : Restic R) (admits : Operation → Prop) :
    Linearizes (server P timeouts restic admits) (fun op => ((sections P op).prod (requests op)).prod (acting op))
      ((.start, .start), []) (fun w => (Inv w ∧ True) ∧ True)
      (fun t op x w => (Knows restic t op x.1.1 w ∧ True) ∧ True) Vault.Step (fun w => w.db.vault) point where
  action {t op earlier e action} h hpoint := by
    obtain ⟨⟨tx, n⟩, hcommitted, haction⟩ := Option.bind_eq_some_iff.mp hpoint
    obtain ⟨hk, hallows, hrequest, hrun⟩ := watched_committed h hcommitted
    exact step_of_action h.inv.1.1 hk hallows hrequest hrun haction
  nothing {t op earlier e} h hpoint := by
    cases hcommitted : committed? e with
    | none => rw [exec_db h.exec hcommitted]
    | some x =>
        obtain ⟨-, -, hrequest, hrun⟩ := watched_committed h hcommitted
        rw [point, hcommitted] at hpoint
        exact vault_of_no_action hrequest hrun hpoint
  environment _ henv := by
    obtain ⟨r, -, rfl⟩ := henv
    rfl

theorem asks_of_watched (h : Watched P timeouts restic admits t op earlier e) {action : Vault.Action}
    (hpoint : point op e = some action) : op.Asks action := by
  obtain ⟨⟨tx, n⟩, hcommitted, haction⟩ := Option.bind_eq_some_iff.mp hpoint
  by_cases hconfirms : op.confirms = none
  · have hallowed := h.allowed
    rw [Monitor.prod_after] at hallowed
    obtain ⟨w, w', rfl⟩ := committed?_eq_some hcommitted
    exact hallowed.2 tx rfl hconfirms n action haction
  · obtain ⟨-, hallows, -, -⟩ := watched_committed h hcommitted
    exact asks_of_confirms hallows hconfirms haction

end Happened

/-- The actions of the steps from `cfg` to `cfg'` in one order, which the vault can take one after the other. Each
was asked for by the request of its operation. -/
structure IsHistory (cfg cfg' : Config (World R) Cmd Cmd.Answer Failure Response Operation)
    (history : List (Nat × Vault.Action)) : Prop where
  linearized : Linearized Vault.Step (fun w : World R => w.db.vault) point cfg cfg' history
  asked : ∀ t action, (t, action) ∈ history → ∃ th, cfg'.threads[t]? = some th ∧ Operation.Asks th.req action

/-- What the outlines say of a configuration. -/
abbrev WatchedConfig (P : Platform) (timeouts : ResticTimeouts) (restic : Restic R) (admits : Operation → Prop) :
    Config (World R) Cmd Cmd.Answer Failure Response Operation → Prop :=
  ConfigGood (server P timeouts restic admits) (fun op => ((sections P op).prod (requests op)).prod (acting op))
    ((.start, .start), []) (fun w => (Inv w ∧ True) ∧ True) (fun t op x w => (Knows restic t op x.1.1 w ∧ True) ∧ True)
    fun op r x => (Outcome P op r x.1.1 ∧ True) ∧ op.Answers r x.2

theorem watched_reachable (h : (server P timeouts restic admits).Reachable (.initial db repository) cfg) :
    WatchedConfig P timeouts restic admits cfg :=
  (vaultOutline P timeouts restic admits).good ⟨⟨inv_initial db repository, trivial⟩, trivial⟩ h

theorem steps_history (hgood : WatchedConfig P timeouts restic admits cfg)
    {cfg' : Config (World R) Cmd Cmd.Answer Failure Response Operation}
    (hsteps : (server P timeouts restic admits).Steps cfg cfg') : ∃ history, IsHistory cfg cfg' history := by
  have hgood' := (vaultOutline P timeouts restic admits).steps hgood hsteps
  obtain ⟨history, hhistory⟩ :=
    (vaultOutline P timeouts restic admits).linearized (linearizes_vault P timeouts restic admits) hgood hsteps
  refine ⟨history, hhistory, fun t action hmem => ?_⟩
  obtain ⟨th, hth, e, he, hpoint⟩ := hhistory.mem hmem
  obtain ⟨earlier, later, hsplit⟩ := List.append_of_mem he
  exact ⟨th, hth, asks_of_watched ((hgood'.threads t th hth).past earlier e later hsplit) hpoint⟩

/-- The result of an operation tells about its actions. -/
theorem watched_answers (hgood : WatchedConfig P timeouts restic admits cfg) {t : Nat}
    {th : Thread (World R) Cmd Cmd.Answer Failure Response Operation} (hth : cfg.threads[t]? = some th)
    {r : Except Failure Response} (hresult : th.prog.result? = some r) :
    th.req.Answers r (cfg.actions point t) := by
  have hpost := (hgood.threads t th hth).meets.result hresult
  rw [Monitor.prod_after, acting_after] at hpost
  rw [Config.actions, hth]
  exact hpost.2

/-- **The server is linearizable.** However its operations interleave, their actions have one order in which the
vault can take them one after the other, each at the moment of its transaction. Each operation takes what its
request asks for at most once, and its response tells whether it did; and a longer run only adds to the order, so
what has ended comes before what has not begun. -/
theorem server_linearizable (h : (server P timeouts restic admits).Reachable (.initial db repository) cfg) :
    ∃ history, IsHistory ⟨.initial db repository, []⟩ cfg history ∧
      (∀ (t : Nat) (th : Thread (World R) Cmd Cmd.Answer Failure Response Operation) (r : Except Failure Response),
        cfg.threads[t]? = some th → th.prog.result? = some r → th.req.Answers r (actionsOf history t)) ∧
      ∀ cfg', (server P timeouts restic admits).Steps cfg cfg' →
        ∃ more, IsHistory cfg cfg' more ∧ IsHistory ⟨.initial db repository, []⟩ cfg' (history ++ more) := by
  have hgood := watched_reachable h
  have hgood₀ : WatchedConfig P timeouts restic admits ⟨.initial db repository, []⟩ := watched_reachable .refl
  obtain ⟨history, hhistory⟩ := steps_history hgood₀ h
  refine ⟨history, hhistory, fun t th r hth hresult => ?_, fun cfg' hsteps => ?_⟩
  · have hanswers := watched_answers hgood hth hresult
    rwa [hhistory.linearized.programs t] at hanswers
  · obtain ⟨more, hmore⟩ := steps_history hgood hsteps
    refine ⟨more, hmore, hhistory.linearized.trans hmore.linearized, fun t action hmem => ?_⟩
    rcases List.mem_append.mp hmem with hmem | hmem
    · obtain ⟨th, hth, hasks⟩ := hhistory.asked t action hmem
      obtain ⟨th', hth', hreq⟩ := System.steps_req hsteps hth
      exact ⟨th', hth', hreq ▸ hasks⟩
    · exact hmore.asked t action hmem

end Runs

section Example

/-- The update that was accepted is the one action of its history. -/
theorem server_linearizable_put :
    ∃ cfg history action, (server runPlatform exampleTimeouts Snapshots.restic fun _ => True).Reachable
        (.initial firstDb []) cfg ∧
      IsHistory ⟨.initial firstDb [], []⟩ cfg history ∧ actionsOf history 0 = [action] ∧ putData.Asks action := by
  obtain ⟨cfg, hplay, hends⟩ : ∃ cfg, playExample putMoves (.initial firstDb []) = some cfg ∧
      ends cfg = [(putData, some (.ok putResponse))] :=
    Option.map_eq_some_iff.mp rfl
  obtain ⟨th, hth, hop, hresult⟩ := thread_of_ends hends (t := 0) rfl
  have hreachable := playExample_reachable (fun _ _ => trivial) hplay
  obtain ⟨history, hhistory, hanswered, -⟩ := server_linearizable hreachable
  have hanswers := hanswered 0 th _ hth hresult
  rw [hop] at hanswers
  obtain ⟨-, action, hactions⟩ | ⟨hrefused, -⟩ := hanswers
  · have hmem : (0, action) ∈ history := mem_actionsOf.mp (hactions ▸ List.mem_singleton.mpr rfl)
    obtain ⟨th', hth', hasks⟩ := hhistory.asked 0 action hmem
    obtain rfl := Option.some.inj (hth'.symm.trans hth)
    exact ⟨cfg, history, action, hreachable, hhistory, hactions, hop ▸ hasks⟩
  · exact absurd (by rintro message code ⟨⟩) (hrefused putResponse rfl)

end Example

end SecretsManager
