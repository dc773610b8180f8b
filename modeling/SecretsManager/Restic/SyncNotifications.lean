import SecretsManager.Js.JsonParse
import SecretsManager.Restic.CompareAndSwap
import SecretsManager.VaultAnswers

/-!
# Notifications

A synchronization that succeeds is announced with its project and snapshot, and a push that meets a newer snapshot
as a conflict. Sending is not awaited and its failures are only logged, so a route gives its response with the
payloads that it handed to the client. What is announced is what was written: the run of a route records the
synchronization that it announces, and no other.
-/

namespace SecretsManager

open Js Interleaving Delimited

/-! ## Events and payloads -/

inductive SyncNotificationEvent where
  | push
  | pull
  | restore
  | discard
  | pushConflict
  deriving DecidableEq

namespace SyncNotificationEvent

def name : SyncNotificationEvent → JsString
  | push => js "push"
  | pull => js "pull"
  | restore => js "restore"
  | discard => js "discard"
  | pushConflict => js "push_conflict"

/-- `EVENT_TITLES` -/
def title : SyncNotificationEvent → JsString
  | push => js "Secrets pushed"
  | pull => js "Secrets pulled"
  | restore => js "Snapshot restored"
  | discard => js "Local changes discarded"
  | pushConflict => js "Push conflict"

/-- `EVENT_BODIES` -/
def body (actor : JsString) : SyncNotificationEvent → JsString
  | push => js "Project secrets pushed to the restic repository by " ++ actor ++ js "."
  | pull => js "Project secrets pulled from the restic repository by " ++ actor ++ js "."
  | restore => js "Snapshot restored as project secrets by " ++ actor ++ js "."
  | discard => js "Local changes discarded (last synchronized snapshot restored) by " ++ actor ++ js "."
  | pushConflict => js "Push rejected: the repository holds a more recent snapshot (pull first)."

end SyncNotificationEvent

structure NotificationPayload where
  title : JsString
  body : JsString
  source : JsString
  severity : JsString
  data : JsString

/-- The arguments of `SyncNotificationsNotify`. -/
structure SyncNotification where
  event : SyncNotificationEvent
  project : Project
  actor : JsString
  snapshotId : Option JsString

/-- A string or `null` in JSON. -/
def nullableText : Option JsString → JsString
  | some s => quote s
  | none => js "null"

def nullableValue : Option JsString → JsValue
  | some s => .str s
  | none => .null

def nullablePropertyText (p : JsString × Option JsString) : JsString := quote p.1 ++ (js ":" ++ nullableText p.2)

/-- `JSON.stringify` of an object literal with these properties. -/
def stringifyNullable (properties : List (JsString × Option JsString)) : JsString :=
  js "\x7b" ++ sepBy (js ",") (unit '\x7d') nullablePropertyText properties

namespace SyncNotification

/-- The object in the data of the payload. -/
def properties (notification : SyncNotification) : List (JsString × Option JsString) :=
  [(js "event", some notification.event.name), (js "projectId", some notification.project.id),
    (js "projectName", some notification.project.name), (js "snapshotId", notification.snapshotId),
    (js "actor", some notification.actor)]

def payload (notification : SyncNotification) : NotificationPayload where
  title := notification.event.title ++ js ": " ++ notification.project.name
  body := notification.event.body notification.actor
  source := js "restic-secrets-manager"
  severity := if notification.event = .pushConflict then js "warning" else js "info"
  data := stringifyNullable notification.properties

end SyncNotification

/-- What is sent, by a server that has a notifications client or has none. -/
def syncNotificationsNotify (client : Bool) (notification : SyncNotification) : List NotificationPayload :=
  if client then [notification.payload] else []

/-! ## What the receiver reads -/

section Received
variable (number : JsString → JsNumber)

theorem readValue_nullable (n : Nat) (v : Option JsString) (x : JsString) :
    readValue number (n + 1) (nullableText v ++ x) = some (.scalar (nullableValue v), x) := by
  have hnone : ([] : JsString).all isJsonSpace = true := rfl
  cases v with
  | some s => exact readValue_quote number n hnone s x
  | none =>
      have hnext : nextUnit (js "null" ++ x) = some (unit 'n', js "ull" ++ x) :=
        nextUnit_space [] rfl (by decide) _
      have hword : startsWith (unit 'n' :: (js "ull" ++ x)) (js "null") = true := by
        rw [startsWith_iff]
        exact ⟨x, rfl⟩
      rw [nullableText, readValue, hnext, Option.bind_some, if_neg (show unit 'n' ≠ unit '"' by decide),
        if_neg (show unit 'n' ≠ unit '\x7b' by decide), if_neg (show unit 'n' ≠ unit '[' by decide),
        if_neg (show unit 'n' ≠ unit 't' by decide), if_neg (show unit 'n' ≠ unit 'f' by decide), if_pos rfl,
        readLiteral, if_pos hword]
      rfl

/-- The object that has the properties. -/
def nullableObject (properties : List (JsString × Option JsString)) : JsObject JsValue :=
  properties.foldl (fun o p => o.define p.1 (nullableValue p.2)) .empty

theorem readMembers_nullable {l : List (JsString × Option JsString)} (hl : l ≠ []) {n : Nat} (hn : l.length < n)
    (o : JsObject JsValue) :
    readMembers number n o (sepBy (js ",") (unit '\x7d') nullablePropertyText l) =
      some (l.foldl (fun o p => o.define p.1 (nullableValue p.2)) o, []) := by
  induction l generalizing n o with
  | nil => exact absurd rfl hl
  | cons p l ih =>
      rw [List.length_cons] at hn
      obtain ⟨n, rfl⟩ : ∃ k, n = k + 2 := ⟨n - 2, by omega⟩
      -- the property, with the comma or the bracket behind it
      have hnone : ([] : JsString).all isJsonSpace = true := rfl
      have hmember : ∀ x, readMembers number (n + 2) o (nullablePropertyText p ++ x) = (nextUnit x).bind fun r =>
          if r.1 = unit ',' then readMembers number (n + 1) (o.define p.1 (nullableValue p.2)) r.2
          else if r.1 = unit '\x7d' then some (o.define p.1 (nullableValue p.2), r.2)
          else none := by
        intro x
        have hread := readMembers_member number n o hnone p.1 (readValue_nullable number n p.2 x)
        rw [List.nil_append] at hread
        rw [nullablePropertyText, List.append_assoc, List.append_assoc, hread]
        rfl
      cases l with
      | nil =>
          have hnext : nextUnit [unit '\x7d'] = some (unit '\x7d', []) := nextUnit_space [] rfl (by decide) []
          rw [sepBy_singleton, hmember, hnext, Option.bind_some, if_neg (show unit '\x7d' ≠ unit ',' by decide),
            if_pos rfl]
          rfl
      | cons q l =>
          have hnext : ∀ y, nextUnit (js "," ++ y) = some (unit ',', y) := fun y => nextUnit_space [] rfl (by decide) y
          rw [sepBy_cons_cons, hmember, hnext, Option.bind_some, if_pos rfl]
          exact ih (List.cons_ne_nil _ _) (by omega) _

/-- The receiver of a payload parses the object that was sent. -/
theorem jsonParse_stringifyNullable (message : JsString → JsString) {l : List (JsString × Option JsString)}
    (hl : l ≠ []) : jsonParse number message (stringifyNullable l) = .ok (.object (nullableObject l)) := by
  have hfirst : expectUnit (unit '\x7d') (sepBy (js ",") (unit '\x7d') nullablePropertyText l) = none := by
    obtain ⟨y, hy⟩ : ∃ y, sepBy (js ",") (unit '\x7d') nullablePropertyText l = unit '"' :: y := by
      cases l with
      | nil => exact absurd rfl hl
      | cons p l =>
          cases l with
          | nil => exact ⟨_, by rw [sepBy_singleton]; rfl⟩
          | cons q l => exact ⟨_, by rw [sepBy_cons_cons]; rfl⟩
    rw [hy]
    exact expectUnit_ne (nextUnit_space [] rfl (by decide) y) (by decide)
  have hnone : ([] : JsString).all isJsonSpace = true := rfl
  exact jsonParse_members number message hnone hfirst fun n hn => readMembers_nullable number hl hn .empty

theorem get?_nullableObject {l : List (JsString × Option JsString)} (hl : SortedBy.Distinct Prod.fst l)
    {p : JsString × Option JsString} (hp : p ∈ l) : (nullableObject l).get? p.1 = some (nullableValue p.2) := by
  have hdistinct : SortedBy.Distinct Prod.fst (l.map fun p => (p.1, nullableValue p.2)) := by
    rw [SortedBy.Distinct, List.map_map]
    exact hl
  have hfold : nullableObject l = JsObject.fromEntries (l.map fun p => (p.1, nullableValue p.2)) := by
    rw [JsObject.fromEntries, List.foldl_map]
    rfl
  rw [hfold, JsObject.get?_eq_some_iff, JsObject.mem_entries_fromEntries hdistinct]
  exact List.mem_map_of_mem hp

/-- **The receiver reads what was sent**: each property of the notification, as a string or `null`. -/
theorem SyncNotification.data_parsed (message : JsString → JsString) (notification : SyncNotification) :
    ∃ o, jsonParse number message notification.payload.data = .ok (.object o) ∧
      ∀ p ∈ notification.properties, o.get? p.1 = some (nullableValue p.2) := by
  have hdistinct : SortedBy.Distinct Prod.fst notification.properties := by
    show [js "event", js "projectId", js "projectName", js "snapshotId", js "actor"].Nodup
    decide
  exact ⟨_, jsonParse_stringifyNullable number message (List.cons_ne_nil _ _), fun p hp =>
    get?_nullableObject hdistinct hp⟩

end Received

/-! ## The routes that notify -/

/-- A response, and what was sent before it. -/
structure Notified where
  response : Response
  sent : List NotificationPayload

def Response.unannounced (response : Response) : Notified := ⟨response, []⟩

/-- The name of the user, as the notifications give it. -/
def actorName (userName : Option JsString) : JsString := userName.getD (js "unknown")

section Routes
variable (P : Platform) (timeouts : ResticTimeouts) (client : Bool)

/-- What the synchronization routes have in common, with what they announce of a result. -/
def notifyingRoute {α : Type} (id : JsString) (task : Project → Op α) (body : α → ResponseBody)
    (announced : Project → α → SyncNotification) (failed : Project → Failure → List NotificationPayload) : Op Notified := do
  match ← projectsDataGet id with
  | none => pure projectNotFound.unannounced
  | some project =>
      Prog.tryCatch
        (do
          let result ← task project
          pure ⟨⟨200, body result⟩, syncNotificationsNotify client (announced project result)⟩)
        fun e => pure ⟨sendSyncError e, failed project e⟩

/-- `POST /:id/pull` -/
def pullNotifying (id : JsString) (snapshotId contentHash : Option JsValue) (userName : Option JsString) :
    Op Notified := do
  match ← projectsDataGet id with
  | none => pure projectNotFound.unannounced
  | some project =>
      if (trim (stringOf (snapshotId.getD .null))).length = 0 then
        pure (Response.error 400
          (js "snapshotId is required: preview the pull and send the previewed snapshot id")).unannounced
      else
        Prog.tryCatch
          (do
            let result ← resticSyncPull P timeouts project (stringOf (snapshotId.getD .null))
              (readContentHash contentHash)
            pure ⟨⟨200, .restored result⟩, syncNotificationsNotify client
              ⟨.pull, project, actorName userName, some result.snapshotId⟩⟩)
          fun e => pure ⟨sendSyncError e, []⟩

/-- A push that the repository was ahead of is announced as well. -/
def pushConflicted (userName : Option JsString) (project : Project) : Failure → List NotificationPayload
  | .sync e =>
      if e.statusCode = 409 then syncNotificationsNotify client ⟨.pushConflict, project, actorName userName, none⟩
      else []
  | _ => []

/-- `POST /:id/push` -/
def pushNotifying (id : JsString) (userName : Option JsString) : Op Notified :=
  notifyingRoute client id (fun project => resticSyncPush P timeouts project userName) .pushed
    (fun project result => ⟨.push, project, actorName userName, some result.snapshotId⟩)
    (pushConflicted client userName)

/-- `POST /:id/snapshots/:snapshotId/restore` -/
def restoreNotifying (id snapshotId : JsString) (contentHash : Option JsValue) (userName : Option JsString) :
    Op Notified :=
  notifyingRoute client id
    (fun project => resticSyncRestoreSnapshot P timeouts project snapshotId (readContentHash contentHash)) .restored
    (fun project _ => ⟨.restore, project, actorName userName, some snapshotId⟩) fun _ _ => []

/-- `POST /:id/discard` -/
def discardNotifying (id : JsString) (contentHash : Option JsValue) (userName : Option JsString) : Op Notified :=
  notifyingRoute client id
    (fun project => resticSyncDiscardLocalChanges P timeouts project (readContentHash contentHash)) .restored
    (fun project result => ⟨.discard, project, actorName userName, some result.snapshotId⟩) fun _ _ => []

/-- A request with the name of its user; a push carries the name itself. -/
structure NotifyingRequest where
  operation : Operation
  userName : Option JsString

def serveNotifying (request : NotifyingRequest) : Op Notified :=
  match request.operation with
  | .push id pushedBy => pushNotifying P timeouts client id pushedBy
  | .pull id snapshotId contentHash => pullNotifying P timeouts client id snapshotId contentHash request.userName
  | .restore id snapshotId contentHash =>
      restoreNotifying P timeouts client id snapshotId contentHash request.userName
  | .discard id contentHash => discardNotifying P timeouts client id contentHash request.userName
  | op => do
      let response ← serve P timeouts op
      pure response.unannounced

/-- The programs of the server, with what they announce. -/
def notifyingServer {R : Type} (restic : Restic R) (admits : NotifyingRequest → Prop) :
    System (World R) Cmd Cmd.Answer Failure Notified NotifyingRequest where
  admits := admits
  body := serveNotifying P timeouts client
  exec := fun t _ _ => Exec restic t
  environment := Outside restic

end Routes

section Responses
variable {P : Platform} {timeouts : ResticTimeouts} {client : Bool}

theorem response_notifyingRoute {α : Type} {id : JsString} {task : Project → Op α} {body : α → ResponseBody}
    {announced : Project → α → SyncNotification} {failed : Project → Failure → List NotificationPayload} :
    (notifyingRoute client id task body announced failed >>= fun notified => pure notified.response) =
      syncRoute id task body := by
  rw [notifyingRoute, syncRoute, Prog.bind_bind]
  refine congrArg (projectsDataGet id >>= ·) (funext fun row => ?_)
  cases row with
  | none => rfl
  | some project =>
      show _ >>= _ = Prog.tryCatch _ _
      rw [Prog.tryCatch_bind_pure, Prog.bind_bind]
      rfl

theorem response_unannounced (task : Op Response) :
    (task >>= (fun response => pure response.unannounced) >>= fun notified => pure notified.response : Op Response) =
      task := by
  rw [Prog.bind_bind]
  exact Prog.bind_ret task

/-- **The notifications change no response**: without them the programs are those of the server. -/
theorem response_serveNotifying (request : NotifyingRequest) :
    (serveNotifying P timeouts client request >>= fun notified => pure notified.response) =
      serve P timeouts request.operation := by
  obtain ⟨op, userName⟩ := request
  cases op with
  | push id pushedBy => exact response_notifyingRoute
  | restore id snapshotId contentHash => exact response_notifyingRoute
  | discard id contentHash => exact response_notifyingRoute
  | pull id snapshotId contentHash =>
      show pullNotifying P timeouts client id snapshotId contentHash userName >>= _ =
        pull P timeouts id snapshotId contentHash
      rw [pullNotifying, pull, Prog.bind_bind]
      refine congrArg (projectsDataGet id >>= ·) (funext fun row => ?_)
      cases row with
      | none => rfl
      | some project =>
          dsimp only
          split_ifs
          · rfl
          · rw [Prog.tryCatch_bind_pure, Prog.bind_bind]
            rfl
  | _ => exact response_unannounced _

end Responses

/-! ## Recorded synchronizations -/

/-- The project and the snapshot that a transaction records as synchronized. -/
def Transaction.recorded? (tx : Transaction) : Option (JsString × JsString) :=
  tx.syncs.map fun sync => (sync.1, sync.2.1)

/-- Follows the synchronizations that an operation records. -/
def recording : Monitor Cmd Cmd.Answer (List (JsString × JsString)) where
  step syncs c a :=
    match c, a with
    | .transact tx, .ok _ => syncs ++ tx.recorded?.toList
    | _, _ => syncs
  allows _ _ := True
  expects _ c a :=
    match c, a with
    | .projectsGet id, .ok row => ∀ p ∈ row, p.id = id
    | .fs .remove, .error _ => False
    | _, _ => True

/-- The synchronizations that a run has committed. -/
def committedSyncs {R : Type} (trace : List (ServerEvent R)) : List (JsString × JsString) :=
  trace.filterMap fun e => (committed? e).bind fun c => c.1.recorded?

theorem recording_after {R : Type} (trace : List (ServerEvent R)) : recording.after [] trace = committedSyncs trace := by
  induction trace using List.reverseRecOn with
  | nil => rfl
  | append_singleton trace e ih =>
      rw [Monitor.after_append, ih, committedSyncs, committedSyncs, List.filterMap_append]
      obtain ⟨w, c, a, w'⟩ := e
      cases c with
      | transact tx =>
          cases a with
          | error e => exact (List.append_nil _).symm
          | ok n =>
              have hcommitted : (committed? (⟨w, .transact tx, .ok n, w'⟩ : ServerEvent R)).bind
                  (fun c => c.1.recorded?) = tx.recorded? := rfl
              rw [List.filterMap_cons, hcommitted]
              show _ ++ tx.recorded?.toList = _
              cases tx.recorded? <;> rfl
      | _ => exact (List.append_nil _).symm

/-- A result with the one synchronization that was recorded for it, or an error with none. -/
def SyncedOnce {α : Type} (S : α → JsString × JsString → Prop) (r : Except Failure α)
    (syncs : List (JsString × JsString)) : Prop :=
  match r with
  | .ok a => ∃ sync, syncs = [sync] ∧ S a sync
  | .error _ => syncs = []

/-- The task records one synchronization when it has a result, and otherwise none. -/
def SyncsOnce {α : Type} (S : α → JsString × JsString → Prop) (task : Op α) : Prop :=
  task.Meets recording [] (SyncedOnce S)

section Tasks
variable {α β : Type} {S : α → JsString × JsString → Prop} {T : β → JsString × JsString → Prop} {task : Op α}
  {f : α → Op β}

theorem recording_traceless {c : Cmd} {syncs : List (JsString × JsString)} (hc : Traceless c) :
    recording.allows syncs c ∧ ∀ a, recording.step syncs c a = syncs := by
  refine ⟨trivial, fun a => ?_⟩
  cases c with
  | transact tx => exact hc.elim
  | _ => rfl

theorem syncsOnce_fail (e : Failure) : SyncsOnce S (.fail e : Op α) := rfl

theorem syncsOnce_ite {c : Prop} [Decidable c] {yes no : Op α} (hyes : c → SyncsOnce S yes) (hno : ¬ c → SyncsOnce S no) :
    SyncsOnce S (if c then yes else no) := meets_ite hyes hno

theorem SyncsOnce.mono {S' : α → JsString × JsString → Prop} (h : SyncsOnce S task) (hS : ∀ a sync, S a sync → S' a sync) :
    SyncsOnce S' task := by
  refine Prog.Meets.mono h fun r syncs hr => ?_
  cases r with
  | error e => exact hr
  | ok a =>
      obtain ⟨sync, hsyncs, ha⟩ := hr
      exact ⟨sync, hsyncs, hS a sync ha⟩

/-- Nothing is recorded before. -/
theorem SyncsOnce.after (h : task.Only Traceless) (hf : ∀ a, SyncsOnce T (f a)) : SyncsOnce T (task >>= f) := by
  rw [SyncsOnce, meets_bind]
  refine h.meets (fun _ hc => recording_traceless hc) fun r => ?_
  cases r with
  | error e => exact rfl
  | ok a => exact hf a

theorem SyncsOnce.map (h : SyncsOnce S task) (g : α → β) (hT : ∀ a sync, S a sync → T (g a) sync) :
    SyncsOnce T (task >>= fun a => pure (g a)) := by
  rw [SyncsOnce, meets_bind]
  refine Prog.Meets.mono h fun r syncs hr => ?_
  cases r with
  | error e => exact hr
  | ok a =>
      obtain ⟨sync, hsyncs, ha⟩ := hr
      exact ⟨sync, hsyncs, hT a sync ha⟩

theorem syncsOnce_transact {tx : Transaction} {sync : JsString × JsString} {b : β} (htx : tx.recorded? = some sync)
    (hT : T b sync) : SyncsOnce T (Op.transact tx >>= fun _ => pure b) := by
  rw [SyncsOnce, meets_bind, Op.transact, meets_bind, meets_lift]
  refine ⟨trivial, fun a _ => ?_⟩
  rw [then_ok, meets_ofExcept]
  cases a with
  | error e => exact rfl
  | ok n =>
      refine ⟨sync, ?_, hT⟩
      show [] ++ tx.recorded?.toList = [sync]
      rw [htx]
      rfl

theorem SyncsOnce.withLock {name : JsString} (h : SyncsOnce S task) : SyncsOnce S (dbUtilsWithLock name task) := by
  rw [dbUtilsWithLock]
  refine .after (only_lift.mpr trivial) fun held => .after only_ofExcept fun _ => ?_
  rw [SyncsOnce, meets_tryFinally]
  refine Prog.Meets.mono h fun r syncs hr => meets_lift.mpr ⟨trivial, fun _ _ => ?_⟩
  rw [then_ok, meets_ofExcept]
  exact hr

/-- The removal of the working directory succeeds. -/
theorem SyncsOnce.withWorkDir (h : SyncsOnce S task) : SyncsOnce S (withWorkDir task) := by
  have htask : SyncsOnce S (Op.fs .ensurePrivateDir >>= fun _ => task) := .after (only_fs trivial) fun _ => h
  rw [SecretsManager.withWorkDir, SyncsOnce, meets_bind, Op.fs, meets_bind, meets_lift]
  refine ⟨trivial, fun a _ => ?_⟩
  rw [then_ok, meets_ofExcept]
  cases a with
  | error e => exact rfl
  | ok =>
      rw [then_ok, meets_tryFinally]
      refine Prog.Meets.mono htask fun r syncs hr => meets_bind.mpr (meets_lift.mpr ⟨trivial, fun removed hremoved => ?_⟩)
      rw [then_ok, meets_ofExcept]
      cases removed with
      | error e => exact hremoved.elim
      | ok =>
          rw [then_ok, meets_ofExcept]
          exact hr

theorem syncsOnce_rereadProject {project : Project} {f : Project → Op β}
    (hf : ∀ fresh, fresh.id = project.id → SyncsOnce T (f fresh)) : SyncsOnce T (rereadProject project >>= f) := by
  rw [SyncsOnce, meets_bind, rereadProject, meets_bind, projectsDataGet, meets_bind, meets_lift]
  refine ⟨trivial, fun a ha => ?_⟩
  rw [then_ok, meets_ofExcept]
  cases a with
  | error e => exact rfl
  | ok row =>
      refine hf _ ?_
      cases row with
      | none => rfl
      | some fresh => exact ha fresh rfl

end Tasks

section Synchronizations
variable {P : Platform} {timeouts : ResticTimeouts} {client : ResticClient}

theorem syncsOnce_pushSecrets {pushedBy : Option JsString} :
    SyncsOnce (fun result sync => sync = (client.project.id, result.snapshotId)) (pushSecrets P client pushedBy) := by
  refine .after (traceless_secretsList _) fun secrets => ?_
  refine .after (Prog.Only.foldlM (only_exportSecret fun _ => trivial) _ _) fun dir => ?_
  refine .after traceless_prepareRepository fun snapshots => .after only_checkNoConflict fun _ => ?_
  refine .after (only_backup trivial) fun createdId => .after traceless_resolveCreatedSnapshot fun created => ?_
  have hsection : SyncsOnce (fun _ sync => sync = (client.project.id, created.id)) (finalizePushSection P client.project.id
      client.project.lastSyncSnapshotId (rowsHash P secrets) created) := by
    refine .after (traceless_projectsDataGet _) fun row => ?_
    cases row with
    | none => exact syncsOnce_fail _
    | some fresh =>
        refine syncsOnce_ite (fun _ => syncsOnce_fail _) fun _ => ?_
        exact .after (traceless_secretsList _) fun freshSecrets => syncsOnce_transact rfl rfl
  exact hsection.withLock.map _ fun _ _ h => h

theorem syncsOnce_restoreAndApply {expected : JsString} {snapshot : ResticSnapshot} :
    SyncsOnce (fun result sync => sync = (client.project.id, snapshot.id) ∧ result.snapshotId = snapshot.id)
      (restoreAndApply P client expected snapshot) := by
  refine .after (only_restore trivial) fun listing => .after (only_fs trivial) fun _ => ?_
  refine .after (traceless_readSnapshotSecretsForProject _ _) fun secrets => ?_
  have hsection : SyncsOnce (fun _ sync => sync = (client.project.id, snapshot.id))
      (applySnapshotSection P client.project.id expected secrets snapshot.id snapshot.time) := by
    refine .after (traceless_projectsDataGet _) fun row => ?_
    cases row with
    | none => exact syncsOnce_fail _
    | some project =>
        refine .after (traceless_secretsList _) fun current => syncsOnce_ite (fun _ => syncsOnce_fail _) fun _ => ?_
        exact syncsOnce_transact rfl rfl
  exact hsection.withLock.map _ fun _ _ h => ⟨h, rfl⟩

theorem syncsOnce_restoreSnapshotUnlocked {project : Project} {snapshotId : JsString} {sent : Option JsString} :
    SyncsOnce (fun result sync => sync = (project.id, snapshotId) ∧ result.snapshotId = snapshotId)
      (resticSyncRestoreSnapshotUnlocked P timeouts project snapshotId sent) := by
  refine syncsOnce_rereadProject fun fresh hfresh => ?_
  refine .after (traceless_resolveExpectedContentHash _ _) fun expected => ?_
  refine SyncsOnce.withWorkDir (.after traceless_snapshots fun snapshots => ?_)
  split
  · exact syncsOnce_fail _
  · rename_i target htarget
    have hid : target.id = snapshotId := by simpa using List.find?_some htarget
    rw [← hid, ← hfresh]
    exact syncsOnce_restoreAndApply

theorem syncsOnce_pullUnlocked {project : Project} {snapshotId : JsString} {sent : Option JsString} :
    SyncsOnce (fun result sync => sync = (project.id, result.snapshotId))
      (resticSyncPullUnlocked P timeouts project snapshotId sent) := by
  refine syncsOnce_ite (fun _ => syncsOnce_fail _) fun _ => syncsOnce_rereadProject fun fresh hfresh => ?_
  refine .after (traceless_resolveExpectedContentHash _ _) fun expected => ?_
  refine SyncsOnce.withWorkDir (.after traceless_snapshots fun snapshots => ?_)
  split
  · exact syncsOnce_fail _
  · refine syncsOnce_ite (fun _ => syncsOnce_fail _) fun _ => syncsOnce_restoreAndApply.mono fun result sync h => ?_
    rw [h.1, h.2, hfresh]

theorem syncsOnce_discardUnlocked {project : Project} {sent : Option JsString} :
    SyncsOnce (fun result sync => sync = (project.id, result.snapshotId))
      (resticSyncDiscardLocalChangesUnlocked P timeouts project sent) := by
  refine syncsOnce_rereadProject fun fresh hfresh => syncsOnce_ite (fun _ => syncsOnce_fail _) fun _ => ?_
  refine syncsOnce_restoreSnapshotUnlocked.mono fun result sync h => ?_
  rw [h.1, h.2, hfresh]

end Synchronizations

/-! ## Announcements -/

/-- The synchronization that is asked for, with its project. -/
def Operation.syncEvent : Operation → Option (SyncNotificationEvent × JsString)
  | .push id _ => some (.push, id)
  | .pull id _ _ => some (.pull, id)
  | .restore id _ _ => some (.restore, id)
  | .discard id _ => some (.discard, id)
  | _ => none

def NotifyingRequest.actor (request : NotifyingRequest) : JsString :=
  match request.operation with
  | .push _ pushedBy => actorName pushedBy
  | _ => actorName request.userName

/-- What is announced is what was done: the one synchronization that was recorded, for an accepted request, and a
conflict for a push that was answered with one. -/
structure Truthful (request : NotifyingRequest) (response : Response) (notifications : List SyncNotification)
    (syncs : List (JsString × JsString)) : Prop where
  once : notifications.length ≤ 1
  synced : (notifications.filter fun n => n.event ≠ .pushConflict).map (fun n => (n.project.id, n.snapshotId)) =
    syncs.map fun sync => (sync.1, some sync.2)
  accepted : syncs ≠ [] ↔ request.operation.syncEvent.isSome ∧ response.Accepts
  conflict : (∃ n ∈ notifications, n.event = .pushConflict) ↔
    response.status = 409 ∧ ∃ id, request.operation.syncEvent = some (.push, id)
  asked : ∀ n ∈ notifications, n.actor = request.actor ∧
    ∃ event, request.operation.syncEvent = some (event, n.project.id) ∧ (n.event = event ∨ n.event = .pushConflict)

/-- What a request ends with: truthful announcements, or an error and nothing recorded. -/
def NotifyingRequest.Announces (client : Bool) (request : NotifyingRequest) (r : Except Failure Notified)
    (syncs : List (JsString × JsString)) : Prop :=
  match r with
  | .ok notified => ∃ notifications : List SyncNotification,
      notified.sent = notifications.flatMap (syncNotificationsNotify client) ∧
        Truthful request notified.response notifications syncs
  | .error _ => syncs = []

section Announcements
variable {P : Platform} {timeouts : ResticTimeouts} {client : Bool} {request : NotifyingRequest} {project : Project}
  {event : SyncNotificationEvent} {response : Response}

theorem truthful_synced {body : ResponseBody} {snapshotId : JsString}
    (hevent : request.operation.syncEvent = some (event, project.id)) (hne : event ≠ .pushConflict)
    (hbody : ∀ message code, body ≠ .error message code) :
    Truthful request ⟨200, body⟩ [⟨event, project, request.actor, some snapshotId⟩] [(project.id, snapshotId)] where
  once := le_rfl
  synced := by simp [hne]
  accepted := iff_of_true (List.cons_ne_nil _ _) ⟨by rw [hevent]; rfl, hbody⟩
  conflict := iff_of_false (by simpa using hne) fun h => absurd h.1 (show (200 : Nat) ≠ 409 by decide)
  asked n hn := by
    rw [List.mem_singleton.mp hn]
    exact ⟨rfl, event, hevent, Or.inl rfl⟩

/-- A refusal that is no conflict of a push. -/
theorem truthful_refused (haccepts : request.operation.syncEvent.isSome → ¬ response.Accepts)
    (hconflict : response.status = 409 → ∀ id, request.operation.syncEvent ≠ some (.push, id)) :
    Truthful request response [] [] where
  once := Nat.zero_le 1
  synced := rfl
  accepted := iff_of_false (fun h => h rfl) fun h => haccepts h.1 h.2
  conflict := iff_of_false (by simp) fun ⟨hstatus, id, hid⟩ => hconflict hstatus id hid
  asked n hn := absurd hn List.not_mem_nil

theorem truthful_conflict (hevent : request.operation.syncEvent = some (.push, project.id))
    (hstatus : response.status = 409) (haccepts : ¬ response.Accepts) :
    Truthful request response [⟨.pushConflict, project, request.actor, none⟩] [] where
  once := le_rfl
  synced := rfl
  accepted := iff_of_false (fun h => h rfl) fun h => haccepts h.2
  conflict := iff_of_true ⟨_, List.mem_singleton.mpr rfl, rfl⟩ ⟨hstatus, _, hevent⟩
  asked n hn := by
    rw [List.mem_singleton.mp hn]
    exact ⟨rfl, .push, hevent, Or.inr rfl⟩

theorem announces_refused (haccepts : ¬ response.Accepts)
    (hconflict : response.status = 409 → ∀ id, request.operation.syncEvent ≠ some (.push, id)) :
    request.Announces client (.ok response.unannounced) [] :=
  ⟨[], rfl, truthful_refused (fun _ => haccepts) hconflict⟩

theorem announces_notFound : request.Announces client (.ok projectNotFound.unannounced) [] :=
  announces_refused (not_accepts rfl) fun h => absurd h (show (404 : Nat) ≠ 409 by decide)

/-- The failures of a synchronization other than a push are not announced. -/
theorem announces_failed (hpush : ∀ id, request.operation.syncEvent ≠ some (.push, id)) (e : Failure) :
    request.Announces client (.ok ⟨sendSyncError e, []⟩) [] :=
  announces_refused (not_accepts_sendSyncError e) fun _ => hpush

theorem announces_pushConflicted {userName : Option JsString} (hactor : request.actor = actorName userName)
    (hevent : request.operation.syncEvent = some (.push, project.id)) (e : Failure) :
    request.Announces client (.ok ⟨sendSyncError e, pushConflicted client userName project e⟩) [] := by
  have hsilent : (sendSyncError e).status ≠ 409 → request.Announces client (.ok ⟨sendSyncError e, []⟩) [] := fun hne =>
    announces_refused (not_accepts_sendSyncError e) fun h => absurd h hne
  cases e with
  | sync e =>
      show request.Announces client (.ok ⟨_, if e.statusCode = 409 then syncNotificationsNotify client
        ⟨.pushConflict, project, actorName userName, none⟩ else []⟩) []
      split_ifs with hstatus
      · refine ⟨[⟨.pushConflict, project, request.actor, none⟩], ?_,
          truthful_conflict hevent hstatus (not_accepts_sendSyncError _)⟩
        rw [hactor, List.flatMap_singleton]
      · exact hsilent hstatus
  | _ => exact hsilent (show (500 : Nat) ≠ 409 by decide)

/-- The part of a route after the project was found. -/
theorem announces_synchronization {α : Type} (request : NotifyingRequest) {task : Op α} {body : α → ResponseBody} {snapshotOf : α → JsString}
    {failed : Failure → List NotificationPayload} (hevent : request.operation.syncEvent = some (event, project.id))
    (hne : event ≠ .pushConflict) (hbody : ∀ a message code, body a ≠ .error message code)
    (htask : SyncsOnce (fun a sync => sync = (project.id, snapshotOf a)) task)
    (hfailed : ∀ e, request.Announces client (.ok ⟨sendSyncError e, failed e⟩) []) :
    (Prog.tryCatch
      (do
        let result ← task
        pure ⟨⟨200, body result⟩,
          syncNotificationsNotify client ⟨event, project, request.actor, some (snapshotOf result)⟩⟩)
      fun e => pure ⟨sendSyncError e, failed e⟩ : Op Notified).Meets recording [] (request.Announces client) := by
  rw [meets_tryCatch, meets_bind]
  refine Prog.Meets.mono htask fun r syncs hr => ?_
  cases r with
  | error e =>
      obtain rfl : syncs = [] := hr
      exact hfailed e
  | ok a =>
      obtain ⟨sync, rfl, rfl⟩ := hr
      exact ⟨[_], (List.flatMap_singleton _ _).symm, truthful_synced hevent hne (hbody a)⟩

/-- The project that is found is the one asked for. -/
theorem announces_projectsDataGet (request : NotifyingRequest) {id : JsString} {f : Option Project → Op Notified}
    (hnone : (f none).Meets recording [] (request.Announces client))
    (hsome : ∀ project : Project, project.id = id → (f (some project)).Meets recording [] (request.Announces client)) :
    (projectsDataGet id >>= f).Meets recording [] (request.Announces client) := by
  rw [meets_bind, projectsDataGet, meets_bind, meets_lift]
  refine ⟨trivial, fun a ha => ?_⟩
  rw [then_ok, meets_ofExcept]
  cases a with
  | error e => exact rfl
  | ok row =>
      cases row with
      | none => exact hnone
      | some project => exact hsome project (ha project rfl)

/-- The other operations record no synchronization, and announce none. -/
theorem announces_other {op : Operation} (hop : request.operation = op) (hnone : op.syncEvent = none) :
    (serve P timeouts op >>= fun response => pure response.unannounced : Op Notified).Meets recording []
      (request.Announces client) := by
  have hsilent : ∀ c : Cmd, c.IssuedBy op → recording.allows [] c ∧ ∀ a, recording.step [] c a = [] := by
    refine fun c hc => ⟨trivial, fun a => ?_⟩
    cases c with
    | transact tx =>
        cases a with
        | error e => rfl
        | ok n =>
            have hrecorded : tx.recorded? = none := by
              cases tx with
              | projectsDataUpdateSyncState | secretsDataReplaceForProject =>
                  cases op <;> first | exact hc.elim | cases hnone
              | _ => rfl
            show [] ++ tx.recorded?.toList = []
            rw [hrecorded]
            rfl
    | _ => rfl
  rw [meets_bind]
  refine (only_issues op).meets hsilent fun r => ?_
  cases r with
  | error e => exact rfl
  | ok response =>
      refine ⟨[], rfl, truthful_refused (fun h => ?_) fun _ id h => ?_⟩
      · rw [hop, hnone] at h
        cases h
      · rw [hop, hnone] at h
        cases h

theorem announces_notifyingRoute {α : Type} (request : NotifyingRequest) {id : JsString} {task : Project → Op α} {body : α → ResponseBody}
    {snapshotOf : α → JsString} {failed : Project → Failure → List NotificationPayload}
    (hevent : request.operation.syncEvent = some (event, id)) (hne : event ≠ .pushConflict)
    (hbody : ∀ a message code, body a ≠ .error message code)
    (htask : ∀ project : Project, project.id = id →
      SyncsOnce (fun a sync => sync = (project.id, snapshotOf a)) (task project))
    (hfailed : ∀ project : Project, project.id = id → ∀ e,
      request.Announces client (.ok ⟨sendSyncError e, failed project e⟩) []) :
    (notifyingRoute client id task body (fun project a => ⟨event, project, request.actor, some (snapshotOf a)⟩)
      failed).Meets recording [] (request.Announces client) := by
  refine announces_projectsDataGet request announces_notFound fun project hproject => ?_
  exact announces_synchronization request (hproject ▸ hevent) hne hbody (htask project hproject) (hfailed project hproject)

section Requests
variable {id snapshotId : JsString} {contentHash sent : Option JsValue} {pushedBy userName : Option JsString}

theorem announces_push : (pushNotifying P timeouts client id pushedBy).Meets recording []
    (NotifyingRequest.Announces client ⟨.push id pushedBy, userName⟩) := by
  have htask : ∀ project : Project, project.id = id →
      SyncsOnce (fun result sync => sync = (project.id, PushResult.snapshotId result))
        (resticSyncPush P timeouts project pushedBy) := by
    refine fun project _ => syncsOnce_rereadProject fun fresh hfresh => SyncsOnce.withWorkDir ?_
    exact syncsOnce_pushSecrets.mono fun result sync h => h.trans (congrArg (·, result.snapshotId) hfresh)
  exact announces_notifyingRoute ⟨.push id pushedBy, userName⟩ rfl (by decide) (by rintro a message code ⟨⟩) htask
    fun project hproject => announces_pushConflicted rfl (by rw [hproject]; rfl)

/-- The pull has a check of its own before it begins. -/
theorem announces_pull : (pullNotifying P timeouts client id sent contentHash userName).Meets recording []
    (NotifyingRequest.Announces client ⟨.pull id sent contentHash, userName⟩) := by
  have hpush : ∀ id', (Operation.pull id sent contentHash).syncEvent ≠ some (.push, id') := by rintro id' ⟨⟩
  refine announces_projectsDataGet ⟨.pull id sent contentHash, userName⟩ announces_notFound fun project hproject => ?_
  refine meets_ite (fun _ => announces_refused (not_accepts rfl) fun _ => hpush) fun _ => ?_
  have hevent : (Operation.pull id sent contentHash).syncEvent = some (.pull, project.id) := by rw [hproject]; rfl
  exact announces_synchronization ⟨.pull id sent contentHash, userName⟩ hevent (by decide)
    (by rintro a message code ⟨⟩) syncsOnce_pullUnlocked (announces_failed hpush)

theorem announces_restore : (restoreNotifying P timeouts client id snapshotId contentHash userName).Meets recording []
    (NotifyingRequest.Announces client ⟨.restore id snapshotId contentHash, userName⟩) :=
  announces_notifyingRoute ⟨.restore id snapshotId contentHash, userName⟩ rfl (by decide) (by rintro a message code ⟨⟩)
    (fun _ _ => syncsOnce_restoreSnapshotUnlocked.mono fun _ _ h => h.1)
    fun _ _ => announces_failed (by rintro id' ⟨⟩)

theorem announces_discard : (discardNotifying P timeouts client id contentHash userName).Meets recording []
    (NotifyingRequest.Announces client ⟨.discard id contentHash, userName⟩) :=
  announces_notifyingRoute ⟨.discard id contentHash, userName⟩ rfl (by decide) (by rintro a message code ⟨⟩)
    (fun _ _ => syncsOnce_discardUnlocked) fun _ _ => announces_failed (by rintro id' ⟨⟩)

end Requests

/-- **Every request announces what it has recorded.** -/
theorem meets_recording (request : NotifyingRequest) :
    (serveNotifying P timeouts client request).Meets recording [] (request.Announces client) := by
  obtain ⟨op, userName⟩ := request
  cases op with
  | push id pushedBy => exact announces_push
  | pull id snapshotId contentHash => exact announces_pull
  | restore id snapshotId contentHash => exact announces_restore
  | discard id contentHash => exact announces_discard
  | _ => exact announces_other rfl rfl

end Announcements

/-! ## Every run -/

section Runs
variable {R : Type} {P : Platform} {timeouts : ResticTimeouts} {client : Bool} {restic : Restic R}
  {admits : NotifyingRequest → Prop}

theorem recordingOutline (P : Platform) (timeouts : ResticTimeouts) (client : Bool) (restic : Restic R)
    (admits : NotifyingRequest → Prop) : Outline (notifyingServer P timeouts client restic admits) (fun _ => recording)
      [] (fun _ => True) (fun _ _ _ _ => True) (NotifyingRequest.Announces client) := by
  refine .ofAnswers (fun {t request trace w c a w'} h syncs => ?_) fun request _ => meets_recording request
  have hexec : Exec restic t w c a w' := h
  cases c with
  | projectsGet id =>
      cases a with
      | error e => trivial
      | ok row =>
          intro p hp
          obtain ⟨-, hrow | ⟨m, hrow⟩⟩ := hexec
          · obtain rfl := Except.ok.inj hrow
            exact ((Tables.project?_eq_some w.db.valid).mp hp).2
          · cases hrow
  | fs f =>
      cases f with
      | remove =>
          cases a with
          | ok => trivial
          | error e =>
              obtain ⟨-, hremoved | ⟨hremove, -⟩⟩ := hexec
              · cases hremoved
              · exact hremove rfl
      | _ => trivial
  | _ => trivial

/-- **What is announced is what was done.** In every run, a request that ends with a response has sent the payloads
of its notifications: one for the synchronization that it recorded, with the project and the snapshot of the record,
or one for the conflict of its push, and otherwise none. A request that ends without a response has recorded nothing.
Whoever receives a payload can read its data. -/
theorem notifications_truthful (number : JsString → JsNumber) (message : JsString → JsString) {w₀ : World R}
    {cfg : Config (World R) Cmd Cmd.Answer Failure Notified NotifyingRequest}
    (h : (notifyingServer P timeouts client restic admits).Reachable w₀ cfg)
    {th : Thread (World R) Cmd Cmd.Answer Failure Notified NotifyingRequest} (hth : th ∈ cfg.threads) :
    (∀ notified, th.prog.result? = some (.ok notified) → ∃ notifications : List SyncNotification,
      notified.sent = notifications.flatMap (syncNotificationsNotify client) ∧
      Truthful th.req notified.response notifications (committedSyncs th.trace) ∧
      ∀ n ∈ notifications, ∃ o, jsonParse number message n.payload.data = .ok (.object o) ∧
        ∀ p ∈ n.properties, o.get? p.1 = some (nullableValue p.2)) ∧
    ∀ e, th.prog.result? = some (.error e) → committedSyncs th.trace = [] := by
  obtain ⟨t, ht⟩ := List.getElem?_of_mem hth
  have hthread := ((recordingOutline P timeouts client restic admits).good trivial h).threads t th ht
  have hends : ∀ r, th.prog.result? = some r → th.req.Announces client r (committedSyncs th.trace) := by
    intro r hr
    rw [← recording_after]
    exact hthread.meets.result hr
  refine ⟨fun notified hnotified => ?_, fun e he => hends _ he⟩
  obtain ⟨notifications, hsent, htruthful⟩ := hends _ hnotified
  exact ⟨notifications, hsent, htruthful, fun n _ => n.data_parsed number message⟩

end Runs

section Example

def aliceRestores : List (Move NotifyingRequest JsString) :=
  .spawn ⟨swap, some (js "alice")⟩ :: List.replicate 8 (.run 0 exampleNow) ++ [.run 0 (js "b")] ++
    List.replicate 7 (.run 0 exampleNow)

/-- A restore announces itself once. -/
theorem notifications_truthful_restore :
    ∃ cfg, ∃ th ∈ cfg.threads, ∃ notified notifications,
      (notifyingServer runPlatform exampleTimeouts true Snapshots.restic fun _ => True).Reachable
        (.initial editedDb [(js "s1", exampleFiles "1")]) cfg ∧
      th.prog.result? = some (.ok notified) ∧
      notified.sent.map NotificationPayload.title = [js "Snapshot restored: " ++ exampleProject.name] ∧
      notified.sent = notifications.flatMap (syncNotificationsNotify true) ∧
      Truthful th.req notified.response notifications (committedSyncs th.trace) := by
  obtain ⟨cfg, hplay, hsent⟩ : ∃ cfg, play (serveNotifying runPlatform exampleTimeouts true)
        (fun t _ _ => act Snapshots.run t) aliceRestores
        ⟨.initial editedDb [(js "s1", exampleFiles "1")], []⟩ = some cfg ∧
      (cfg.threads.map fun th => (th.prog.result?.bind Except.toOption).map fun notified =>
        notified.sent.map NotificationPayload.title) = [some [js "Snapshot restored: " ++ exampleProject.name]] :=
    Option.map_eq_some_iff.mp rfl
  obtain ⟨th, hthreads, htitles⟩ := List.map_eq_singleton_iff.mp hsent
  obtain ⟨notified, hnotified, htitles⟩ := Option.map_eq_some_iff.mp htitles
  have hended : th.prog.result? = some (.ok notified) := by
    obtain ⟨r, hr, hok⟩ := Option.bind_eq_some_iff.mp hnotified
    cases r with
    | error e => cases hok
    | ok n =>
        cases hok
        exact hr
  have hact : ∀ (t : Nat) (request : NotifyingRequest) (trace : List (ServerEvent Snapshots)) (w : World Snapshots)
      (c : Cmd) (fresh : JsString) (a : c.Answer) (w' : World Snapshots), act Snapshots.run t w c fresh = some (a, w') →
      (notifyingServer runPlatform exampleTimeouts true Snapshots.restic fun _ => True).exec t request trace w c a w' :=
    fun _ _ _ _ _ _ _ _ h => act_exec (fun _ _ _ => rfl) h
  have hreachable : (notifyingServer runPlatform exampleTimeouts true Snapshots.restic fun _ => True).Reachable
      (.initial editedDb [(js "s1", exampleFiles "1")]) cfg := play_steps hact (fun _ _ => trivial) hplay
  have hth : th ∈ cfg.threads := hthreads ▸ List.mem_singleton_self th
  obtain ⟨notifications, hsame, htruthful, -⟩ :=
    (notifications_truthful (fun text => ⟨text, none⟩) (fun _ => js "Unexpected token") hreachable hth).1 notified hended
  exact ⟨cfg, th, hth, notified, notifications, hreachable, hended, htitles, hsame, htruthful⟩

end Example

end SecretsManager
