import SecretsManager.Restic.StatusInvalidation

/-!
# Status requests and synchronizations

A status request reads the row of its project and then asks the cache with it; a synchronization commits its
state, invalidates the cached status, and answers. A run is dated by its start, not by the row that it is
started with, so an old row can come after the invalidation.
-/

namespace SecretsManager

open Js Machine

/-! ## Results are computed -/

namespace StatusCache

variable {s s' : StatusCache} {config : StatusConfig} {P : Platform} {r : Nat}

/-- The result of a run is computed from its row. -/
def Computed (P : Platform) (s : StatusCache) : Prop :=
  ∀ (r : Nat) (run : StatusRun) (result : SyncStatusResult), s.runs[r]? = some run →
    run.phase = .settled (.ok result) →
      ∃ snapshots secretCount, result = resticSyncStatus P run.project snapshots secretCount

theorem Computed.of_kept (h : Computed P s) (hkept : ∀ (r : Nat) (run' : StatusRun), s'.runs[r]? = some run' →
    ∃ run : StatusRun, s.runs[r]? = some run ∧ run.Keeps run') : Computed P s' := by
  intro r run' result hrun' hend
  obtain ⟨run, hrun, hkeeps⟩ := hkept r run' hrun'
  rw [hkeeps.project]
  exact h r run result hrun ((hkeeps.settled _).mp hend)

theorem Computed.startRun (h : Computed P s) (project : Project) (background : Bool) :
    Computed P (s.startRun config project background) := by
  obtain ⟨n, waiters, heq⟩ := startRun_eq config s project background
  rw [heq]
  intro r run result hrun hend
  rcases getElem?_append_singleton hrun with hold | ⟨-, rfl⟩
  · exact h r run result hold hend
  · exact absurd hend ((acquireSlot_spec config s).2 _)

theorem Computed.get (h : Computed P s) (project : Project) (signal : Option Nat) :
    Computed P (s.get config project signal) := by
  have hanswerNow : ∀ {s : StatusCache} {answer : Except Failure StatusAnswer}, Computed P s →
      Computed P (s.answerNow project.id signal answer) := fun hs => hs
  unfold StatusCache.get
  split
  · exact hanswerNow h
  · split
    · split_ifs
      · exact hanswerNow h
      · exact hanswerNow h
      · exact hanswerNow (h.startRun project true)
    · split
      · exact h.of_kept (quiet_joinRun _ _ _ _).runs
      · exact (h.startRun project false).of_kept (quiet_joinRun _ _ _ _).runs

/-- The end of a run whose result, if any, is computed from its row. -/
theorem Computed.settle (h : Computed P s) {projectId : JsString} {outcome : Except Failure SyncStatusResult}
    (hcomputed : ∀ run result, s.runs[r]? = some run → outcome = .ok result →
      ∃ snapshots secretCount, result = resticSyncStatus P run.project snapshots secretCount) :
    Computed P (s.settle r projectId outcome) := by
  intro r' run' result hrun' hend
  have hget := getElem?_updateRun s r r' ({ · with phase := .settled outcome })
  obtain ⟨run, hrun, rfl⟩ := Option.map_eq_some_iff.mp (hget.symm.trans hrun')
  split_ifs at hend ⊢ with hr
  · subst hr
    cases hend
    exact hcomputed run result hrun rfl
  · exact h r' run result hrun hend

theorem Computed.invalidate (h : Computed P s) (projectId : JsString) : Computed P (s.invalidate projectId) := by
  unfold StatusCache.invalidate
  split
  · exact Computed.of_kept (s := { s with cache := _, generations := _, inFlight := _ }) h (quiet_abort _ _).runs
  · exact h

theorem computed_step {e : StatusEvent} (h : Computed P s) (hstep : s.step P config e = some s') :
    Computed P s' := by
  cases stepped_of_step hstep with
  | get project signal => exact h.get project signal
  | disconnect signal => exact h.of_kept (quiet_disconnect s signal).runs
  | invalidate projectId => exact h.invalidate projectId
  | setTime now => exact h
  | @proceed r run hrun hphase =>
      have hrunning : Quiet s (s.updateRun r ({ · with phase := .running })) := quiet_phase hrun hphase nofun nofun
      exact h.of_kept hrunning.runs
  | refuse hrun hphase => exact h.settle nofun
  | @complete r run outcome hrun hphase _ =>
      have hrest : ∀ {s : StatusCache}, Computed P s → s.runs[r]? = some run →
          Computed P (s.releaseSlot.settle r run.project.id
            (outcome.map fun listing => resticSyncStatus P run.project listing.1 listing.2)) := by
        intro s hs hrun
        refine (hs.of_kept (quiet_releaseSlot s).runs).settle fun run' result hrun' hok => ?_
        obtain ⟨run₀, hrun₀, hkeeps⟩ := (quiet_releaseSlot s).runs r run' hrun'
        obtain rfl := Option.some.inj (hrun.symm.trans hrun₀)
        rw [hkeeps.project]
        cases outcome with
        | error e => cases hok
        | ok listing =>
            cases hok
            exact ⟨listing.1, listing.2, rfl⟩
      unfold complete
      cases outcome with
      | error e => exact hrest h hrun
      | ok listing =>
          dsimp only [Except.map] at hrest ⊢
          split_ifs
          · exact hrest (s := { s with cache := _ }) h hrun
          · exact hrest h hrun
  | notify hcall hrun hphase => exact h.of_kept (quiet_finish s _ _).runs

/-! ## The start of a run -/

/-- A request of the project starts a run. -/
def Starts (s : StatusCache) (projectId : JsString) (signal : Option Nat) : Prop :=
  s.isAborted signal = false ∧ s.inFlight projectId = none ∧
    ∀ entry, s.cache projectId = some entry → entry.expiresAt ≤ s.now

theorem starts_of_get {project : Project} {signal : Option Nat}
    (h : s.runs.length < (s.get config project signal).runs.length) : s.Starts project.id signal := by
  unfold get at h
  split at h
  · exact absurd h (Nat.lt_irrefl _)
  · rename_i hfired
    split at h
    · rename_i cached hcached
      split_ifs at h with hfresh hin
      · exact absurd h (Nat.lt_irrefl _)
      · exact absurd h (Nat.lt_irrefl _)
      · refine ⟨Bool.of_not_eq_true hfired, Option.not_isSome_iff_eq_none.mp hin, fun entry hentry => ?_⟩
        obtain rfl := Option.some.inj (hcached.symm.trans hentry)
        exact Int.not_lt.mp hfresh
    · rename_i hnone
      split at h
      · rename_i existing _
        have hlength : (s.joinRun existing project.id signal).runs.length = s.runs.length := List.length_modify ..
        rw [hlength] at h
        exact absurd h (Nat.lt_irrefl _)
      · rename_i hin
        refine ⟨Bool.of_not_eq_true hfired, hin, fun entry hentry => ?_⟩
        rw [hnone] at hentry
        cases hentry

/-- A call after an event other than a request. -/
theorem Continues.call (h : Continues s s') {c : Nat} {call : StatusCall} (hcall : s.calls[c]? = some call) :
    ∃ call', s'.calls[c]? = some call' ∧ call'.projectId = call.projectId ∧ call'.run = call.run ∧
      ∀ a : StatusAnswer, call'.answer = some (.ok a) → call.answer = some (.ok a) ∨ call.run = some a.run := by
  have hlt : c < s'.calls.length := by
    rw [h.length]
    exact (List.getElem?_eq_some_iff.mp hcall).1
  obtain ⟨call₀, hcall₀, hrest⟩ := h.calls c s'.calls[c] (List.getElem?_eq_getElem hlt)
  obtain rfl := Option.some.inj (hcall.symm.trans hcall₀)
  exact ⟨_, List.getElem?_eq_getElem hlt, hrest⟩

end StatusCache

/-! ## Requests and synchronizations -/

/-- A project row, with the time at which the database has read it. -/
structure RowRead where
  row : Project
  time : Nat

/-- Where `GET /:id/status` is: before the read, after it (`none` when there is no such project), and after it
has asked the cache. -/
inductive StatusRequestPhase where
  | received
  | read (source : Option RowRead)
  | asked (call : Nat)

structure StatusRequest where
  projectId : JsString
  signal : Option Nat
  received : Nat
  phase : StatusRequestPhase

/-- A push, pull, restore or discard that has committed its state. -/
structure CommittedSync where
  projectId : JsString
  committed : Nat
  invalidated : Bool
  answered : Option Nat

/-- `reads` holds the row of each run of the cache. -/
structure StatusServer where
  time : Nat
  db : Db
  cache : StatusCache
  reads : List RowRead
  requests : List StatusRequest
  syncs : List CommittedSync

/-- A write commits, a synchronization invalidates the cached status or answers, a status request comes, is
read for by the database, or asks the cache, and the cache goes on. -/
inductive StatusServerEvent where
  | write (tx : Transaction)
  | invalidate (sync : Nat)
  | answer (sync : Nat)
  | receive (projectId : JsString) (signal : Option Nat)
  | read (request : Nat)
  | ask (request : Nat)
  | cache (e : StatusEvent)

namespace StatusServer

def start (db : Db) : StatusServer where
  time := 0
  db := db
  cache := .start
  reads := []
  requests := []
  syncs := []

section Platform
variable (P : Platform) (config : StatusConfig)

/-- What an event does at the time of the server. -/
def act (s : StatusServer) : StatusServerEvent → Option StatusServer
  | .write tx =>
      match tx.commit s.db with
      | .ok (db, _) =>
          some { s with
            db := db
            syncs := s.syncs ++ (tx.syncs.map fun sync => ⟨sync.1, s.time, false, none⟩).toList }
      | .error _ => none
  | .invalidate k =>
      match s.syncs[k]? with
      | some sync =>
          some { s with
            cache := s.cache.invalidate sync.projectId
            syncs := s.syncs.set k { sync with invalidated := true } }
      | none => none
  | .answer k =>
      match s.syncs[k]? with
      | some sync =>
          if sync.invalidated = true ∧ sync.answered = none then
            some { s with syncs := s.syncs.set k { sync with answered := some s.time } }
          else none
      | none => none
  | .receive projectId signal =>
      some { s with requests := s.requests ++ [⟨projectId, signal, s.time, .received⟩] }
  | .read q =>
      match s.requests[q]? with
      | some ⟨projectId, signal, received, .received⟩ =>
          let source := (s.db.project? projectId).map fun row => ⟨row, s.time⟩
          some { s with requests := s.requests.set q ⟨projectId, signal, received, .read source⟩ }
      | _ => none
  | .ask q =>
      match s.requests[q]? with
      | some ⟨projectId, signal, received, .read (some source)⟩ =>
          let cache := s.cache.get config source.row signal
          some { s with
            cache := cache
            reads := if s.cache.runs.length < cache.runs.length then s.reads ++ [source] else s.reads
            requests := s.requests.set q ⟨projectId, signal, received, .asked s.cache.calls.length⟩ }
      | _ => none
  | .cache (.get _ _) => none
  | .cache e => (s.cache.step P config e).map fun cache => { s with cache := cache }

def step (s : StatusServer) (e : StatusServerEvent) : Option StatusServer :=
  (s.act P config e).map fun s' => { s' with time := s.time + 1 }

end Platform

/-! ## The invariant -/

/-- The row of the run was read after every synchronization of the project that had answered before the request
came. -/
def ReadAfter (s : StatusServer) (r : Nat) (request : StatusRequest) : Prop :=
  ∃ source, s.reads[r]? = some source ∧ ∀ sync ∈ s.syncs, ∀ answered, sync.projectId = request.projectId →
    sync.answered = some answered → answered < request.received → sync.committed < source.time

/-- The row of a run of the present generation was read after every synchronization that has invalidated the
cached status of the project, and the run that a request waits for or is answered by was read after those that
had answered before it came. -/
structure Current (P : Platform) (s : StatusServer) : Prop where
  sound : s.cache.Sound
  computed : s.cache.Computed P
  rows : s.reads.map RowRead.row = s.cache.origins.map Prod.fst
  answered : ∀ sync ∈ s.syncs, sync.answered ≠ none → sync.invalidated = true
  received : ∀ request ∈ s.requests, request.received < s.time
  rowId : ∀ request ∈ s.requests, ∀ source, request.phase = .read (some source) → source.row.id = request.projectId
  present : ∀ (r : Nat) (origin : Project × Nat) (source : RowRead), s.cache.origins[r]? = some origin →
    s.reads[r]? = some source → origin.2 = s.cache.generations origin.1.id →
      ∀ sync ∈ s.syncs, sync.projectId = origin.1.id → sync.invalidated = true → sync.committed < source.time
  served : ∀ request ∈ s.requests, ∀ c, request.phase = .asked c →
    ∃ call : StatusCall, s.cache.calls[c]? = some call ∧ call.projectId = request.projectId ∧
      (∀ r, call.run = some r → s.ReadAfter r request) ∧
      ∀ a : StatusAnswer, call.answer = some (.ok a) → s.ReadAfter a.run request

variable {P : Platform} {config : StatusConfig} {s s' : StatusServer}

theorem current_start (P : Platform) (db : Db) : Current P (start db) where
  sound := StatusCache.sound_start
  computed r run result hrun := by simp [start, StatusCache.start] at hrun
  rows := rfl
  answered sync hsync := by cases hsync
  received request hrequest := by cases hrequest
  rowId request hrequest := by cases hrequest
  present r origin source horigin := by simp [start, StatusCache.start, StatusCache.origins] at horigin
  served request hrequest := by cases hrequest

/-- A later state knows the rows of the runs, and no synchronization of it has answered before the request that
has not answered before it earlier. -/
theorem ReadAfter.mono {r : Nat} {request request' : StatusRequest} (h : s.ReadAfter r request)
    (hid : request'.projectId = request.projectId) (hreceived : request'.received = request.received)
    (hreads : ∀ source, s.reads[r]? = some source → s'.reads[r]? = some source)
    (hsyncs : ∀ sync' ∈ s'.syncs, ∀ answered, sync'.answered = some answered → answered < request.received →
      ∃ sync ∈ s.syncs, sync.projectId = sync'.projectId ∧ sync.committed = sync'.committed ∧
        sync.answered = some answered) : s'.ReadAfter r request' := by
  obtain ⟨source, hsource, hafter⟩ := h
  refine ⟨source, hreads source hsource, fun sync' hsync' answered hproject hanswered hbefore => ?_⟩
  rw [hreceived] at hbefore
  obtain ⟨sync, hsync, hsame, hcommitted, hold⟩ := hsyncs sync' hsync' answered hanswered hbefore
  rw [← hcommitted]
  exact hafter sync hsync answered (hsame.trans (hproject.trans hid)) hold hbefore

/-- What an event does that leaves the rows of the runs, the requests and the answers as they are. -/
theorem Current.continues (h : Current P s) (hcontinues : StatusCache.Continues s.cache s'.cache)
    (hsound : s'.cache.Sound) (hcomputed : s'.cache.Computed P) (hreads : s'.reads = s.reads)
    (hrequests : s'.requests = s.requests) (htime : s.time ≤ s'.time)
    (hanswered : ∀ sync ∈ s'.syncs, sync.answered ≠ none → sync.invalidated = true)
    (hsyncs : ∀ sync' ∈ s'.syncs, ∀ answered, sync'.answered = some answered → answered < s.time →
      ∃ sync ∈ s.syncs, sync.projectId = sync'.projectId ∧ sync.committed = sync'.committed ∧
        sync.answered = some answered)
    (hinvalidated : ∀ sync' ∈ s'.syncs, ∀ origin ∈ s.cache.origins, origin.2 = s'.cache.generations origin.1.id →
      sync'.projectId = origin.1.id → sync'.invalidated = true → ∃ sync ∈ s.syncs,
        sync.projectId = sync'.projectId ∧ sync.committed = sync'.committed ∧ sync.invalidated = true) :
    Current P s' where
  sound := hsound
  computed := hcomputed
  rows := by
    rw [hreads, hcontinues.origins]
    exact h.rows
  answered := hanswered
  received request hrequest := by
    rw [hrequests] at hrequest
    exact (h.received request hrequest).trans_le htime
  rowId request hrequest := by
    rw [hrequests] at hrequest
    exact h.rowId request hrequest
  present r origin source horigin hsource hpresent sync' hsync' hid hdone := by
    rw [hcontinues.origins] at horigin
    rw [hreads] at hsource
    have hmem : origin ∈ s.cache.origins := List.mem_of_getElem? horigin
    obtain ⟨sync, hsync, hsame, hcommitted, hold⟩ := hinvalidated sync' hsync' origin hmem hpresent hid hdone
    -- the generation of the project has not changed, since the run is of the present one
    have hearlier : origin.2 = s.cache.generations origin.1.id := by
      obtain ⟨run, hrun, rfl⟩ := Option.map_eq_some_iff.mp ((List.getElem?_map ..).symm.trans horigin)
      refine Nat.le_antisymm (h.sound.generation hrun) ?_
      rw [hpresent]
      exact hcontinues.generations _
    rw [← hcommitted]
    exact h.present r origin source horigin hsource hearlier sync hsync (hsame.trans hid) hold
  served request hrequest c hasked := by
    rw [hrequests] at hrequest
    have hmono : ∀ {r}, s.ReadAfter r request → s'.ReadAfter r request := fun hafter =>
      hafter.mono rfl rfl (fun source hsource => by rw [hreads]; exact hsource)
        fun sync' hsync' answered hanswer hbefore =>
          hsyncs sync' hsync' answered hanswer (hbefore.trans (h.received request hrequest))
    obtain ⟨call, hcall, hid, hjoined, hanswer⟩ := h.served request hrequest c hasked
    obtain ⟨call', hcall', hid', hrun', hgoes⟩ := hcontinues.call hcall
    refine ⟨call', hcall', hid'.trans hid, fun r hr => hmono (hjoined r (hrun' ▸ hr)), fun a ha => hmono ?_⟩
    rcases hgoes a ha with hold | hwaits
    · exact hanswer a hold
    · exact hjoined a.run hwaits

/-- A change of requests that have not asked. -/
theorem Current.requests (h : Current P s) (hcache : s'.cache = s.cache) (hreads : s'.reads = s.reads)
    (hsyncs : s'.syncs = s.syncs) (hreceived : ∀ request ∈ s'.requests, request.received < s'.time)
    (hrowId : ∀ request ∈ s'.requests, ∀ source, request.phase = .read (some source) →
      source.row.id = request.projectId)
    (hasked : ∀ request ∈ s'.requests, ∀ c, request.phase = .asked c → request ∈ s.requests) : Current P s' where
  sound := hcache ▸ h.sound
  computed := hcache ▸ h.computed
  rows := by
    rw [hcache, hreads]
    exact h.rows
  answered := by
    rw [hsyncs]
    exact h.answered
  received := hreceived
  rowId := hrowId
  present := by
    rw [hcache, hreads, hsyncs]
    exact h.present
  served request hrequest c hphase := by
    have hmono : ∀ {r}, s.ReadAfter r request → s'.ReadAfter r request := fun hafter =>
      hafter.mono rfl rfl (fun source hsource => by rw [hreads]; exact hsource)
        fun sync hsync answered hanswer _ => ⟨sync, hsyncs ▸ hsync, rfl, rfl, hanswer⟩
    obtain ⟨call, hcall, hid, hjoined, hanswer⟩ := h.served request (hasked request hrequest c hphase) c hphase
    rw [← hcache] at hcall
    exact ⟨call, hcall, hid, fun r hr => hmono (hjoined r hr), fun a ha => hmono (hanswer a ha)⟩

/-! ## Asking the cache -/

/-- A row with which a run starts was read after every synchronization of the project that has invalidated the
cached status. -/
def StartsFresh (s : StatusServer) : StatusServerEvent → Prop
  | .ask q => ∀ (request : StatusRequest) (source : RowRead), s.requests[q]? = some request →
      request.phase = .read (some source) → s.cache.Starts source.row.id request.signal →
        ∀ sync ∈ s.syncs, sync.projectId = request.projectId → sync.invalidated = true →
          sync.committed < source.time
  | _ => True

/-- A run of the present generation has a row that was read after every synchronization that has answered. -/
theorem Current.readAfter (h : Current P s) (request : StatusRequest) {r : Nat} {run : StatusRun}
    (hrun : s.cache.runs[r]? = some run) (hid : run.project.id = request.projectId)
    (hpresent : run.generation = s.cache.generations run.project.id) : s.ReadAfter r request := by
  have horigin := StatusCache.getElem?_origins hrun
  have hlt : r < s.reads.length := by
    have hlength := congrArg List.length h.rows
    rw [List.length_map, List.length_map] at hlength
    rw [hlength]
    exact (List.getElem?_eq_some_iff.mp horigin).1
  refine ⟨s.reads[r], List.getElem?_eq_getElem hlt, fun sync hsync answered hproject hanswered _ => ?_⟩
  refine h.present r _ _ horigin (List.getElem?_eq_getElem hlt) hpresent sync hsync (hproject.trans hid.symm) ?_
  refine h.answered sync hsync ?_
  rw [hanswered]
  exact Option.some_ne_none _

theorem current_ask (h : Current P s) {q : Nat} {projectId : JsString} {signal : Option Nat} {received : Nat}
    {source : RowRead} (hfresh : StartsFresh s (.ask q))
    (hrequest : s.requests[q]? = some ⟨projectId, signal, received, .read (some source)⟩) :
    Current P
      { s with
        time := s.time + 1
        cache := s.cache.get config source.row signal
        reads := if s.cache.runs.length < (s.cache.get config source.row signal).runs.length
          then s.reads ++ [source] else s.reads
        requests := s.requests.set q ⟨projectId, signal, received, .asked s.cache.calls.length⟩ } := by
  have hmem : (⟨projectId, signal, received, .read (some source)⟩ : StatusRequest) ∈ s.requests :=
    List.mem_of_getElem? hrequest
  have hrowId : source.row.id = projectId := h.rowId _ hmem source rfl
  obtain ⟨call, hget⟩ := StatusCache.requested_get config s.cache source.row signal
  have hlength : s.cache.origins.length = s.cache.runs.length := List.length_map ..
  have hlength' : (s.cache.get config source.row signal).origins.length =
      (s.cache.get config source.row signal).runs.length := List.length_map ..
  -- a run starts with the row of the request, or none starts
  have hreads : ((s.cache.get config source.row signal).origins = s.cache.origins ∧
        (if s.cache.runs.length < (s.cache.get config source.row signal).runs.length then s.reads ++ [source]
          else s.reads) = s.reads) ∨
      ((s.cache.get config source.row signal).origins =
          s.cache.origins ++ [(source.row, s.cache.generations source.row.id)] ∧
        (if s.cache.runs.length < (s.cache.get config source.row signal).runs.length then s.reads ++ [source]
          else s.reads) = s.reads ++ [source] ∧ s.cache.Starts source.row.id signal) := by
    rcases hget.origins with heq | heq
    · refine Or.inl ⟨heq, if_neg ?_⟩
      rw [← hlength', heq, hlength]
      exact Nat.lt_irrefl _
    · have hlt : s.cache.runs.length < (s.cache.get config source.row signal).runs.length := by
        rw [← hlength', heq, List.length_append, hlength]
        exact Nat.lt_succ_self _
      exact Or.inr ⟨heq, if_pos hlt, StatusCache.starts_of_get hlt⟩
  generalize (if s.cache.runs.length < (s.cache.get config source.row signal).runs.length then s.reads ++ [source]
    else s.reads) = reads at hreads ⊢
  have hrowsLength : s.reads.length = s.cache.origins.length := by
    have hrows := congrArg List.length h.rows
    rwa [List.length_map, List.length_map] at hrows
  have hkept : ∀ {r : Nat} {read : RowRead}, s.reads[r]? = some read → reads[r]? = some read := by
    intro r read hread
    rcases hreads with ⟨-, heq⟩ | ⟨-, heq, -⟩
    · rw [heq, hread]
    · rw [heq]
      exact StatusCache.getElem?_of_append hread
  refine ⟨h.sound.get source.row signal, h.computed.get source.row signal, ?_, h.answered, ?_, ?_, ?_, ?_⟩
  · rcases hreads with ⟨horigins, heq⟩ | ⟨horigins, heq, -⟩
    · rw [horigins, heq]
      exact h.rows
    · rw [horigins, heq, List.map_append, List.map_append, h.rows]
      rfl
  · intro request hrequest'
    rcases List.mem_or_eq_of_mem_set hrequest' with hold | rfl
    · exact (h.received request hold).trans (Nat.lt_succ_self _)
    · exact (h.received _ hmem).trans (Nat.lt_succ_self _)
  · intro request hrequest' source' hphase
    rcases List.mem_or_eq_of_mem_set hrequest' with hold | rfl
    · exact h.rowId request hold source' hphase
    · cases hphase
  · intro r origin source' horigin hsource hpresent sync hsync hid hdone
    rw [hget.generations] at hpresent
    rcases hreads with ⟨horigins, heq⟩ | ⟨horigins, heq, hstarts⟩
    · rw [horigins] at horigin
      rw [heq] at hsource
      exact h.present r origin source' horigin hsource hpresent sync hsync hid hdone
    · rw [horigins] at horigin
      rw [heq] at hsource
      rcases StatusCache.getElem?_append_singleton horigin with hold | ⟨rfl, rfl⟩
      · rcases StatusCache.getElem?_append_singleton hsource with hsource | ⟨rfl, -⟩
        · exact h.present r origin source' hold hsource hpresent sync hsync hid hdone
        · rw [hrowsLength, List.getElem?_eq_none (Nat.le_refl _)] at hold
          cases hold
      · have hsame : source' = source := by
          rw [← hrowsLength] at hsource
          exact (Option.some.inj ((List.getElem?_concat_length ..).symm.trans hsource)).symm
        rw [hsame]
        exact hfresh _ source hrequest rfl hstarts sync hsync (hid.trans hrowId) hdone
  · intro request hrequest' c hasked
    have hmono : ∀ {r : Nat} {request request' : StatusRequest}, s.ReadAfter r request →
        request'.projectId = request.projectId → request'.received = request.received →
          ReadAfter { s with reads := reads } r request' := fun hafter hid hreceived =>
      hafter.mono hid hreceived (fun _ hsource => hkept hsource)
        fun sync hsync answered hanswer _ => ⟨sync, hsync, rfl, rfl, hanswer⟩
    rcases List.mem_or_eq_of_mem_set hrequest' with hold | rfl
    · obtain ⟨call', hcall', hid, hjoined, hanswer⟩ := h.served request hold c hasked
      refine ⟨call', ?_, hid, fun r hr => hmono (hjoined r hr) rfl rfl, fun a ha => hmono (hanswer a ha) rfl rfl⟩
      dsimp only
      rw [hget.calls]
      exact StatusCache.getElem?_of_append hcall'
    · cases hasked
      refine ⟨call, ?_, hget.projectId.trans hrowId, fun r hr => ?_, fun a ha => ?_⟩
      · dsimp only
        rw [hget.calls]
        exact List.getElem?_concat_length ..
      · rcases hget.joined r hr with hin | ⟨rfl, horigins⟩
        · obtain ⟨run, hrun, hid, hpresent, -⟩ := h.sound.inFlight hin
          rw [← hid] at hpresent
          have hafter := h.readAfter ⟨projectId, signal, received, .read (some source)⟩ hrun
            (hid.trans hrowId) hpresent
          exact hmono hafter rfl rfl
        · rcases hreads with ⟨hsame, -⟩ | ⟨-, heq, hstarts⟩
          · have hcontra := congrArg List.length (hsame.symm.trans horigins)
            rw [List.length_append, List.length_singleton] at hcontra
            omega
          · refine ⟨source, ?_, fun sync hsync answered hproject hanswered _ => ?_⟩
            · dsimp only
              rw [heq, ← hlength, ← hrowsLength]
              exact List.getElem?_concat_length ..
            · refine hfresh _ source hrequest rfl hstarts sync hsync hproject (h.answered sync hsync ?_)
              rw [hanswered]
              exact Option.some_ne_none _
      · obtain ⟨entry, hentry, rfl⟩ := hget.answered a ha
        obtain ⟨run, hrun, hid, hpresent, -⟩ := h.sound.cached hentry
        rw [← hid] at hpresent
        have hafter := h.readAfter ⟨projectId, signal, received, .read (some source)⟩ hrun
          (hid.trans hrowId) hpresent
        exact hmono hafter rfl rfl

/-! ## Every event keeps the invariant -/

theorem current_write (h : Current P s) (tx : Transaction) (db : Db) :
    Current P
      { s with
        time := s.time + 1
        db := db
        syncs := s.syncs ++ (tx.syncs.map fun sync => ⟨sync.1, s.time, false, none⟩).toList } := by
  have hnew : ∀ {sync : CommittedSync}, sync ∈ s.syncs ++
      ((tx.syncs.map fun sync => ⟨sync.1, s.time, false, none⟩).toList : List CommittedSync) →
        sync ∈ s.syncs ∨ sync.invalidated = false ∧ sync.answered = none := by
    intro sync hsync
    rcases List.mem_append.mp hsync with hold | hnew
    · exact Or.inl hold
    · obtain ⟨written, -, rfl⟩ := Option.map_eq_some_iff.mp (Option.mem_toList.mp hnew)
      exact Or.inr ⟨rfl, rfl⟩
  have hsame : StatusCache.Continues s.cache s.cache := (StatusCache.Internal.refl s.cache).continues
  refine h.continues hsame h.sound h.computed rfl rfl (Nat.le_succ _) (fun sync hsync hanswered => ?_)
    (fun sync hsync answered hanswered _ => ?_) fun sync hsync origin _ _ _ hdone => ?_
  · rcases hnew hsync with hold | ⟨-, hnone⟩
    · exact h.answered sync hold hanswered
    · exact absurd hnone hanswered
  · rcases hnew hsync with hold | ⟨-, hnone⟩
    · exact ⟨sync, hold, rfl, rfl, hanswered⟩
    · rw [hnone] at hanswered
      cases hanswered
  · rcases hnew hsync with hold | ⟨hnone, -⟩
    · exact ⟨sync, hold, rfl, rfl, hdone⟩
    · rw [hnone] at hdone
      cases hdone

theorem current_invalidate (h : Current P s) {k : Nat} {sync : CommittedSync} (hk : s.syncs[k]? = some sync) :
    Current P
      { s with
        time := s.time + 1
        cache := s.cache.invalidate sync.projectId
        syncs := s.syncs.set k { sync with invalidated := true } } := by
  have hmem : sync ∈ s.syncs := List.mem_of_getElem? hk
  have hcomputed : (s.cache.invalidate sync.projectId).Computed P :=
    h.computed.invalidate sync.projectId
  refine h.continues (StatusCache.continues_invalidate s.cache sync.projectId) (h.sound.invalidate sync.projectId)
    hcomputed rfl rfl (Nat.le_succ _) (fun sync' hsync hanswered => ?_) (fun sync' hsync answered hanswered _ => ?_)
    fun sync' hsync origin horigin hpresent hid hdone => ?_
  · rcases List.mem_or_eq_of_mem_set hsync with hold | rfl
    · exact h.answered sync' hold hanswered
    · rfl
  · rcases List.mem_or_eq_of_mem_set hsync with hold | rfl
    · exact ⟨sync', hold, rfl, rfl, hanswered⟩
    · exact ⟨sync, hmem, rfl, rfl, hanswered⟩
  · rcases List.mem_or_eq_of_mem_set hsync with hold | rfl
    · exact ⟨sync', hold, rfl, rfl, hdone⟩
    · -- every run of the project is of an earlier generation now
      obtain ⟨run, hrun, rfl⟩ := List.mem_map.mp horigin
      obtain ⟨r, hr⟩ := List.mem_iff_getElem?.mp hrun
      have hle := h.sound.generation hr
      dsimp only at hid hpresent
      rw [← hid, StatusCache.generations_invalidate, hid] at hpresent
      omega

theorem current_answer (h : Current P s) {k : Nat} {sync : CommittedSync} (hk : s.syncs[k]? = some sync)
    (hdone : sync.invalidated = true) :
    Current P
      { s with time := s.time + 1, syncs := s.syncs.set k { sync with answered := some s.time } } := by
  have hmem : sync ∈ s.syncs := List.mem_of_getElem? hk
  have hsame : StatusCache.Continues s.cache s.cache := (StatusCache.Internal.refl s.cache).continues
  refine h.continues hsame h.sound h.computed rfl rfl (Nat.le_succ _) (fun sync' hsync hanswered => ?_)
    (fun sync' hsync answered hanswered hbefore => ?_) fun sync' hsync origin _ _ _ hinvalidated => ?_
  · rcases List.mem_or_eq_of_mem_set hsync with hold | rfl
    · exact h.answered sync' hold hanswered
    · exact hdone
  · rcases List.mem_or_eq_of_mem_set hsync with hold | rfl
    · exact ⟨sync', hold, rfl, rfl, hanswered⟩
    · cases hanswered
      exact absurd hbefore (Nat.lt_irrefl _)
  · rcases List.mem_or_eq_of_mem_set hsync with hold | rfl
    · exact ⟨sync', hold, rfl, rfl, hinvalidated⟩
    · exact ⟨sync, hmem, rfl, rfl, hdone⟩

theorem current_cache (h : Current P s) {e : StatusEvent} {cache : StatusCache}
    (hget : ∀ project signal, e ≠ .get project signal) (hstep : s.cache.step P config e = some cache) :
    Current P { s with time := s.time + 1, cache := cache } := by
  have hcontinues := StatusCache.continues_step hget hstep
  exact h.continues hcontinues (StatusCache.sound_step h.sound hstep) (StatusCache.computed_step h.computed hstep) rfl
    rfl (Nat.le_succ _) h.answered (fun sync hsync _ hanswered _ => ⟨sync, hsync, rfl, rfl, hanswered⟩)
    fun sync hsync _ _ _ _ hdone => ⟨sync, hsync, rfl, rfl, hdone⟩

theorem current_step {e : StatusServerEvent} (h : Current P s) (hfresh : StartsFresh s e)
    (hstep : s.step P config e = some s') : Current P s' := by
  obtain ⟨s₁, hact, rfl⟩ := Option.map_eq_some_iff.mp hstep
  cases e with
  | write tx =>
      rw [act] at hact
      split at hact
      · cases hact
        exact current_write h tx _
      · cases hact
  | invalidate k =>
      rw [act] at hact
      split at hact
      · rename_i sync hk
        cases hact
        exact current_invalidate h hk
      · cases hact
  | answer k =>
      rw [act] at hact
      split at hact
      · rename_i sync hk
        split_ifs at hact with hdone
        cases hact
        exact current_answer h hk hdone.1
      · cases hact
  | receive projectId signal =>
      cases hact
      refine h.requests rfl rfl rfl (fun request hrequest => ?_) (fun request hrequest source hphase => ?_)
        fun request hrequest c hphase => ?_
      · rcases List.mem_append.mp hrequest with hold | hnew
        · exact (h.received request hold).trans (Nat.lt_succ_self _)
        · rw [List.mem_singleton.mp hnew]
          exact Nat.lt_succ_self _
      · rcases List.mem_append.mp hrequest with hold | hnew
        · exact h.rowId request hold source hphase
        · rw [List.mem_singleton.mp hnew] at hphase
          cases hphase
      · rcases List.mem_append.mp hrequest with hold | hnew
        · exact hold
        · rw [List.mem_singleton.mp hnew] at hphase
          cases hphase
  | read q =>
      rw [act] at hact
      split at hact
      · rename_i projectId signal received hrequest
        have hmem := List.mem_of_getElem? hrequest
        cases hact
        refine h.requests rfl rfl rfl (fun request hrequest' => ?_) (fun request hrequest' source hphase => ?_)
          fun request hrequest' c hphase => ?_
        · rcases List.mem_or_eq_of_mem_set hrequest' with hold | rfl
          · exact (h.received request hold).trans (Nat.lt_succ_self _)
          · exact (h.received _ hmem).trans (Nat.lt_succ_self _)
        · rcases List.mem_or_eq_of_mem_set hrequest' with hold | rfl
          · exact h.rowId request hold source hphase
          · obtain ⟨row, hrow, rfl⟩ := Option.map_eq_some_iff.mp (StatusRequestPhase.read.inj hphase)
            exact ((Tables.project?_eq_some s.db.valid).mp hrow).2
        · rcases List.mem_or_eq_of_mem_set hrequest' with hold | rfl
          · exact hold
          · cases hphase
      · cases hact
  | ask q =>
      rw [act] at hact
      split at hact
      · rename_i projectId signal received source hrequest
        cases hact
        exact current_ask h hfresh hrequest
      · cases hact
  | cache e =>
      by_cases hget : ∃ project signal, e = .get project signal
      · obtain ⟨project, signal, rfl⟩ := hget
        cases hact
      · have hother : ∀ project signal, e ≠ .get project signal := fun project signal heq =>
          hget ⟨project, signal, heq⟩
        rw [act] at hact
        · obtain ⟨cache, hcache, rfl⟩ := Option.map_eq_some_iff.mp hact
          exact current_cache h hother hcache
        · exact hother

/-! ## No status from before a synchronization -/

/-- A status that is answered to a request from after the answer of a synchronization of the project is computed
from a row that was read after the commit of the synchronization. -/
def Fresh (P : Platform) (s : StatusServer) : Prop :=
  ∀ request ∈ s.requests, ∀ (c : Nat) (call : StatusCall) (a : StatusAnswer), request.phase = .asked c →
    s.cache.calls[c]? = some call → call.answer = some (.ok a) → ∀ sync ∈ s.syncs, ∀ answered,
      sync.projectId = request.projectId → sync.answered = some answered → answered < request.received →
        ∃ source, s.reads[a.run]? = some source ∧ source.row.id = request.projectId ∧
          sync.committed < source.time ∧
          ∃ snapshots secretCount, a.result = resticSyncStatus P source.row snapshots secretCount

theorem Current.fresh (h : Current P s) : Fresh P s := by
  intro request hrequest c call a hasked hcall hanswer sync hsync answered hproject hanswered hbefore
  obtain ⟨call', hcall', hid, -, hafter⟩ := h.served request hrequest c hasked
  obtain rfl := Option.some.inj (hcall.symm.trans hcall')
  obtain ⟨source, hsource, hcommitted⟩ := hafter a hanswer
  obtain ⟨run, hrun, hrunId, hend⟩ := h.sound.answered hcall hanswer
  have hrow : source.row = run.project := by
    have hrows := congrArg (fun rows => rows[a.run]?) h.rows
    simp only [List.getElem?_map, hsource, StatusCache.getElem?_origins hrun] at hrows
    exact Option.some.inj hrows
  refine ⟨source, hsource, ?_, hcommitted sync hsync answered hproject hanswered hbefore, ?_⟩
  · rw [hrow, hrunId, hid]
  · rw [hrow]
    exact h.computed a.run run a.result hrun hend

/-- When every run starts with a row from after the synchronizations that have invalidated the cached status, no
request is answered with a status from before a synchronization that had answered. -/
theorem status_fresh (P : Platform) (config : StatusConfig) (db : Db) {events : List StatusServerEvent}
    {s : StatusServer} (hrun : Machine.run (step P config) (start db) events = some s)
    (hfresh : Along (step P config) StartsFresh (start db) events) : Fresh P s := by
  have hcurrent : Current P s :=
    run_invariant (fun h hcond hstep => current_step h hcond hstep) hrun hfresh (current_start P db)
  exact hcurrent.fresh

section Example

def syncedDb : Db where
  projects := [exampleProject]
  secrets := []
  valid := valid_exampleProject

/-- A push of the project that finishes. -/
def nextPush : Transaction :=
  .projectsDataUpdateSyncState (js "p") (js "next") (js "2024-01-03T00:00:00Z") hash1 hash1

/-- A request that comes after a push reads the row of the push. -/
theorem status_fresh_example : ∃ s,
    Machine.run (step runPlatform ⟨none, none⟩) (start syncedDb)
      [.write nextPush, .invalidate 0, .answer 0, .receive (js "p") none, .read 0, .ask 0, .cache (.proceed 0),
        .cache (.complete 0 (.ok ([], 0))), .cache (.notify 0)] = some s ∧ Fresh runPlatform s := by
  refine ⟨_, rfl, @status_fresh runPlatform ⟨none, none⟩ syncedDb
    [.write nextPush, .invalidate 0, .answer 0, .receive (js "p") none, .read 0, .ask 0, .cache (.proceed 0),
      .cache (.complete 0 (.ok ([], 0))), .cache (.notify 0)] _ rfl ?_⟩
  refine ⟨trivial, fun _ h => ?_⟩
  cases h
  refine ⟨trivial, fun _ h => ?_⟩
  cases h
  refine ⟨trivial, fun _ h => ?_⟩
  cases h
  refine ⟨trivial, fun _ h => ?_⟩
  cases h
  refine ⟨trivial, fun _ h => ?_⟩
  cases h
  refine ⟨fun request source hrequest hphase _ sync hsync _ _ => ?_, fun _ _ => ⟨trivial, fun _ _ =>
    ⟨trivial, fun _ _ => ⟨trivial, fun _ _ => trivial⟩⟩⟩⟩
  cases hrequest
  cases hphase
  rw [List.mem_singleton.mp hsync]
  decide

/-- A request reads the row before a push, and asks the cache after its invalidation; a later request is served
the status of the old row. -/
theorem not_status_fresh : ¬ ∀ db events s,
    Machine.run (step runPlatform ⟨none, none⟩) (start db) events = some s → Fresh runPlatform s := by
  intro h
  have hfresh := h syncedDb [.receive (js "p") none, .read 0, .write nextPush, .invalidate 0, .answer 0, .ask 0,
    .cache (.proceed 0), .cache (.complete 0 (.ok ([], 0))), .cache (.notify 0), .receive (js "p") none, .read 1,
    .ask 1] _ rfl
  obtain ⟨source, hsource, -, hcommitted, -⟩ := hfresh ⟨js "p", none, 9, .asked 1⟩
    (List.mem_cons_of_mem _ List.mem_cons_self) 1 _ _ rfl rfl rfl ⟨js "p", 2, true, some 4⟩ List.mem_cons_self 4 rfl
    rfl (by decide)
  cases hsource
  exact absurd hcommitted (by decide)

end Example

end StatusServer

end SecretsManager
