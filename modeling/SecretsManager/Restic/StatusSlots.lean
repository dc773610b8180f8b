import SecretsManager.Library.Semaphore
import SecretsManager.Restic.SyncStatusCache
import SecretsManager.Runs

/-!
# The slots of status runs

The counter of active runs, the queue of waiters and the phases of all runs are a semaphore: a request arrives
at it with its run, aborts cancel, and the end of a restic process hands the slot on. Every event is one turn of
the semaphore.
-/

namespace SecretsManager

open Js Machine

/-! ## The semaphore of a status cache -/

/-- How a run ends, also one that never got a slot. -/
abbrev RunOutcome := Except Failure SyncStatusResult

/-- A run holds its slot from the grant on, until the end of its restic process. -/
def RunPhase.place : RunPhase → Place RunOutcome
  | .waiting => .waiting
  | .granted => .holding
  | .refused e => .settled (.error e)
  | .running => .holding
  | .settled outcome => .settled outcome

namespace StatusCache

def places (s : StatusCache) : List (Place RunOutcome) := s.runs.map fun run => run.phase.place

def slots (s : StatusCache) : Semaphore RunOutcome := ⟨s.activeRuns, s.waiters, s.places⟩

def Turn (config : StatusConfig) (s s' : StatusCache) : Prop :=
  Semaphore.Turn maxConcurrent (maxWaiters config) (.error queueFullError) (.error clientDisconnectedError) s.slots s'.slots

variable {s s' : StatusCache} {config : StatusConfig} {r : Nat}

theorem getElem?_places (s : StatusCache) (r : Nat) : s.places[r]? = s.runs[r]?.map fun run => run.phase.place :=
  List.getElem?_map ..

theorem length_places (s : StatusCache) : s.places.length = s.runs.length := List.length_map ..

theorem places_updateRun_same {f : StatusRun → StatusRun}
    (hf : ∀ run, s.runs[r]? = some run → (f run).phase.place = run.phase.place) :
    (s.updateRun r f).places = s.places := by
  apply List.ext_getElem?
  intro r'
  rw [getElem?_places, getElem?_places, getElem?_updateRun]
  cases hrun : s.runs[r']? with
  | none => rfl
  | some run =>
      rw [Option.map_some, Option.map_some, Option.map_some]
      split_ifs with hr
      · subst hr
        rw [hf run hrun]
      · rfl

theorem places_updateRun_phase (s : StatusCache) (r : Nat) (phase : RunPhase) :
    (s.updateRun r ({ · with phase := phase })).places = s.places.set r phase.place := by
  apply List.ext_getElem?
  intro r'
  rw [getElem?_places, getElem?_updateRun, List.getElem?_set, getElem?_places, length_places]
  cases hrun : s.runs[r']? with
  | none =>
      rw [Option.map_none, Option.map_none]
      split_ifs with hr hlt
      · subst hr
        rw [List.getElem?_eq_getElem hlt] at hrun
        cases hrun
      · rfl
      · rfl
  | some run =>
      rw [Option.map_some, Option.map_some, Option.map_some]
      split_ifs with hr hlt
      · rfl
      · subst hr
        exact absurd (List.getElem?_eq_some_iff.mp hrun).1 hlt
      · rfl

/-! ## Each operation is a turn -/

theorem slots_startRun (config : StatusConfig) (s : StatusCache) (project : Project) (background : Bool) :
    (s.startRun config project background).slots =
      s.slots.arrive maxConcurrent (maxWaiters config) (.error queueFullError) := by
  unfold startRun acquireSlot Semaphore.arrive slots
  split_ifs
  · simp only [places, List.map_append, List.map_cons, List.map_nil, RunPhase.place]
  · simp only [places, List.map_append, List.map_cons, List.map_nil, RunPhase.place]
  · simp only [places, List.map_append, List.map_cons, List.map_nil, RunPhase.place, List.length_map]

theorem slots_joinRun (s : StatusCache) (r : Nat) (projectId : JsString) (signal : Option Nat) :
    (s.joinRun r projectId signal).slots = s.slots := by
  have hplaces : (s.joinRun r projectId signal).places = s.places := places_updateRun_same fun run _ => rfl
  unfold slots
  rw [hplaces]
  rfl

theorem turn_of_slots (h : s'.slots = s.slots) : Turn config s s' := by
  unfold Turn
  rw [h]
  exact .cancels []

theorem turn_get (config : StatusConfig) (s : StatusCache) (project : Project) (signal : Option Nat) :
    Turn config s (s.get config project signal) := by
  have hstart : ∀ background, Turn config s (s.startRun config project background) := by
    intro background
    unfold Turn
    rw [slots_startRun]
    exact .arrive
  unfold get
  split
  · exact turn_of_slots rfl
  · split
    · split_ifs
      · exact turn_of_slots rfl
      · exact turn_of_slots rfl
      · exact hstart true
    · split
      · exact turn_of_slots (slots_joinRun ..)
      · unfold Turn
        rw [slots_joinRun]
        exact hstart false

theorem slots_cancel (s : StatusCache) (r : Nat) :
    (s.cancel r).slots = s.slots.cancel (.error clientDisconnectedError) r := by
  unfold cancel Semaphore.cancel
  have hplace : s.slots.places[r]? = _ := getElem?_places s r
  rw [hplace]
  cases hrun : s.runs[r]? with
  | none => rfl
  | some run =>
      dsimp only [Option.map_some]
      cases hphase : run.phase with
      | waiting =>
          rw [if_pos rfl]
          unfold slots
          congr 1
          exact places_updateRun_phase s r _
      | granted => rfl
      | refused e => rfl
      | running => rfl
      | settled outcome => rfl

theorem slots_abort (s : StatusCache) (r : Nat) :
    (s.abort r).slots = s.slots.cancel (.error clientDisconnectedError) r := by
  have hplaces : (s.updateRun r ({ · with aborted := true })).places = s.places := places_updateRun_same fun run _ => rfl
  unfold abort
  rw [slots_cancel]
  unfold slots
  rw [hplaces]
  rfl

theorem slots_finish (s : StatusCache) (c : Nat) (answer : Except Failure StatusAnswer) :
    (s.finish c answer).slots = s.slots := by
  unfold finish
  split
  · rename_i r _
    have hplaces : (s.updateRun r fun run => { run with tokens := run.tokens.erase c }).places = s.places :=
      places_updateRun_same fun run _ => rfl
    unfold slots
    congr 1
  · rfl

theorem slots_disconnectCall (signal : Nat) (s : StatusCache) (c : Nat) :
    ∃ rs : List Nat, (disconnectCall signal s c).slots =
      rs.foldl (Semaphore.cancel (.error clientDisconnectedError)) s.slots := by
  unfold disconnectCall
  split
  · rename_i r _
    split_ifs
    · dsimp only
      split
      · split_ifs
        · refine ⟨[r], ?_⟩
          rw [slots_abort, slots_finish]
          rfl
        · exact ⟨[], slots_finish ..⟩
      · exact ⟨[], slots_finish ..⟩
    · exact ⟨[], rfl⟩
  · exact ⟨[], rfl⟩

theorem turn_disconnect (config : StatusConfig) (s : StatusCache) (signal : Nat) :
    Turn config s (s.disconnect signal) := by
  have hall : ∀ (l : List Nat) (s : StatusCache), ∃ rs : List Nat, (l.foldl (disconnectCall signal) s).slots =
      rs.foldl (Semaphore.cancel (.error clientDisconnectedError)) s.slots := by
    intro l
    induction l with
    | nil => exact fun s => ⟨[], rfl⟩
    | cons c l ih =>
        intro s
        obtain ⟨rs, hrs⟩ := slots_disconnectCall signal s c
        obtain ⟨rs', hrs'⟩ := ih (disconnectCall signal s c)
        refine ⟨rs ++ rs', ?_⟩
        rw [List.foldl_cons, hrs', hrs, List.foldl_append]
  unfold disconnect
  split_ifs
  · exact turn_of_slots rfl
  · obtain ⟨rs, hrs⟩ := hall (List.range s.calls.length) { s with abortedSignals := signal :: s.abortedSignals }
    unfold Turn
    rw [hrs]
    exact .cancels rs

theorem turn_invalidate (config : StatusConfig) (s : StatusCache) (projectId : JsString) :
    Turn config s (s.invalidate projectId) := by
  unfold invalidate
  split
  · rename_i r _
    unfold Turn
    rw [slots_abort]
    exact .cancels [r]
  · exact turn_of_slots rfl

/-- The waiters are waiting, so that the grant of the slot comes to pass. -/
theorem slots_complete (h : s.slots.Exact maxConcurrent) {run : StatusRun} (hrun : s.runs[r]? = some run)
    (hphase : run.phase = .running) (outcome : RunOutcome) :
    (s.complete config r run outcome).slots = s.slots.finish r outcome := by
  have hholds : s.slots.places[r]? = some .holding := by
    show s.places[r]? = some .holding
    rw [getElem?_places, hrun, Option.map_some, hphase]
    rfl
  have hsettle : (s.releaseSlot.settle r run.project.id outcome).slots = s.slots.finish r outcome := by
    have hplaces : (s.releaseSlot.settle r run.project.id outcome).places =
        s.releaseSlot.places.set r (.settled outcome) := places_updateRun_phase s.releaseSlot r (.settled outcome)
    unfold slots
    rw [hplaces]
    unfold Semaphore.finish
    cases hwaiters : s.waiters with
    | nil => simp only [releaseSlot, hwaiters, settle, updateRun, places]
    | cons next rest =>
        obtain ⟨hnext, hne⟩ := h.next_waits hholds (by show s.waiters.head? = some next; rw [hwaiters]; rfl)
        have hwaits : s.places[next]? = some .waiting := hnext
        rw [getElem?_places] at hwaits
        obtain ⟨run', hrun', hplace⟩ := Option.map_eq_some_iff.mp hwaits
        have hwaiting : run'.phase = .waiting := by
          cases hphase' : run'.phase with
          | waiting => rfl
          | granted | refused _ | running | settled _ =>
              rw [hphase'] at hplace
              cases hplace
        have hgrant := places_updateRun_phase s next .granted
        simp only [releaseSlot, hwaiters, grant, hrun', if_pos hwaiting, settle]
        show Semaphore.mk (s.activeRuns - 1 + 1) rest ((s.updateRun next _).places.set r _) = _
        rw [hgrant, List.set_comm _ _ hne.symm]
        rfl
  unfold complete
  cases outcome with
  | error e => exact hsettle
  | ok result =>
      dsimp only
      split_ifs
      · rw [releaseSlot_cache]
        exact hsettle
      · exact hsettle

section Platform
variable {P : Platform}

theorem turn_step {e : StatusEvent} (h : s.slots.Exact maxConcurrent) (hstep : s.step P config e = some s') :
    Turn config s s' := by
  cases stepped_of_step hstep with
  | get project signal => exact turn_get config s project signal
  | disconnect signal => exact turn_disconnect config s signal
  | invalidate projectId => exact turn_invalidate config s projectId
  | setTime now => exact turn_of_slots rfl
  | @proceed r run hrun hphase =>
      have hplaces : (s.updateRun r ({ · with phase := .running })).places = s.places := by
        refine places_updateRun_same fun run' hrun' => ?_
        obtain rfl := Option.some.inj (hrun.symm.trans hrun')
        rw [hphase]
        rfl
      refine turn_of_slots ?_
      unfold slots
      rw [hplaces]
      rfl
  | @refuse r run e hrun hphase =>
      have hplaces : (s.updateRun r ({ · with phase := .settled (.error e) })).places = s.places := by
        refine places_updateRun_same fun run' hrun' => ?_
        obtain rfl := Option.some.inj (hrun.symm.trans hrun')
        rw [hphase]
        rfl
      refine turn_of_slots ?_
      unfold slots
      congr 1
  | @complete r run outcome hrun hphase hkilled =>
      unfold Turn
      rw [slots_complete h hrun hphase]
      refine .finish _ ?_
      show s.places[r]? = some .holding
      rw [getElem?_places, hrun, Option.map_some, hphase]
      rfl
  | notify hcall hrun hphase => exact turn_of_slots (slots_finish ..)

/-- A step with the configuration that is in force at the event. -/
def stepIn (P : Platform) (s : StatusCache) (e : StatusConfig × StatusEvent) : Option StatusCache := s.step P e.1 e.2

theorem exact_step {e : StatusConfig × StatusEvent} (h : s.slots.Exact maxConcurrent)
    (hstep : stepIn P s e = some s') : s'.slots.Exact maxConcurrent :=
  h.turn (turn_step h hstep)

theorem exact_run {events : List (StatusConfig × StatusEvent)} (hrun : Machine.run (stepIn P) start events = some s) :
    s.slots.Exact maxConcurrent :=
  run_keeps (I := fun s => s.slots.Exact maxConcurrent) exact_step hrun Semaphore.exact_empty

end Platform

/-! ## Every state -/

def StatusRun.holdsSlot (run : StatusRun) : Bool := run.phase = .granted ∨ run.phase = .running

theorem holdsSlot_eq (run : StatusRun) : StatusRun.holdsSlot run = run.phase.place.isHolding := by
  unfold StatusRun.holdsSlot
  cases run.phase <;> rfl

theorem place_eq_waiting {phase : RunPhase} : phase.place = .waiting ↔ phase = .waiting := by
  cases phase with
  | waiting => exact iff_of_true rfl rfl
  | granted | refused _ | running | settled _ => exact ⟨nofun, nofun⟩

/-- The slots that are counted are those that runs hold, a waiter is queued only while all are taken, the queue
has the waiting runs in the order of their arrival, and all slots are free once all runs have ended. -/
structure SlotsExact (s : StatusCache) : Prop where
  active : s.activeRuns = s.runs.countP StatusRun.holdsSlot
  bound : s.activeRuns ≤ maxConcurrent
  full : s.waiters ≠ [] → s.activeRuns = maxConcurrent
  queued : ∀ r, r ∈ s.waiters ↔ ∃ run, s.runs[r]? = some run ∧ run.phase = .waiting
  arrival : s.waiters.Pairwise (· < ·)
  idle : (∀ run ∈ s.runs, ∃ outcome, run.phase = .settled outcome) → s.activeRuns = 0 ∧ s.waiters = []

theorem slotsExact_of_exact (h : s.slots.Exact maxConcurrent) : SlotsExact s where
  active := by
    have hactive : s.activeRuns = (s.runs.map fun run => run.phase.place).countP Place.isHolding := h.active
    rw [hactive, List.countP_map]
    congr 1
    funext run
    exact (holdsSlot_eq run).symm
  bound := h.bound
  full := h.full
  queued r := by
    have hqueued : r ∈ s.waiters ↔ s.places[r]? = some .waiting := h.queued r
    rw [hqueued, getElem?_places, Option.map_eq_some_iff]
    exact exists_congr fun run => and_congr_right fun _ => place_eq_waiting
  arrival := h.ordered
  idle hsettled := by
    refine h.idle (by decide) fun place hplace => ?_
    obtain ⟨run, hrun, rfl⟩ := List.mem_map.mp hplace
    obtain ⟨outcome, hphase⟩ := hsettled run hrun
    rw [hphase]
    rfl

/-! ## Every step -/

section Changes
variable (s s' : StatusCache) (r : Nat)

def JoinsQueue : Prop := r ∉ s.waiters ∧ r ∈ s'.waiters

def Granted : Prop := s.places[r]? = some .waiting ∧ s'.places[r]? = some .holding

def Cancelled : Prop :=
  s.places[r]? = some .waiting ∧ s'.places[r]? = some (.settled (.error clientDisconnectedError))

instance : Decidable (JoinsQueue s s' r) := inferInstanceAs (Decidable (_ ∧ _))

instance : Decidable (Granted s s' r) := inferInstanceAs (Decidable (_ ∧ _))

instance : Decidable (Cancelled s s' r) := inferInstanceAs (Decidable (_ ∧ _))

/-- Only a new run joins the queue, and only below its limit. A waiter that leaves it is granted a slot or
cancelled. No run gets a slot before a waiter that came earlier, and a run that ends hands its slot to the
first of them. -/
structure SlotsStep (config : StatusConfig) : Prop where
  joins : ∀ r, JoinsQueue s s' r → r = s.runs.length ∧ s.activeRuns = maxConcurrent ∧
    (s.waiters.length : Int) < maxWaiters config
  leaves : ∀ r ∈ s.waiters, r ∉ s'.waiters → Granted s s' r ∨ Cancelled s s' r
  inOrder : ∀ r : Nat, s.places[r]? ≠ some .holding → s'.places[r]? = some .holding → ∀ r' ∈ s.waiters, r ≤ r'
  handedOn : ∀ (r : Nat) (outcome : RunOutcome) (next : Nat), s.places[r]? = some .holding → s'.places[r]? = some (.settled outcome) →
    s.waiters.head? = some next → Granted s s' next

end Changes

/-- What a turn makes of a run. -/
abbrev Change (config : StatusConfig) (s s' : StatusCache) (r : Nat) :
    Option (Place RunOutcome) → Option (Place RunOutcome) → Prop :=
  Semaphore.Change maxConcurrent (maxWaiters config) (.error queueFullError) (.error clientDisconnectedError) s.slots s'.slots r

theorem change_of_turn (h : s.slots.Exact maxConcurrent) (ht : Turn config s s') (r : Nat) :
    Change config s s' r s.places[r]? s'.places[r]? :=
  h.change ht r

theorem slotsStep_of_turn (h : s.slots.Exact maxConcurrent) (ht : Turn config s s') : SlotsStep s s' config := by
  have h' := h.turn ht
  have hqueued : ∀ r, r ∈ s.waiters ↔ s.places[r]? = some .waiting := h.queued
  have hqueued' : ∀ r, r ∈ s'.waiters ↔ s'.places[r]? = some .waiting := h'.queued
  refine ⟨fun r hjoins => ?_, fun r hr hr' => ?_, fun r hnot hholds r' hr' => ?_, fun r outcome next hholds hends hhead => ?_⟩
  · rw [JoinsQueue, hqueued, hqueued'] at hjoins
    obtain ⟨hnot, hwaits⟩ := hjoins
    have hchange := change_of_turn h ht r
    rw [hwaits] at hchange
    generalize s.places[r]? = place at hchange hnot
    cases hchange with
    | none => exact absurd rfl hnot
    | joins hr hfull hlt => exact ⟨hr.trans (length_places s), hfull, hlt⟩
  · rw [hqueued] at hr
    rw [hqueued'] at hr'
    have hchange := change_of_turn h ht r
    rw [hr] at hchange
    unfold Granted Cancelled
    generalize s'.places[r]? = place at hchange hr'
    cases hchange with
    | none => exact absurd rfl hr'
    | granted => exact Or.inl ⟨hr, rfl⟩
    | cancelled => exact Or.inr ⟨hr, rfl⟩
  · have hchange := change_of_turn h ht r
    rw [hholds] at hchange
    generalize s.places[r]? = place at hchange hnot
    cases hchange with
    | none => exact absurd rfl hnot
    | starts hr hempty =>
        have hnil : s.waiters = [] := hempty
        rw [hnil] at hr'
        cases hr'
    | granted hhead => exact h.first_le hhead hr'
  · have hchange := change_of_turn h ht r
    rw [hholds, hends] at hchange
    cases hchange with
    | ends outcome htail hgranted => exact ⟨(hqueued next).mp (List.mem_of_head? hhead), hgranted next hhead⟩

/-! ## Every run -/

section Platform
variable (P : Platform)

/-- How often the runs' slots have changed in this way. -/
def times (Happens : StatusCache → StatusCache → Prop) [DecidableRel Happens]
    (events : List (StatusConfig × StatusEvent)) : Nat :=
  total (stepIn P) (fun s s' => if Happens s s' then 1 else 0) start events

/-- The waiter of a run has joined the queue at most once, and has been settled once for that when it is no
longer queued, by a grant or by a cancellation. -/
structure SettledOnce (events : List (StatusConfig × StatusEvent)) (s : StatusCache) (r : Nat) : Prop where
  joined : times P (JoinsQueue · · r) events ≤ 1
  settled : times P (Granted · · r) events + times P (Cancelled · · r) events + (if r ∈ s.waiters then 1 else 0) =
    times P (JoinsQueue · · r) events

variable {P}

theorem balance_step {e : StatusConfig × StatusEvent} (h : s.slots.Exact maxConcurrent)
    (hstep : stepIn P s e = some s') (r : Nat) : (if r ∈ s'.waiters then 1 else 0) +
      ((if Granted s s' r then 1 else 0) + (if Cancelled s s' r then 1 else 0)) =
    (if r ∈ s.waiters then 1 else 0) + (if JoinsQueue s s' r then 1 else 0) := by
  have ht := turn_step h hstep
  have hqueued : r ∈ s.waiters ↔ s.places[r]? = some .waiting := h.queued r
  have hqueued' : r ∈ s'.waiters ↔ s'.places[r]? = some .waiting := (h.turn ht).queued r
  have hjoins : JoinsQueue s s' r ↔ s.places[r]? ≠ some .waiting ∧ s'.places[r]? = some .waiting :=
    and_congr (not_congr hqueued) hqueued'
  have hgranted : Granted s s' r ↔ s.places[r]? = some .waiting ∧ s'.places[r]? = some .holding := Iff.rfl
  have hcancelled : Cancelled s s' r ↔
      s.places[r]? = some .waiting ∧ s'.places[r]? = some (.settled (.error clientDisconnectedError)) := Iff.rfl
  have hchange := change_of_turn h ht r
  rw [if_congr hqueued rfl rfl, if_congr hqueued' rfl rfl, if_congr hjoins rfl rfl, if_congr hgranted rfl rfl,
    if_congr hcancelled rfl rfl]
  generalize s.places[r]? = place at hchange
  generalize s'.places[r]? = place' at hchange
  cases hchange with
  | none =>
      cases place with
      | none => simp
      | some place => cases place <;> simp
  | starts | turnedAway | joins | granted | cancelled | ends => simp

theorem joins_step {e : StatusConfig × StatusEvent} (h : s.slots.Exact maxConcurrent)
    (hstep : stepIn P s e = some s') (r : Nat) : (if r < s.runs.length then 1 else 0) +
      (if JoinsQueue s s' r then 1 else 0) ≤ if r < s'.runs.length then 1 else 0 := by
  have ht := turn_step h hstep
  have hexists : ∀ s : StatusCache, r < s.runs.length ↔ s.places[r]?.isSome = true := by
    intro s
    rw [← length_places, isSome_getElem?]
  have hjoins : JoinsQueue s s' r ↔ s.places[r]? ≠ some .waiting ∧ s'.places[r]? = some .waiting :=
    and_congr (not_congr (h.queued r)) ((h.turn ht).queued r)
  have hchange := change_of_turn h ht r
  rw [if_congr (hexists s) rfl rfl, if_congr (hexists s') rfl rfl, if_congr hjoins rfl rfl]
  generalize s.places[r]? = place at hchange
  generalize s'.places[r]? = place' at hchange
  cases hchange with
  | none =>
      cases place with
      | none => simp
      | some place => cases place <;> simp
  | starts | turnedAway | joins | granted | cancelled | ends => simp

theorem settledOnce_run {events : List (StatusConfig × StatusEvent)}
    (hrun : Machine.run (stepIn P) start events = some s) (r : Nat) : SettledOnce P events s r where
  joined := by
    have hle : (if r < start.runs.length then 1 else 0) + times P (JoinsQueue · · r) events ≤
        if r < s.runs.length then 1 else 0 :=
      total_le (I := fun s => s.slots.Exact maxConcurrent) exact_step (fun h hstep => joins_step h hstep r) hrun
        Semaphore.exact_empty
    refine Nat.le_trans (Nat.le_add_left _ _) (hle.trans ?_)
    split_ifs
    · exact Nat.le_refl _
    · exact Nat.zero_le _
  settled := by
    have hbalance : (if r ∈ s.waiters then 1 else 0) + total (stepIn P) (fun s s' =>
          (if Granted s s' r then 1 else 0) + (if Cancelled s s' r then 1 else 0)) start events =
        (if r ∈ start.waiters then 1 else 0) + times P (JoinsQueue · · r) events :=
      total_balance (I := fun s => s.slots.Exact maxConcurrent) exact_step (fun h hstep => balance_step h hstep r) hrun
        Semaphore.exact_empty
    rw [total_add, if_neg (show r ∉ start.waiters from List.not_mem_nil), Nat.zero_add] at hbalance
    rw [← hbalance, Nat.add_comm]
    rfl

end Platform

/-- The slots are accounted for exactly in every reachable state, at every step from one, and over every run. -/
theorem slots_exact (P : Platform) {events : List (StatusConfig × StatusEvent)} {s : StatusCache}
    (hrun : Machine.run (stepIn P) start events = some s) :
    SlotsExact s ∧ (∀ e s', stepIn P s e = some s' → SlotsStep s s' e.1) ∧ ∀ r, SettledOnce P events s r :=
  have h := exact_run hrun
  ⟨slotsExact_of_exact h, fun _ _ hstep => slotsStep_of_turn h (turn_step h hstep), settledOnce_run hrun⟩

/-- Six projects: three checks run, two wait, and the last finds the queue full. The first check is invalidated
just after its grant, and so is the first waiter; the other gets the slot. -/
def queueEvents : List (StatusConfig × StatusEvent) :=
  ["a", "b", "c", "d", "e", "f"].map (fun id => (⟨none, some 2⟩, .get { exampleProject with id := js id } none)) ++
    [(⟨none, none⟩, .invalidate (js "a")), (⟨none, none⟩, .proceed 0), (⟨none, none⟩, .invalidate (js "d")),
      (⟨none, none⟩, .complete 0 (.error clientDisconnectedError))]

theorem slots_exact_example : ∃ s, Machine.run (stepIn runPlatform) start queueEvents = some s ∧ s.activeRuns = 3 ∧
    SlotsExact s ∧ (∀ e s', stepIn runPlatform s e = some s' → SlotsStep s s' e.1) ∧
    ∀ r, SettledOnce runPlatform queueEvents s r :=
  ⟨_, rfl, rfl, slots_exact runPlatform rfl⟩

end StatusCache

end SecretsManager
