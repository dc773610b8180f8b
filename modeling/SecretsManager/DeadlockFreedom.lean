import Mathlib.Data.Fintype.EquivFin
import SecretsManager.Library.LockFreedom
import SecretsManager.LockDiscipline
import SecretsManager.Runs

/-!
# Locks and restic in every run

What the programs promise holds of every run: while an operation holds a lock it does database work only, its runs
of restic stay in its budget, and the operations underway can always all end, whatever they hold and wait for.
-/

namespace SecretsManager

open Js Interleaving

variable {R : Type} {restic : Restic R} {P : Platform} {timeouts : ResticTimeouts} {admits : Operation → Prop}

/-- No fault comes between: a query, a lock and a file operation succeed, and a transaction commits unless it
violates a constraint. -/
def World.Works (w : World R) : (c : Cmd) → c.Answer → Prop
  | .projectsGet id, a => a = .ok (w.db.project? id)
  | .projectsGetByName name, a => a = .ok (w.db.projects.find? fun p => p.name = name)
  | .projectsList, a => ∃ l, a = .ok l
  | .secretsList _, a => ∃ l, a = .ok l
  | .secretsGet id, a => a = .ok (w.db.secret? id)
  | .transact tx, a => a = (tx.commit w.db).map Prod.snd
  | .acquire _, a | .fs _, a => a = .ok ()
  | .release _, _ | .uuid, _ | .now, _ | .restic _ _, _ => True

/-- Every run of restic ends: a process that does not is stopped. -/
def Restic.Ends (restic : Restic R) : Prop := ∀ r projectId op, ∃ a r', restic.run r projectId op a r'

/-- The lock that a command waits for. -/
def Cmd.waits : Cmd → Option JsString
  | .acquire lock => some lock
  | _ => none

def Held (w : World R) (lock : JsString) (t : Nat) : Prop := (lock, t) ∈ w.locks

theorem usageOutline (P : Platform) (timeouts : ResticTimeouts) (restic : Restic R) (admits : Operation → Prop) :
    Outline (server P timeouts restic admits) (fun op => usage op.budget) .start (fun _ => True)
      (fun _ _ _ _ => True) fun _ _ u => u.held = none :=
  .ofMeets (fun _ _ _ _ => trivial) fun op _ =>
    (costs_serve op 0 (by rw [zero_add])).mono fun _ _ hu => hu.1

/-- What a command does to the locks, the monitor notes. -/
theorem exec_locks {t : Nat} {w w' : World R} {c : Cmd} {a : c.Answer} (h : Exec restic t w c a w') :
    w'.locks = w.locks ∧ (∀ u : Usage, (u.step c a).held = u.held) ∨
      (∃ lock, c = .acquire lock ∧ w'.locks = (lock, t) :: w.locks ∧ ∀ u : Usage, (u.step c a).held = some lock) ∨
      ∃ lock, c = .release lock ∧ w'.locks = w.locks.filter fun l => l ≠ (lock, t) := by
  cases c with
  | projectsGet _ | projectsGetByName _ | projectsList | secretsList _ | secretsGet _ | fs _ =>
      rw [h.1]
      exact Or.inl ⟨rfl, fun _ => rfl⟩
  | transact tx =>
      rcases h with ⟨_, _, rfl⟩ | ⟨_, _, _, rfl⟩ | ⟨_, _, _, _, rfl⟩ <;> exact Or.inl ⟨rfl, fun _ => rfl⟩
  | acquire lock =>
      rcases h with ⟨_, rfl, rfl⟩ | ⟨rfl, _, rfl⟩
      · exact Or.inl ⟨rfl, fun _ => rfl⟩
      · exact Or.inr (Or.inl ⟨lock, rfl, rfl, fun _ => rfl⟩)
  | release lock =>
      rw [show w' = _ from h]
      exact Or.inr (Or.inr ⟨lock, rfl, rfl⟩)
  | uuid =>
      rw [h.2]
      exact Or.inl ⟨rfl, fun _ => rfl⟩
  | now =>
      rw [show w' = w from h]
      exact Or.inl ⟨rfl, fun _ => rfl⟩
  | restic _ _ =>
      obtain ⟨_, _, rfl⟩ := h
      exact Or.inl ⟨rfl, fun _ => rfl⟩

/-- Some id was never generated and is not reserved. -/
theorem exists_unreserved (w : World R) (reserved : List JsString) :
    ∃ id, (∀ t, (id, t) ∉ w.issued) ∧ id ∉ reserved := by
  obtain ⟨id, hid⟩ := Infinite.exists_notMem_finset (w.issued.map Prod.fst ++ reserved).toFinset
  rw [List.mem_toFinset, List.mem_append, not_or] at hid
  exact ⟨id, fun t hmem => hid.1 (List.mem_map_of_mem hmem), hid.2⟩

/-- A command that waits for no held lock has an answer. -/
theorem exists_exec (hrestic : restic.Ends) (t : Nat) (w : World R) (c : Cmd)
    (hfree : ∀ lock, c.waits = some lock → ∀ t', ¬ Held w lock t') : ∃ a w', Exec restic t w c a w' ∧ w.Works c a := by
  cases c with
  | projectsGet _ | projectsGetByName _ | secretsGet _ => exact ⟨_, w, ⟨rfl, Or.inl rfl⟩, rfl⟩
  | projectsList | secretsList _ => exact ⟨.ok _, w, ⟨rfl, Or.inl ⟨_, rfl, .refl _⟩⟩, _, rfl⟩
  | transact tx =>
      cases hcommit : tx.commit w.db with
      | error e =>
          refine ⟨.error e, w, Or.inr (Or.inl ⟨e, hcommit, rfl, rfl⟩), ?_⟩
          rw [World.Works, hcommit]
          rfl
      | ok x =>
          refine ⟨.ok x.2, _, Or.inr (Or.inr ⟨x.1, x.2, hcommit, rfl, rfl⟩), ?_⟩
          rw [World.Works, hcommit]
          rfl
  | acquire lock => exact ⟨.ok (), _, Or.inr ⟨rfl, hfree lock rfl, rfl⟩, rfl⟩
  | release lock => exact ⟨(), _, rfl, trivial⟩
  | uuid =>
      obtain ⟨id, hnew, -⟩ := exists_unreserved w []
      exact ⟨id, _, ⟨hnew, rfl⟩, trivial⟩
  | now => exact ⟨[], w, rfl, trivial⟩
  | restic projectId op =>
      obtain ⟨a, r', hrun⟩ := hrestic w.repository projectId op
      exact ⟨a, _, ⟨r', hrun, rfl⟩, trivial⟩
  | fs op => exact ⟨.ok (), w, ⟨rfl, Or.inl rfl⟩, rfl⟩

theorem locking (P : Platform) (timeouts : ResticTimeouts) (restic : Restic R) (admits : Operation → Prop) :
    Locking (server P timeouts restic admits) (fun op => usage op.budget) .start (fun _ _ u => u.held = none) Cmd.waits
      Held Usage.held where
  spares {op u c lock} hallows hwaits := by
    cases c with
    | acquire _ => exact hallows
    | _ => cases hwaits
  ended h := h
  own {t op trace w c a w' lock} hallows hexec howns hholds := by
    have hown : (lock, t) ∈ w.locks → ((usage op.budget).after .start trace).held = some lock := howns lock
    rcases exec_locks (c := c) hexec with ⟨hlocks, hheld⟩ | ⟨lock', rfl, hlocks, hheld⟩ | ⟨lock', rfl, hlocks⟩
    · rw [Held, hlocks] at hholds
      exact (hheld _).trans (hown hholds)
    · rw [Held, hlocks] at hholds
      rcases List.mem_cons.mp hholds with heq | hmem
      · rw [(Prod.mk.inj heq).1]
        exact hheld _
      · -- it would hold a lock while it waits
        have hnone : ((usage op.budget).after .start trace).held = none := hallows
        rw [hown hmem] at hnone
        cases hnone
    · -- it releases the one that it holds
      rw [Held, hlocks, List.mem_filter] at hholds
      have hheld : ((usage op.budget).after .start trace).held = some lock' := hallows
      rw [hown hholds.1] at hheld
      obtain rfl := Option.some.inj hheld
      exact absurd rfl (of_decide_eq_true hholds.2)
  others {t op trace w c a w' lock t'} hexec hne hholds := by
    rcases exec_locks (c := c) hexec with ⟨hlocks, -⟩ | ⟨lock', -, hlocks, -⟩ | ⟨lock', -, hlocks⟩
    · rwa [Held, hlocks] at hholds
    · rw [Held, hlocks] at hholds
      rcases List.mem_cons.mp hholds with heq | hmem
      · exact absurd (Prod.mk.inj heq).2 hne
      · exact hmem
    · rw [Held, hlocks] at hholds
      exact List.mem_of_mem_filter hholds
  environment {w w' lock t} henv hholds := by
    obtain ⟨r, -, rfl⟩ := henv
    exact hholds

section Reachable
variable {db : Db} {repository : R} {cfg : Config (World R) Cmd Cmd.Answer Failure Response Operation}

theorem sound_reachable (h : (server P timeouts restic admits).Reachable (.initial db repository) cfg) :
    Sound (server P timeouts restic admits) (fun op => usage op.budget) .start (fun _ => True) (fun _ _ _ _ => True)
      (fun _ _ u => u.held = none) Held Usage.held cfg :=
  (usageOutline P timeouts restic admits).sound (locking P timeouts restic admits) trivial
    (fun _ _ hholds => by cases hholds) h

/-- An operation that has ended holds no lock. -/
theorem unlocked_of_ended (h : (server P timeouts restic admits).Reachable (.initial db repository) cfg) {t : Nat}
    {th : Thread (World R) Cmd Cmd.Answer Failure Response Operation} (hth : cfg.threads[t]? = some th)
    (hended : th.prog.result?.isSome = true) (lock : JsString) : (lock, t) ∉ cfg.world.locks := by
  intro hlock
  have hsound := sound_reachable h
  obtain ⟨r, hr⟩ := Option.isSome_iff_exists.mp hended
  have hnone := (hsound.good.threads t th hth).meets.result hr
  have hsome := hsound.owned.owner hth hlock
  rw [Thread.lock?, hnone] at hsome
  cases hsome

/-- What a monitor that knows the lock allows. -/
theorem database_of_held {limit : ResticKind → Nat} {u : Usage} {c : Cmd} {lock : JsString}
    (hallows : (usage limit).allows u c) (hheld : u.held = some lock) : c.Database ∨ c = .release lock := by
  have hne : u.held ≠ none := by
    rw [hheld]
    exact Option.some_ne_none _
  cases c with
  | acquire _ | fs _ => exact absurd hallows hne
  | restic _ _ => exact absurd hallows.1 hne
  | release lock' =>
      obtain rfl := Option.some.inj (hheld.symm.trans hallows)
      exact Or.inr rfl
  | _ => exact Or.inl trivial

/-- **A lock is held only around database work.** In every run, an operation that holds a lock queries, transacts
and takes fresh values until it releases it, and never waits for another lock, runs restic or touches a file; and
when it has ended, with whatever result, it holds none. -/
theorem locks_around_database_work (h : (server P timeouts restic admits).Reachable (.initial db repository) cfg) {t : Nat}
    {th : Thread (World R) Cmd Cmd.Answer Failure Response Operation} (hth : cfg.threads[t]? = some th) :
    (∀ earlier e later, th.trace = earlier ++ e :: later → ∀ lock, (lock, t) ∈ e.before.locks →
      e.cmd.Database ∨ e.cmd = .release lock) ∧
    (∀ c next, th.prog = .call c next → ∀ lock, (lock, t) ∈ cfg.world.locks → c.Database ∨ c = .release lock) ∧
    (∀ r, th.prog.result? = some r → ∀ lock, (lock, t) ∉ cfg.world.locks) := by
  have hsound := sound_reachable h
  have hgood := hsound.good.threads t th hth
  refine ⟨fun earlier e later hsplit lock hlock => ?_, fun c next hcall lock hlock => ?_, fun r hr lock =>
    unlocked_of_ended h hth (hr ▸ rfl) lock⟩
  · exact database_of_held (hgood.past earlier e later hsplit).allowed (hsound.known t th hth earlier e later hsplit lock hlock)
  · have hmeets := hgood.meets
    rw [hcall] at hmeets
    exact database_of_held hmeets.1 (hsound.owned.owner hth hlock)

/-! ## Runs of restic -/

def Cmd.runs (kind : ResticKind) : Cmd → Bool
  | .restic _ op => op.kind = kind
  | _ => false

theorem runs_step (u : Usage) (kind : ResticKind) (c : Cmd) (a : c.Answer) :
    (u.step c a).runs kind = u.runs kind + if c.runs kind then 1 else 0 := by
  cases c with
  | acquire _ => cases a <;> rfl
  | restic _ op =>
      show u.runs kind + (Pi.single op.kind 1 : ResticKind → Nat) kind = _
      simp only [Pi.single_apply, Cmd.runs, decide_eq_true_eq, @eq_comm _ kind]
  | _ => rfl

/-- The monitor has counted the runs, and they stay in the limit. -/
theorem runs_after {limit : ResticKind → Nat} {trace : List (ServerEvent R)}
    (h : ∀ earlier e later, trace = earlier ++ e :: later →
      (usage limit).allows ((usage limit).after .start earlier) e.cmd) (kind : ResticKind) :
    trace.countP (fun e => e.cmd.runs kind) = ((usage limit).after .start trace).runs kind ∧
      ((usage limit).after .start trace).runs kind ≤ limit kind := by
  induction trace using List.reverseRecOn with
  | nil => exact ⟨rfl, Nat.zero_le _⟩
  | append_singleton trace e ih =>
      obtain ⟨hcount, hle⟩ := ih fun earlier x later hsplit => h earlier x (later ++ [e]) (by simp [hsplit])
      have hallows := h trace e [] rfl
      rw [Monitor.after_append]
      have hstep := runs_step ((usage limit).after .start trace) kind e.cmd e.answer
      refine ⟨?_, ?_⟩
      · rw [List.countP_append, hcount]
        exact (congrArg _ (List.countP_singleton ..)).trans hstep.symm
      · refine hstep.le.trans ?_
        split_ifs with hruns
        · -- a run that is allowed is one of those that are left
          obtain ⟨w, c, a, w'⟩ := e
          cases c with
          | restic _ op =>
              obtain rfl : op.kind = kind := of_decide_eq_true hruns
              exact hallows.2
          | _ => cases hruns
        · exact hle

/-- **The runs of restic of a request are bounded**, at every moment of every run: a push makes one backup and one
initialization at most, and no restore; a confirmation or a preview makes one listing and one restore at most, and
never writes to the repository; the other operations run no restic. -/
theorem restic_runs_bounded (h : (server P timeouts restic admits).Reachable (.initial db repository) cfg) {t : Nat}
    {th : Thread (World R) Cmd Cmd.Answer Failure Response Operation} (hth : cfg.threads[t]? = some th) (kind : ResticKind) :
    th.trace.countP (fun e => e.cmd.runs kind) ≤ th.req.budget kind := by
  have hgood := (sound_reachable h).good.threads t th hth
  obtain ⟨hcount, hle⟩ := runs_after (fun earlier e later hsplit => (hgood.past earlier e later hsplit).allowed) kind
  exact hcount.le.trans hle

/-! ## Freedom from deadlock -/

/-- **The operations underway can all end.** In every reachable configuration, whatever locks they hold and wait for,
there is a way on for those underway alone, with no further request, no outside change and no fault, to a
configuration in which each has its result and no lock is held. -/
theorem operations_finish (hrestic : restic.Ends)
    (h : (server P timeouts restic admits).Reachable (.initial db repository) cfg) :
    ∃ cfg', ((server P timeouts restic admits).finishing fun _ w c a _ => w.Works c a).Steps cfg cfg' ∧
      (∀ th ∈ cfg'.threads, th.prog.result?.isSome = true) ∧ cfg'.world.locks = [] := by
  have hanswers : Answers (server P timeouts restic admits) (fun op => usage op.budget) .start (fun _ => True)
      (fun _ _ _ _ => True) (fun _ w c a _ => w.Works c a) Cmd.waits Held :=
    fun {t _ _ w c} _ _ _ hfree => exists_exec hrestic t w c hfree
  obtain ⟨cfg', hsteps, hended, hfree⟩ :=
    (usageOutline P timeouts restic admits).finishes (locking P timeouts restic admits) hanswers (sound_reachable h)
  refine ⟨cfg', hsteps, hended, ?_⟩
  rw [List.eq_nil_iff_forall_not_mem]
  exact fun l hl => hfree l.1 l.2 hl

end Reachable

section Example

theorem ends_snapshots : Snapshots.restic.Ends := fun r _ op => ⟨(Snapshots.run r op).1, (Snapshots.run r op).2, rfl⟩

def deletion : Operation := .deleteSecret (js "p") (js "a")

/-- The first of two deletions holds the lock that the second waits for. -/
def contested : List (Move Operation JsString) := [.spawn deletion, .spawn deletion, .run 0 exampleNow]

/-- The configuration after these moves. -/
theorem exists_contested :
    ∃ cfg, (server runPlatform exampleTimeouts Snapshots.restic fun _ => True).Reachable (.initial editedDb []) cfg ∧
      ends cfg = [(deletion, none), (deletion, none)] ∧ cfg.world.locks = [(projectWriteLockName (js "p"), 0)] := by
  obtain ⟨cfg, hplay, hends⟩ : ∃ cfg, playExample contested (.initial editedDb []) = some cfg ∧
      (ends cfg, cfg.world.locks) = ([(deletion, none), (deletion, none)], [(projectWriteLockName (js "p"), 0)]) :=
    Option.map_eq_some_iff.mp rfl
  exact ⟨cfg, playExample_reachable (fun _ _ => trivial) hplay, (Prod.mk.inj hends).1, (Prod.mk.inj hends).2⟩

theorem operations_finish_contested :
    ∃ cfg, (server runPlatform exampleTimeouts Snapshots.restic fun _ => True).Reachable (.initial editedDb []) cfg ∧
      ends cfg = [(deletion, none), (deletion, none)] ∧ cfg.world.locks = [(projectWriteLockName (js "p"), 0)] ∧
      ∃ cfg', ((server runPlatform exampleTimeouts Snapshots.restic fun _ => True).finishing fun _ w c a _ => w.Works c a).Steps cfg cfg' ∧
        (∀ th ∈ cfg'.threads, th.prog.result?.isSome = true) ∧ cfg'.world.locks = [] := by
  obtain ⟨cfg, hreachable, hends, hlocks⟩ := exists_contested
  exact ⟨cfg, hreachable, hends, hlocks, operations_finish ends_snapshots hreachable⟩

theorem locks_around_database_work_contested :
    ∃ cfg th, (server runPlatform exampleTimeouts Snapshots.restic fun _ => True).Reachable (.initial editedDb []) cfg ∧
      cfg.threads[0]? = some th ∧ (projectWriteLockName (js "p"), 0) ∈ cfg.world.locks ∧
      ∀ c next, th.prog = .call c next → c.Database ∨ c = .release (projectWriteLockName (js "p")) := by
  obtain ⟨cfg, hreachable, hends, hlocks⟩ := exists_contested
  obtain ⟨th, hth, -, -⟩ := thread_of_ends hends (t := 0) rfl
  have hholds : (projectWriteLockName (js "p"), 0) ∈ cfg.world.locks := by
    rw [hlocks]
    exact List.mem_singleton_self _
  exact ⟨cfg, th, hreachable, hth, hholds, fun c next hcall =>
    (locks_around_database_work hreachable hth).2.1 c next hcall _ hholds⟩

theorem restic_runs_bounded_restore :
    ∃ cfg th, (server runPlatform exampleTimeouts Snapshots.restic fun _ => True).Reachable
        (.initial editedDb [(js "s1", exampleFiles "1")]) cfg ∧
      cfg.threads[0]? = some th ∧ th.prog.result? = some (.ok swapped) ∧
      ∀ kind, th.trace.countP (fun e => e.cmd.runs kind) ≤ restoreRuns kind := by
  obtain ⟨cfg, hplay, hends⟩ : ∃ cfg, playExample swapMoves (.initial editedDb [(js "s1", exampleFiles "1")]) = some cfg ∧
      ends cfg = [(swap, some (.ok swapped))] :=
    Option.map_eq_some_iff.mp rfl
  obtain ⟨th, hth, hop, hresult⟩ := thread_of_ends hends (t := 0) rfl
  have hreachable := playExample_reachable (fun _ _ => trivial) hplay
  refine ⟨cfg, th, hreachable, hth, hresult, fun kind => ?_⟩
  have hbudget : th.req.budget = restoreRuns := by
    rw [hop]
    rfl
  rw [← hbudget]
  exact restic_runs_bounded hreachable hth kind

end Example

end SecretsManager
