import Mathlib.Algebra.Group.Action.Defs
import Mathlib.Algebra.Order.BigOperators.Group.Finset
import SecretsManager.Restic.LockStages

/-!
# The chains of a project are queues

The tasks of a project run one after the other in the order of the calls, whatever becomes of each, and a chain
that is through leaves no entry. What waits once the jobs have run waits for a running task of its own project.
-/

namespace SecretsManager

open Js

namespace SyncLocks

variable {α ε : Type} {s s' : SyncLocks α ε} {c : TailChain ChainKey} {stage : Nat → CallStage α ε} {k : Nat}

/-! ## Every step -/

theorem rank_update {new : CallStage α ε} (hrank : (stage k).rank ≤ new.rank) (i : Nat) :
    (stage i).rank ≤ (Function.update stage k new i).rank := by
  by_cases hi : i = k
  · rw [hi, Function.update_self]
    exact hrank
  · rw [Function.update_of_ne hi]

/-- The calls come to later stages, one of them by a job. -/
structure Advanced (s s' : SyncLocks α ε) (stage stage' : Nat → CallStage α ε) (jobs : Nat) : Prop where
  length : s.calls.length ≤ s'.calls.length
  rank : ∀ i, (stage i).rank ≤ (stage' i).rank
  job : 0 < jobs → ∃ i < s.calls.length, (stage i).rank < (stage' i).rank

theorem Advanced.update (h : Follows s c stage) (hlength : s.calls.length ≤ s'.calls.length) {new : CallStage α ε}
    {jobs : Nat} (hrank : (stage k).rank + jobs ≤ new.rank) (hmade : (stage k).mode ≠ .unmade) :
    Advanced s s' stage (Function.update stage k new) jobs where
  length := hlength
  rank := rank_update (Nat.le_trans (Nat.le_add_right _ _) hrank)
  job hjobs := by
    refine ⟨k, h.lt_length hmade, ?_⟩
    rw [Function.update_self]
    omega

theorem follows_job (h : Follows s c stage) (hstack : s.onStack = none) {job : LockJob α ε} {rest : List (LockJob α ε)}
    (hjobs : s.promises.jobs = job :: rest) : ∃ c' stage',
      Follows ((s.taken rest).runJob job) c' stage' ∧ Advanced s ((s.taken rest).runJob job) stage stage' 1 := by
  obtain ⟨order, hqueued⟩ := h.queued
  rw [hjobs] at hqueued
  obtain ⟨k, order', hjob, hbut⟩ := hqueued.head
  cases hstage : stage k with
  | unmade | waiting _ | started _ | adopted | cleaned _ =>
      rw [hstage] at hjob
      cases hjob
  | ready =>
      rw [hstage] at hjob
      cases hjob
      have hfollows := follows_start_task h hstack hstage hbut
      refine ⟨c, _, hfollows, .update h (Nat.le_of_eq ?_) (by rw [hstage]; exact Nat.le_refl _) (by rw [hstage]; nofun)⟩
      exact (List.length_modify ..).symm
  | adopting done =>
      rw [hstage] at hjob
      cases hjob
      refine ⟨c, _, follows_adopt h hstage hbut, .update h (by exact Nat.le_refl _) ?_ (by rw [hstage]; nofun)⟩
      rw [hstage]
      cases done <;> exact Nat.le_refl _
  | settling outcome =>
      rw [hstage] at hjob
      cases hjob
      exact ⟨c, _, follows_settle_result h hstage hbut,
        .update h (by exact Nat.le_refl _) (by rw [hstage]; exact Nat.le_refl _) (by rw [hstage]; nofun)⟩
  | settled outcome =>
      rw [hstage] at hjob
      cases hjob
      refine ⟨_, _, follows_swallow h hstage hbut, Nat.le_refl _, fun i => ?_, fun _ => ⟨k, ?_, ?_⟩⟩
      · rcases drained_cases h hstage i with ⟨rfl, -, hnew⟩ | ⟨-, -, hold, hnew⟩ | ⟨-, -, hnew⟩
        · rw [hnew, hstage]
          exact Nat.le_succ _
        · rw [hnew, hold]
          exact Nat.le_refl _
        · rw [hnew]
      · exact h.lt_length (by rw [hstage]; nofun)
      · rcases drained_cases h hstage k with ⟨-, -, hnew⟩ | ⟨hne, -⟩ | ⟨hne, -⟩
        · rw [hnew, hstage]
          exact Nat.lt_succ_self _
        · exact absurd rfl hne
        · exact absurd rfl hne
  | swallowed outcome =>
      rw [hstage] at hjob
      cases hjob
      refine ⟨_, _, follows_cleanUp h hstage hbut, .update h (Nat.le_of_eq ?_) ?_ (by rw [hstage]; nofun)⟩
      · show _ = ((s.taken rest).cleanUp (c.key k) k).calls.length
        unfold cleanUp
        split_ifs <;> rfl
      · rw [hstage]
        exact Nat.le_refl _

/-- The call that is on the stack has been started. -/
theorem Follows.started_of_onStack (h : Follows s c stage) (hk : s.onStack = some k) : ∃ done, stage k = .started done := by
  have hon := (h.onStack k).mp hk
  cases hstage : stage k with
  | started done => exact ⟨done, rfl⟩
  | unmade | waiting _ | ready | adopting _ | adopted | settling _ | settled _ | swallowed _ | cleaned _ =>
      rw [hstage] at hon
      cases hon

/-- The stage of a call has its phase. -/
theorem Follows.phase (h : Follows s c stage) {call : ChainCall α ε} (hcall : s.calls[k]? = some call) :
    (stage k).phase = some call.phase ∧ c.key k = call.key := by
  rw [h.calls k] at hcall
  obtain ⟨phase, hphase, rfl⟩ := Option.map_eq_some_iff.mp hcall
  exact ⟨hphase, rfl⟩

theorem Follows.advanced_call (h : Follows s c stage) (key : ChainKey) : Advanced s (s.runInChain key) stage
    (Function.update stage s.calls.length (firstStage c key)) 0 := by
  have hunmade : (stage s.calls.length).mode = .unmade := by
    rw [h.mode, h.linked.made, h.made]
  refine ⟨?_, rank_update ?_, nofun⟩
  · show _ ≤ (s.calls ++ [_]).length
    rw [List.length_append]
    exact Nat.le_add_right _ _
  · rw [stage_eq_unmade hunmade]
    exact Nat.zero_le _

theorem follows_step (h : Follows s c stage) {e : LockEvent α ε} (hstep : s.step e = some s') : ∃ c' stage',
    Follows s' c' stage' ∧ Advanced s s' stage stage' (if e.isJob then 1 else 0) := by
  cases e with
  | syncQueueRun projectId =>
      cases hstep
      exact ⟨_, _, follows_runInChain h _, h.advanced_call _⟩
  | projectWriteLocksRun projectId =>
      cases hstep
      exact ⟨_, _, follows_runInChain h _, h.advanced_call _⟩
  | job =>
      rw [step] at hstep
      split at hstep
      · rename_i job rest hstack hjobs
        cases hstep
        exact follows_job h hstack hjobs
      · cases hstep
  | returns =>
      rw [step] at hstep
      split at hstep
      · rename_i k hk
        cases hstep
        obtain ⟨done, hstage⟩ := h.started_of_onStack hk
        exact ⟨c, _, follows_returns h hk hstage,
          .update h (by exact Nat.le_refl _) (by rw [hstage]; exact Nat.le_refl _) (by rw [hstage]; nofun)⟩
      · cases hstep
  | throws e =>
      rw [step] at hstep
      split at hstep
      · rename_i k hk
        obtain ⟨done, hstage⟩ := h.started_of_onStack hk
        split at hstep
        · rename_i key hcall
          cases hstep
          have hphase := (h.phase hcall).1
          rw [hstage] at hphase
          cases done with
          | some _ => cases hphase
          | none =>
              refine ⟨c, _, follows_throws h hk hstage, .update h (Nat.le_of_eq ?_) ?_ (by rw [hstage]; nofun)⟩
              · exact (List.length_modify ..).symm
              · rw [hstage]
                exact Nat.le_add_left 1 2
        · cases hstep
      · cases hstep
  | settle k outcome =>
      rw [step] at hstep
      split at hstep
      · rename_i key hcall
        cases hstep
        have hphase := (h.phase hcall).1
        refine ⟨c, _, follows_settle h hphase outcome, .update h (Nat.le_of_eq ?_) ?_ fun hunmade => ?_⟩
        · exact (List.length_modify ..).symm
        · cases stage k with
          | started done | adopting done => cases done <;> exact Nat.le_refl _
          | unmade | waiting _ | ready | adopted | settling _ | settled _ | swallowed _ | cleaned _ => exact Nat.le_refl _
        · rw [stage_eq_unmade hunmade] at hphase
          cases hphase
      · cases hstep

/-! ## Every run -/

def progress (s : SyncLocks α ε) (stage : Nat → CallStage α ε) : Nat :=
  ∑ k ∈ Finset.range s.calls.length, (stage k).rank

theorem Advanced.progress {stage' : Nat → CallStage α ε} {jobs : Nat} (h : Advanced s s' stage stage' jobs)
    (hjobs : jobs ≤ 1) : s.progress stage + jobs ≤ s'.progress stage' := by
  have hsub : Finset.range s.calls.length ⊆ Finset.range s'.calls.length := Finset.range_subset_range.mpr h.length
  have hgrow : ∑ k ∈ Finset.range s.calls.length, (stage' k).rank ≤ s'.progress stage' :=
    Finset.sum_le_sum_of_subset hsub
  refine Nat.le_trans ?_ hgrow
  rcases Nat.eq_zero_or_pos jobs with rfl | hpos
  · rw [Nat.add_zero]
    exact Finset.sum_le_sum fun k _ => h.rank k
  · obtain ⟨i, hi, hlt⟩ := h.job hpos
    have hstrict : s.progress stage < ∑ k ∈ Finset.range s.calls.length, (stage' k).rank :=
      Finset.sum_lt_sum (fun k _ => h.rank k) ⟨i, Finset.mem_range.mpr hi, hlt⟩
    omega

theorem follows_run {events : List (LockEvent α ε)} (h : Follows s c stage)
    (hrun : Machine.run step s events = some s') : ∃ c' stage', Follows s' c' stage' ∧
      s.progress stage + events.countP LockEvent.isJob ≤ s'.progress stage' := by
  induction events generalizing s c stage with
  | nil =>
      cases hrun
      exact ⟨c, stage, h, Nat.le_refl _⟩
  | cons e events ih =>
      obtain ⟨s₁, hstep, hrest⟩ := Machine.run_cons_eq_some.mp hrun
      obtain ⟨c₁, stage₁, h₁, hadvanced⟩ := follows_step h hstep
      obtain ⟨c', stage', h', hle⟩ := ih h₁ hrest
      have hfirst := hadvanced.progress (by split_ifs <;> decide)
      refine ⟨c', stage', h', ?_⟩
      rw [List.countP_cons]
      omega

theorem progress_le (s : SyncLocks α ε) (stage : Nat → CallStage α ε) : s.progress stage ≤ 5 * s.calls.length := by
  have hrank : ∀ stage : CallStage α ε, stage.rank ≤ 5 := fun stage => by
    cases stage <;> simp [CallStage.rank]
  have hle := Finset.sum_le_card_nsmul (Finset.range s.calls.length) (fun k => (stage k).rank) 5 fun k _ => hrank _
  rw [Finset.card_range, smul_eq_mul, Nat.mul_comm] at hle
  exact hle

/-! ## What the chains promise -/

/-- The tasks of one key run one after the other in the order of the calls, every result is settled as its own
task, and the entry of a key is the tail of its last call, and stays until all of its tasks are done. -/
structure InOrder (s : SyncLocks α ε) : Prop where
  serial : ∀ (j k : Nat) (before call : ChainCall α ε), j < k → s.calls[j]? = some before → s.calls[k]? = some call →
    before.key = call.key → call.phase ≠ .queued → ∃ outcome, before.phase = .done outcome
  answered : ∀ (k : Nat) (settled : Settled α ε), s.promises.states (.result k) = .settled settled →
    ∃ call outcome, s.calls[k]? = some call ∧ call.phase = .done outcome ∧ settled = settledWith outcome
  newest : ∀ key tail, s.chains key = some tail → ∃ k call, tail = .tail k ∧ s.calls[k]? = some call ∧ call.key = key ∧
    ∀ (j : Nat) (other : ChainCall α ε), s.calls[j]? = some other → other.key = key → j ≤ k
  kept : ∀ key, s.chains key = none → ∀ (k : Nat) (call : ChainCall α ε), s.calls[k]? = some call → call.key = key →
    ∃ outcome, call.phase = .done outcome

/-- No job is left, and no function is on the stack. -/
def Quiet (s : SyncLocks α ε) : Prop := s.promises.jobs = [] ∧ s.onStack = none

/-- A queued task waits for a running task of its own key that was called before it, a task that is done has
settled its result, and only keys with a task that is not done have an entry. -/
structure UpToDate (s : SyncLocks α ε) : Prop where
  waits : ∀ (k : Nat) (call : ChainCall α ε), s.calls[k]? = some call → call.phase = .queued →
    ∃ (j : Nat) (before : ChainCall α ε), j < k ∧ s.calls[j]? = some before ∧ before.key = call.key ∧
      before.phase = .running
  answers : ∀ (k : Nat) (call : ChainCall α ε) (outcome : Except ε α), s.calls[k]? = some call →
    call.phase = .done outcome → s.promises.states (.result k) = .settled (settledWith outcome)
  removed : ∀ key, s.chains key = none ↔ ∀ (k : Nat) (call : ChainCall α ε), s.calls[k]? = some call →
    call.key = key → ∃ outcome, call.phase = .done outcome

theorem done_of_isDrained {stage : CallStage α ε} (h : stage.mode.isDrained = true) :
    ∃ outcome, stage.phase = some (.done outcome) ∧ ∀ k, stage.result k = .settled (settledWith outcome) := by
  cases stage with
  | swallowed outcome | cleaned outcome => exact ⟨outcome, rfl, fun _ => rfl⟩
  | unmade | waiting _ | ready | started _ | adopting _ | adopted | settling _ | settled _ => cases h

theorem Follows.inOrder (h : Follows s c stage) : InOrder s where
  serial j k before call hlt hbefore hcall hkey hphase := by
    obtain ⟨hbeforePhase, hbeforeKey⟩ := h.phase hbefore
    obtain ⟨hcallPhase, hcallKey⟩ := h.phase hcall
    have hfree : (c.mode k).isFree = true := by
      rw [← h.mode]
      cases hstage : stage k with
      | unmade =>
          rw [hstage] at hcallPhase
          cases hcallPhase
      | waiting _ =>
          rw [hstage] at hcallPhase
          exact absurd (Option.some.inj hcallPhase).symm hphase
      | ready | started _ | adopting _ | adopted | settling _ | settled _ | swallowed _ | cleaned _ => rfl
    have hdrained := h.linked.free j k hlt (hbeforeKey.trans (hkey.trans hcallKey.symm)) hfree
    rw [← h.mode] at hdrained
    obtain ⟨outcome, hdone, -⟩ := done_of_isDrained hdrained
    exact ⟨outcome, Option.some.inj (hbeforePhase.symm.trans hdone)⟩
  answered k settled hsettled := by
    rw [h.result] at hsettled
    have hcall := h.calls k
    cases hstage : stage k with
    | unmade | waiting _ | ready | started _ | adopting _ | adopted | settling _ =>
        rw [hstage] at hsettled
        cases hsettled
    | settled outcome | swallowed outcome | cleaned outcome =>
        rw [hstage] at hsettled hcall
        cases hsettled
        exact ⟨_, outcome, hcall, rfl, rfl⟩
  newest key tail htail := by
    rw [h.entry] at htail
    obtain ⟨k, hentry, rfl⟩ := Option.map_eq_some_iff.mp htail
    obtain ⟨hkey, hk, -, hlast⟩ := h.linked.entry key k hentry
    obtain ⟨call, hcall⟩ : ∃ call, s.calls[k]? = some call := by
      rw [h.made] at hk
      exact ⟨_, List.getElem?_eq_getElem hk⟩
    refine ⟨k, call, rfl, hcall, (h.phase hcall).2.symm.trans hkey, fun j other hother hkeyj => hlast j ?_ ?_⟩
    · rw [h.made]
      exact (List.getElem?_eq_some_iff.mp hother).1
    · exact (h.phase hother).2.trans hkeyj
  kept key hnone k call hcall hkey := by
    rw [h.entry, Option.map_eq_none_iff] at hnone
    have hdrained := h.linked.noEntry key hnone k (by rw [h.made]; exact (List.getElem?_eq_some_iff.mp hcall).1)
      ((h.phase hcall).2.trans hkey)
    rw [← h.mode] at hdrained
    obtain ⟨outcome, hdone, -⟩ := done_of_isDrained hdrained
    exact ⟨outcome, Option.some.inj ((h.phase hcall).1.symm.trans hdone)⟩

/-- In a quiet state a call waits, or its task runs, or it is through. -/
theorem Follows.quiet_cases (h : Follows s c stage) (hquiet : Quiet s) (k : Nat) :
    stage k = .unmade ∨ (∃ j, stage k = .waiting j) ∨ stage k = .adopted ∨ ∃ outcome, stage k = .cleaned outcome := by
  obtain ⟨order, hqueued⟩ := h.queued
  have hnone : (stage k).job c.key k = none := by
    rw [Option.eq_none_iff_forall_not_mem]
    intro job hjob
    have hmem := hqueued.all k (by rw [Option.mem_def.mp hjob]; rfl)
    have hjobs := hqueued.jobs
    rw [hquiet.1, List.map_nil, eq_comm, List.map_eq_nil_iff] at hjobs
    rw [hjobs] at hmem
    cases hmem
  have hstack : (stage k).isOnStack = false := by
    rw [← Bool.not_eq_true, ← h.onStack, hquiet.2]
    nofun
  cases hstage : stage k with
  | unmade => exact Or.inl rfl
  | waiting j => exact Or.inr (Or.inl ⟨j, rfl⟩)
  | adopted => exact Or.inr (Or.inr (Or.inl rfl))
  | cleaned outcome => exact Or.inr (Or.inr (Or.inr ⟨outcome, rfl⟩))
  | ready | adopting _ | settling _ | settled _ | swallowed _ =>
      rw [hstage] at hnone
      cases hnone
  | started _ =>
      rw [hstage] at hstack
      cases hstack

/-- The calls that wait for each other lead to one whose task runs. -/
theorem Follows.runs_before (h : Follows s c stage) (hquiet : Quiet s) (k : Nat) {j : Nat} (hk : stage k = .waiting j) :
    ∃ i < k, c.key i = c.key k ∧ stage i = .adopted := by
  induction k using Nat.strongRecOn generalizing j with
  | ind k ih =>
      obtain ⟨-, hopen, hlt, hkey, -⟩ := h.linked.waiting j k (by rw [← h.mode, hk]; rfl)
      rw [← h.mode] at hopen
      rcases h.quiet_cases hquiet j with hj | ⟨j', hj⟩ | hj | ⟨outcome, hj⟩
      · rw [hj] at hopen
        cases hopen
      · obtain ⟨i, hi, hkeyi, hadopted⟩ := ih j hlt hj
        exact ⟨i, Nat.lt_trans hi hlt, hkeyi.trans hkey, hadopted⟩
      · exact ⟨j, hlt, hkey, hj⟩
      · rw [hj] at hopen
        cases hopen

theorem Follows.upToDate (h : Follows s c stage) (hquiet : Quiet s) : UpToDate s where
  waits k call hcall hqueued := by
    obtain ⟨hphase, hkey⟩ := h.phase hcall
    rw [hqueued] at hphase
    rcases h.quiet_cases hquiet k with hk | ⟨j, hk⟩ | hk | ⟨outcome, hk⟩
    · rw [hk] at hphase
      cases hphase
    · obtain ⟨i, hi, hkeyi, hadopted⟩ := h.runs_before hquiet k hk
      refine ⟨i, ⟨c.key i, .running⟩, hi, ?_, hkeyi.trans hkey, rfl⟩
      rw [h.calls, hadopted]
      rfl
    · rw [hk] at hphase
      cases hphase
    · rw [hk] at hphase
      cases hphase
  answers k call outcome hcall hdone := by
    obtain ⟨hphase, -⟩ := h.phase hcall
    rw [hdone] at hphase
    rw [h.result]
    rcases h.quiet_cases hquiet k with hk | ⟨j, hk⟩ | hk | ⟨outcome', hk⟩
    · rw [hk] at hphase
      cases hphase
    · rw [hk] at hphase
      cases hphase
    · rw [hk] at hphase
      cases hphase
    · rw [hk] at hphase ⊢
      cases hphase
      rfl
  removed key := by
    refine ⟨fun hnone => h.inOrder.kept key hnone, fun hdone => ?_⟩
    rw [h.entry, Option.map_eq_none_iff]
    by_contra hne
    obtain ⟨k, hentry⟩ := Option.ne_none_iff_exists'.mp hne
    obtain ⟨hkey, hk, hclean, -⟩ := h.linked.entry key k hentry
    have hcall := h.calls k
    rcases h.quiet_cases hquiet k with hstage | ⟨j, hstage⟩ | hstage | ⟨outcome, hstage⟩
    · have hunmade := (h.linked.made k).mp (by rw [← h.mode, hstage]; rfl)
      exact absurd hk (Nat.not_lt_of_le hunmade)
    · rw [hstage] at hcall
      obtain ⟨outcome, hphase⟩ := hdone k _ hcall hkey
      cases hphase
    · rw [hstage] at hcall
      obtain ⟨outcome, hphase⟩ := hdone k _ hcall hkey
      cases hphase
    · rw [← h.mode, hstage] at hclean
      exact hclean rfl

/-- Only the clean-up of a tail takes its entry away. -/
structure CleansUp (s : SyncLocks α ε) : Prop where
  removes : ∀ (e : LockEvent α ε) (s' : SyncLocks α ε) (key : ChainKey) (k : Nat), s.step e = some s' →
    s.chains key = some (.tail k) → s'.chains key = none → e = .job ∧ ∃ derived outcome rest,
      s.promises.jobs = .react ⟨.cleanUp key k, derived⟩ outcome :: rest

theorem chains_settleDerived (s : SyncLocks α ε) (derived : Option ChainPromise) (outcome : Settled α ε) :
    (s.settleDerived derived outcome).chains = s.chains := by
  cases derived <;> rfl

theorem cleansUp (s : SyncLocks α ε) : CleansUp s where
  removes e s' key k hstep htail hnone := by
    have hcall : ∀ key', (s.runInChain key').chains key ≠ none := by
      intro key' hnone'
      have hupdate : Function.update s.chains key' (some (.tail s.calls.length)) key = none := hnone'
      by_cases hkey : key = key'
      · rw [hkey, Function.update_self] at hupdate
        cases hupdate
      · rw [Function.update_of_ne hkey, htail] at hupdate
        cases hupdate
    have hsame : s'.chains ≠ s.chains := fun heq => by
      rw [heq, htail] at hnone
      cases hnone
    cases e with
    | syncQueueRun projectId =>
        cases hstep
        exact absurd hnone (hcall _)
    | projectWriteLocksRun projectId =>
        cases hstep
        exact absurd hnone (hcall _)
    | returns =>
        rw [step] at hstep
        split at hstep
        · cases hstep
          exact absurd rfl hsame
        · cases hstep
    | throws e =>
        rw [step] at hstep
        split at hstep
        · split at hstep
          · cases hstep
            exact absurd rfl hsame
          · cases hstep
        · cases hstep
    | settle k outcome =>
        rw [step] at hstep
        split at hstep
        · cases hstep
          exact absurd rfl hsame
        · cases hstep
    | job =>
        rw [step] at hstep
        split at hstep
        · rename_i job rest hstack hjobs
          cases hstep
          cases job with
          | adopt promise thenable => exact absurd rfl hsame
          | react reaction outcome =>
              obtain ⟨handler, derived⟩ := reaction
              cases handler with
              | task k => cases outcome with
                | ok value => exact absurd rfl hsame
                | error e => exact absurd (chains_settleDerived ..) hsame
              | swallow => exact absurd (chains_settleDerived ..) hsame
              | settle promise => exact absurd rfl hsame
              | cleanUp key' k' => cases outcome with
                | error e => exact absurd (chains_settleDerived ..) hsame
                | ok value =>
                    have hclean : ((s.taken rest).cleanUp key' k').chains key = none :=
                      (congrFun (chains_settleDerived ..).symm key).trans hnone
                    unfold cleanUp at hclean
                    split_ifs at hclean with hown
                    · by_cases hkey : key = key'
                      · subst hkey
                        have htail' : some (ChainPromise.tail k) = some (.tail k') := htail.symm.trans hown
                        cases htail'
                        exact ⟨rfl, derived, .ok value, rest, hjobs⟩
                      · have hkept : s.chains key = none := (Function.update_of_ne hkey ..).symm.trans hclean
                        rw [htail] at hkept
                        cases hkept
                    · have hkept : s.chains key = none := hclean
                      rw [htail] at hkept
                      cases hkept
        · cases hstep

/-- The jobs of the chains run out: there are at most five for a call, and the next one can run as soon as the
function on the stack has returned. -/
structure Drains (events : List (LockEvent α ε)) (s : SyncLocks α ε) : Prop where
  bounded : events.countP LockEvent.isJob ≤ 5 * s.calls.length
  continues : ¬ Quiet s → ∃ e s', (e = .job ∨ e = .returns) ∧ s.step e = some s'

theorem continues_of_not_quiet (hquiet : ¬ Quiet s) : ∃ e s', (e = .job ∨ e = .returns) ∧ s.step e = some s' := by
  cases hstack : s.onStack with
  | some k => exact ⟨.returns, _, Or.inr rfl, by rw [step, hstack]⟩
  | none =>
      cases hjobs : s.promises.jobs with
      | nil => exact absurd ⟨hjobs, hstack⟩ hquiet
      | cons job rest => exact ⟨.job, _, Or.inl rfl, by rw [step, hstack, hjobs]⟩

/-- After every sequence of calls, jobs and ends of tasks, in any order. -/
theorem chains_are_queues {events : List (LockEvent α ε)} {s : SyncLocks α ε}
    (hrun : Machine.run step start events = some s) :
    InOrder s ∧ (Quiet s → UpToDate s) ∧ CleansUp s ∧ Drains events s := by
  obtain ⟨c, stage, h, hprogress⟩ := follows_run (follows_start fun _ => ⟨.syncChains, []⟩) hrun
  refine ⟨h.inOrder, h.upToDate, cleansUp s, ?_, continues_of_not_quiet⟩
  exact Nat.le_trans (Nat.le_trans (Nat.le_add_left _ _) hprogress) (progress_le s stage)

/-- The first task throws, the second settles before its function returns, and a third of another project runs
meanwhile. -/
def threeTasks : List (LockEvent Nat Nat) :=
  [.projectWriteLocksRun (js "p"), .projectWriteLocksRun (js "p"), .job, .throws 7, .syncQueueRun (js "q"), .job, .job,
    .returns, .job, .job, .settle 1 (.ok 5), .returns, .job, .job, .job, .job, .job]

theorem chains_are_queues_example : ∃ s, Machine.run step start threeTasks = some s ∧ Quiet s ∧
    InOrder s ∧ UpToDate s ∧ CleansUp s ∧ Drains threeTasks s := by
  obtain ⟨horder, hupToDate, hcleans, hdrains⟩ := @chains_are_queues Nat Nat threeTasks _ rfl
  exact ⟨_, rfl, ⟨rfl, rfl⟩, horder, hupToDate ⟨rfl, rfl⟩, hcleans, hdrains⟩

end SyncLocks

end SecretsManager
