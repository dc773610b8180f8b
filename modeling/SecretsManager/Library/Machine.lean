import Mathlib.Data.List.Basic
import Mathlib.Data.List.Induction

/-!
# Event machines

A machine takes one event after the other and refuses those that cannot happen in its state. Conditions on the
events of a run and relations between its states go from one event to the whole run.
-/

namespace SecretsManager.Machine

variable {S E : Type} (step : S → E → Option S)

/-- The state after the events, when each can happen in turn. -/
def run : S → List E → Option S
  | s, [] => some s
  | s, e :: events => (step s e).bind fun s' => run s' events

/-- Every event of the run meets the condition in the state before it. -/
def Along (Cond : S → E → Prop) : S → List E → Prop
  | _, [] => True
  | s, e :: events => Cond s e ∧ ∀ s', step s e = some s' → Along Cond s' events

/-- The sum of a weight of the changes of the state along the run. -/
def total (weight : S → S → Nat) : S → List E → Nat
  | _, [] => 0
  | s, e :: events =>
      match step s e with
      | some s' => weight s s' + total weight s' events
      | none => 0

variable {step} {s s' s'' : S} {e : E} {events events' : List E}

@[simp] theorem run_nil : run step s [] = some s := rfl

theorem run_cons_eq_some : run step s (e :: events) = some s'' ↔
    ∃ s', step s e = some s' ∧ run step s' events = some s'' := by
  rw [run, Option.bind_eq_some_iff]

theorem run_append_eq_some : run step s (events ++ events') = some s'' ↔
    ∃ s', run step s events = some s' ∧ run step s' events' = some s'' := by
  induction events generalizing s with
  | nil => simp
  | cons e events ih =>
      rw [List.cons_append, run_cons_eq_some]
      constructor
      · rintro ⟨s₁, hstep, h⟩
        obtain ⟨s', hrun, h'⟩ := ih.mp h
        exact ⟨s', run_cons_eq_some.mpr ⟨s₁, hstep, hrun⟩, h'⟩
      · rintro ⟨s', h, h'⟩
        obtain ⟨s₁, hstep, hrun⟩ := run_cons_eq_some.mp h
        exact ⟨s₁, hstep, ih.mpr ⟨s', hrun, h'⟩⟩

/-- What every event under the condition keeps holds at the end of a run under the condition. -/
theorem run_invariant {Cond : S → E → Prop} {I : S → Prop}
    (hstep : ∀ {s e s'}, I s → Cond s e → step s e = some s' → I s') (h : run step s events = some s')
    (hcond : Along step Cond s events) (hinv : I s) : I s' := by
  induction events generalizing s with
  | nil =>
      cases h
      exact hinv
  | cons e events ih =>
      obtain ⟨s₁, hs₁, hrun⟩ := run_cons_eq_some.mp h
      exact ih hrun (hcond.2 s₁ hs₁) (hstep hinv hcond.1 hs₁)

/-- The condition on every event, by the state that the events before it lead to. -/
theorem along_iff {Cond : S → E → Prop} : Along step Cond s events ↔
    ∀ before e after s', events = before ++ e :: after → run step s before = some s' → Cond s' e := by
  induction events generalizing s with
  | nil =>
      refine iff_of_true trivial fun before e after s' heq _ => ?_
      cases before <;> cases heq
  | cons e events ih =>
      constructor
      · rintro ⟨hcond, hrest⟩ before e' after s' heq hrun
        cases before with
        | nil =>
            cases heq
            cases hrun
            exact hcond
        | cons e₁ before =>
            cases heq
            obtain ⟨s₁, hs₁, hrun⟩ := run_cons_eq_some.mp hrun
            exact ih.mp (hrest s₁ hs₁) before e' after s' rfl hrun
      · intro h
        refine ⟨h [] e events s rfl rfl, fun s₁ hs₁ => ih.mpr fun before e' after s' heq hrun => ?_⟩
        exact h (e :: before) e' after s' (congrArg (e :: ·) heq) (run_cons_eq_some.mpr ⟨s₁, hs₁, hrun⟩)

/-- The condition holds along the first events of a run. -/
theorem Along.of_append {Cond : S → E → Prop} (h : Along step Cond s (events ++ events')) :
    Along step Cond s events := by
  refine along_iff.mpr fun before e after s' heq hrun => along_iff.mp h before e (after ++ events') s' ?_ hrun
  rw [heq, List.append_assoc, List.cons_append]

theorem Along.cons {Cond : S → E → Prop} (hcond : Cond s e) (hstep : step s e = some s')
    (h : Along step Cond s' events) : Along step Cond s (e :: events) := by
  refine ⟨hcond, fun s'' hs'' => ?_⟩
  obtain rfl := Option.some.inj (hstep.symm.trans hs'')
  exact h

theorem Along.and {Cond Cond' : S → E → Prop} (h : Along step Cond s events) (h' : Along step Cond' s events) :
    Along step (fun s e => Cond s e ∧ Cond' s e) s events :=
  along_iff.mpr fun before e after s' heq hrun =>
    ⟨along_iff.mp h before e after s' heq hrun, along_iff.mp h' before e after s' heq hrun⟩

theorem along_true : Along step (fun _ _ => True) s events := by
  induction events generalizing s with
  | nil => trivial
  | cons e events ih => exact ⟨trivial, fun s' _ => ih⟩

/-- What every event keeps holds at the end of every run. -/
theorem run_keeps {I : S → Prop} (hstep : ∀ {s e s'}, I s → step s e = some s' → I s')
    (h : run step s events = some s') (hinv : I s) : I s' :=
  run_invariant (fun hs _ => hstep hs) h along_true hinv

/-! ## What has held since an event -/

/-- One of the events has started it in the state before it, and none of those after it has stopped it. -/
def Since (step : S → E → Option S) (start : S → E → Prop) (stop : E → Prop) (s : S) (events : List E) : Prop :=
  ∃ before e after s', events = before ++ e :: after ∧ run step s before = some s' ∧ start s' e ∧ ∀ e' ∈ after, ¬ stop e'

/-- The next event starts it, or it was started and the event does not stop it. -/
theorem since_concat {start : S → E → Prop} {stop : E → Prop} (h : run step s events = some s') :
    Since step start stop s (events ++ [e]) ↔ start s' e ∨ Since step start stop s events ∧ ¬ stop e := by
  constructor
  · rintro ⟨before, e', after, s₁, heq, hrun, hstart, hstop⟩
    rcases List.eq_nil_or_concat' after with rfl | ⟨after, last, rfl⟩
    · obtain ⟨rfl, hlast⟩ := List.append_inj' heq rfl
      obtain rfl := List.singleton_inj.mp hlast
      obtain rfl := Option.some.inj (h.symm.trans hrun)
      exact Or.inl hstart
    · rw [← List.cons_append, ← List.append_assoc] at heq
      obtain ⟨rfl, hlast⟩ := List.append_inj' heq rfl
      obtain rfl := List.singleton_inj.mp hlast
      refine Or.inr ⟨⟨before, e', after, s₁, rfl, hrun, hstart, fun x hx => ?_⟩, hstop e (by simp)⟩
      exact hstop x (List.mem_append_left _ hx)
  · rintro (hstart | ⟨⟨before, e', after, s₁, rfl, hrun, hstart, hstop⟩, hlast⟩)
    · exact ⟨events, e, [], s', rfl, h, hstart, fun _ hx => by cases hx⟩
    · refine ⟨before, e', after ++ [e], s₁, by simp, hrun, hstart, fun x hx => ?_⟩
      rcases List.mem_append.mp hx with hx | hx
      · exact hstop x hx
      · exact List.mem_singleton.mp hx ▸ hlast

theorem not_since_nil {start : S → E → Prop} {stop : E → Prop} : ¬ Since step start stop s [] := by
  rintro ⟨before, e, after, -, heq, -⟩
  cases before <;> cases heq

/-- An invariant of the state and the events that have led to it. -/
theorem run_history {I : List E → S → Prop}
    (hstep : ∀ {events s₁ e s₂}, run step s events = some s₁ → I events s₁ → step s₁ e = some s₂ → I (events ++ [e]) s₂)
    (h : run step s events = some s') (hinit : I [] s) : I events s' := by
  induction events using List.reverseRecOn generalizing s' with
  | nil =>
      cases h
      exact hinit
  | append_singleton events e ih =>
      obtain ⟨s₁, hrun, hlast⟩ := run_append_eq_some.mp h
      obtain ⟨s₂, hs₂, hnil⟩ := run_cons_eq_some.mp hlast
      cases hnil
      exact hstep hrun (ih hrun) hs₂

/-! ## Weights -/

theorem total_cons {weight : S → S → Nat} (h : step s e = some s') :
    total step weight s (e :: events) = weight s s' + total step weight s' events := by
  rw [total, h]

/-- What every event brings in and takes out balances over a run. -/
theorem total_balance {I : S → Prop} {amount : S → Nat} {into out : S → S → Nat}
    (hkeep : ∀ {s e s'}, I s → step s e = some s' → I s')
    (hstep : ∀ {s e s'}, I s → step s e = some s' → amount s' + out s s' = amount s + into s s')
    (h : run step s events = some s') (hinv : I s) :
    amount s' + total step out s events = amount s + total step into s events := by
  induction events generalizing s with
  | nil =>
      cases h
      rfl
  | cons e events ih =>
      obtain ⟨s₁, hs₁, hrun⟩ := run_cons_eq_some.mp h
      have hrest := ih hrun (hkeep hinv hs₁)
      have hfirst := hstep hinv hs₁
      rw [total_cons hs₁, total_cons hs₁]
      omega

/-- A weight that an amount pays for at every event is at most what the amount grows. -/
theorem total_le {I : S → Prop} {amount : S → Nat} {weight : S → S → Nat}
    (hkeep : ∀ {s e s'}, I s → step s e = some s' → I s')
    (hstep : ∀ {s e s'}, I s → step s e = some s' → amount s + weight s s' ≤ amount s')
    (h : run step s events = some s') (hinv : I s) : amount s + total step weight s events ≤ amount s' := by
  induction events generalizing s with
  | nil =>
      cases h
      exact Nat.le_refl _
  | cons e events ih =>
      obtain ⟨s₁, hs₁, hrun⟩ := run_cons_eq_some.mp h
      have hrest := ih hrun (hkeep hinv hs₁)
      have hfirst := hstep hinv hs₁
      rw [total_cons hs₁]
      omega

theorem total_add {weight weight' : S → S → Nat} : total step (fun s s' => weight s s' + weight' s s') s events =
    total step weight s events + total step weight' s events := by
  induction events generalizing s with
  | nil => rfl
  | cons e events ih =>
      cases hstep : step s e with
      | none => simp only [total, hstep]
      | some s₁ =>
          rw [total_cons hstep, total_cons hstep, total_cons hstep, ih]
          omega

end SecretsManager.Machine
