import SecretsManager.Library.Sequential

/-!
# Statements on a connection

A database seen from one connection: statements run in the open transaction, or commit by themselves when
none is open, and any command can fail or lose the connection. What commits may do so with its
acknowledgement lost. `Work` is a program of statements; `Work.evaluate` says what its statements do when all
of them succeed. A work inside a transaction leaves the committed data alone whatever happens, and
`AllOrNothing` is what the code around it makes of this.
-/

namespace SecretsManager.Interleaving

variable {C : Type} {A : C → Type} {E R R' W : Type}

/-! ## Connections -/

/-- What a client asks of its connection. -/
inductive ConnectionCmd (St : Type) where
  | connect
  | begin
  | query (statement : St)
  | commit
  | rollback
  | release

variable {St N D : Type}

/-- A statement answers the number of rows that it changed. -/
abbrev ConnectionCmd.Answer (E N : Type) : ConnectionCmd St → Type
  | .query _ => Except E N
  | .release => Unit
  | .connect | .begin | .commit | .rollback => Except E Unit

inductive Session (D : Type) where
  | idle
  | inTransaction (data : D)
  | lost

/-- The committed data, and what the connection sees of its own. -/
structure Connection (D : Type) where
  committed : D
  session : Session D

/-- A transaction whose connection is lost before its commit, or that is released, has no effect, and a failed
rollback has lost its connection. The commit, and a statement outside a transaction, can also take effect while
their answer is lost with the connection; any other command that fails has no effect. -/
def ConnectionExec (apply : St → D → Except E (D × N)) (Fault : E → Prop) (k : Connection D) :
    (c : ConnectionCmd St) → c.Answer E N → Connection D → Prop
  | .connect, a, k' => k' = k ∧ (a = .ok () ∨ ∃ e, Fault e ∧ a = .error e)
  | .begin, a, k' =>
      (a = .ok () ∧ k' = ⟨k.committed, .inTransaction k.committed⟩) ∨
      ∃ e, Fault e ∧ a = .error e ∧ (k' = k ∨ k' = ⟨k.committed, .lost⟩)
  | .query statement, a, k' =>
      (match k.session with
        | .idle => ∃ d n, apply statement k.committed = .ok (d, n) ∧ a = .ok n ∧ k' = ⟨d, .idle⟩
        | .inTransaction data => ∃ d n, apply statement data = .ok (d, n) ∧ a = .ok n ∧
            k' = ⟨k.committed, .inTransaction d⟩
        | .lost => False) ∨
      (match k.session with
        | .idle => ∃ e, apply statement k.committed = .error e ∧ a = .error e ∧ k' = k
        | .inTransaction data => ∃ e, apply statement data = .error e ∧ a = .error e ∧ k' = k
        | .lost => False) ∨
      (∃ e, Fault e ∧ a = .error e ∧ (k' = k ∨ k' = ⟨k.committed, .lost⟩)) ∨
      ∃ d n e, k.session = .idle ∧ apply statement k.committed = .ok (d, n) ∧ Fault e ∧ a = .error e ∧
        k' = ⟨d, .lost⟩
  | .commit, a, k' =>
      (∃ data, k.session = .inTransaction data ∧ a = .ok () ∧ k' = ⟨data, .idle⟩) ∨
      (∃ e, Fault e ∧ a = .error e ∧ (k' = k ∨ k' = ⟨k.committed, .lost⟩)) ∨
      ∃ data e, k.session = .inTransaction data ∧ Fault e ∧ a = .error e ∧ k' = ⟨data, .lost⟩
  | .rollback, a, k' =>
      (a = .ok () ∧ k' = ⟨k.committed, .idle⟩) ∨ ∃ e, Fault e ∧ a = .error e ∧ k' = ⟨k.committed, .lost⟩
  | .release, _, k' => k' = ⟨k.committed, .idle⟩

/-! ## Work -/

/-- A program of statements. -/
abbrev Work (St E N R : Type) : Type := Prog St (fun _ => Except E N) E R

/-- A program on a connection. -/
abbrev ConnectionProg (St E N R : Type) : Type := Prog (ConnectionCmd St) (ConnectionCmd.Answer E N) E R

namespace Work

def query (statement : St) : Work St E N N := .call statement .ofExcept

/-- The statements one after the other on the connection. -/
def queries : Work St E N R → ConnectionProg St E N R
  | .ret r => .ret r
  | .fail e => .fail e
  | .call statement next => .call (.query statement) fun a => queries (next a)

/-- What the statements do to the data when nothing but they themselves fails. -/
def evaluate (apply : St → D → Except E (D × N)) : Work St E N R → D → Except E (D × R)
  | .ret r, d => .ok (d, r)
  | .fail e, _ => .error e
  | .call statement next, d =>
      match apply statement d with
      | .ok (d', n) => evaluate apply (next (.ok n)) d'
      | .error e => .error e

variable {apply : St → D → Except E (D × N)} {Fault : E → Prop}

theorem evaluate_bind {p : Work St E N R} {f : R → Work St E N R'} {d : D} :
    evaluate apply (p >>= f) d = (evaluate apply p d).bind fun x => evaluate apply (f x.2) x.1 := by
  rw [Prog.bind_eq]
  induction p generalizing d with
  | ret r => rfl
  | fail e => rfl
  | call statement next ih =>
      rw [Prog.bind, evaluate, evaluate]
      cases apply statement d with
      | error e => rfl
      | ok x => exact ih _

theorem evaluate_query {statement : St} {d : D} :
    evaluate apply (query statement : Work St E N N) d = apply statement d := by
  rw [query, evaluate]
  cases apply statement d with
  | error e => rfl
  | ok x => rfl

/-- The work fails with the error of a statement and at once, and for no other reason. -/
def Stops : Work St E N R → Prop
  | .ret _ => True
  | .fail _ => False
  | .call _ next => (∀ e, next (.error e) = .fail e) ∧ ∀ n, Stops (next (.ok n))

theorem stops_ret {r : R} : Stops (.ret r : Work St E N R) := trivial

theorem stops_query {statement : St} : Stops (query statement : Work St E N N) := ⟨fun _ => rfl, fun _ => trivial⟩

theorem Stops.bind {p : Work St E N R} {f : R → Work St E N R'} (hp : Stops p) (hf : ∀ r, Stops (f r)) :
    Stops (p >>= f) := by
  rw [Prog.bind_eq]
  induction p with
  | ret r => exact hf r
  | fail e => exact hp.elim
  | call statement next ih =>
      refine ⟨fun e => ?_, fun n => ih _ (hp.2 n)⟩
      show (next (.error e)).bind f = .fail e
      rw [hp.1]
      rfl

theorem Stops.evaluate_error {p : Work St E N R} (hp : Stops p) {d : D} {e : E}
    (h : evaluate apply p d = .error e) : ∃ statement d', apply statement d' = .error e := by
  induction p generalizing d with
  | ret r => cases h
  | fail e' => exact hp.elim
  | call statement next ih =>
      rw [evaluate] at h
      split at h
      · exact ih _ (hp.2 _) h
      · rename_i happly
        cases h
        exact ⟨statement, d, happly⟩

/-- A work that returns has done all its statements on the data of the transaction, and one that fails has met
a fault or a failing statement. -/
def Ended (apply : St → D → Except E (D × N)) (Fault : E → Prop) (p : Work St E N R) (data : D) :
    Except E R → Session D → Prop
  | .error e, _ => Fault e ∨ evaluate apply p data = .error e
  | .ok r, session => ∃ d, session = .inTransaction d ∧ evaluate apply p data = .ok (d, r)

/-- **Inside a transaction** the statements leave the committed data. -/
theorem runs_queries {p : Work St E N R} (hp : Stops p) {k k' : Connection D} {data : D} {x : Except E R}
    (hk : k.session = .inTransaction data) (h : p.queries.Runs (ConnectionExec apply Fault) k x k') :
    k'.committed = k.committed ∧ Ended apply Fault p data x k'.session := by
  induction p generalizing k data with
  | ret r =>
      obtain ⟨rfl, rfl⟩ := runs_ret.mp h
      exact ⟨rfl, data, hk, rfl⟩
  | fail e => exact hp.elim
  | call statement next ih =>
      obtain ⟨a, k₁, hexec, hnext⟩ := runs_call.mp h
      have herror : ∀ e, a = .error e → x = .error e ∧ k' = k₁ := by
        rintro e rfl
        rw [hp.1, queries] at hnext
        exact runs_fail.mp hnext
      simp only [ConnectionExec, hk] at hexec
      rcases hexec with ⟨d, n, happly, rfl, rfl⟩ | ⟨e, happly, ha, rfl⟩ | ⟨e, he, ha, rfl | rfl⟩ | ⟨_, _, _, hidle, -⟩
      · obtain ⟨hcommitted, hended⟩ := ih _ (hp.2 n) rfl hnext
        refine ⟨hcommitted, ?_⟩
        cases x <;> rwa [Ended, evaluate, happly]
      · obtain ⟨rfl, rfl⟩ := herror e ha
        refine ⟨rfl, Or.inr ?_⟩
        rw [evaluate, happly]
      · obtain ⟨rfl, rfl⟩ := herror e ha
        exact ⟨rfl, Or.inl he⟩
      · obtain ⟨rfl, rfl⟩ := herror e ha
        exact ⟨rfl, Or.inl he⟩
      · cases hidle

/-- Nothing need fail: the statements can run as they evaluate. -/
theorem runs_of_evaluate {p : Work St E N R} {committed data d : D} {r : R}
    (h : evaluate apply p data = .ok (d, r)) :
    p.queries.Runs (ConnectionExec apply Fault) ⟨committed, .inTransaction data⟩ (.ok r)
      ⟨committed, .inTransaction d⟩ := by
  induction p generalizing data with
  | ret r' =>
      cases h
      exact .ret
  | fail e => cases h
  | call statement next ih =>
      rw [evaluate] at h
      split at h
      · rename_i d' n happly
        exact .call (Or.inl ⟨d', n, happly, rfl, rfl⟩) (ih _ h)
      · cases h

end Work

/-! ## Transactions -/

section Transactions

def connect : ConnectionProg St E N Unit := Prog.lift ConnectionCmd.connect >>= .ofExcept

def begin : ConnectionProg St E N Unit := Prog.lift ConnectionCmd.begin >>= .ofExcept

def commit : ConnectionProg St E N Unit := Prog.lift ConnectionCmd.commit >>= .ofExcept

def rollback : ConnectionProg St E N Unit := Prog.lift ConnectionCmd.rollback >>= .ofExcept

def release : ConnectionProg St E N Unit := Prog.lift ConnectionCmd.release

variable {apply : St → D → Except E (D × N)} {Fault : E → Prop} {k k' : Connection D}

theorem runs_connect {x : Except E Unit}
    (h : (connect : ConnectionProg St E N Unit).Runs (ConnectionExec apply Fault) k x k') :
    k' = k ∧ ∀ e, x = .error e → Fault e := by
  obtain ⟨a, ⟨hk, ha⟩, rfl⟩ := runs_answer.mp h
  refine ⟨hk, fun e he => ?_⟩
  rcases ha with rfl | ⟨e', he', rfl⟩
  · cases he
  · cases he
    exact he'

theorem runs_begin {x : Except E Unit}
    (h : (begin : ConnectionProg St E N Unit).Runs (ConnectionExec apply Fault) k x k') :
    (x = .ok () ∧ k' = ⟨k.committed, .inTransaction k.committed⟩) ∨
      ∃ e, x = .error e ∧ Fault e ∧ k'.committed = k.committed := by
  obtain ⟨a, hexec, rfl⟩ := runs_answer.mp h
  rcases hexec with h | ⟨e, he, rfl, rfl | rfl⟩
  · exact Or.inl h
  · exact Or.inr ⟨e, rfl, he, rfl⟩
  · exact Or.inr ⟨e, rfl, he, rfl⟩

theorem runs_commit {x : Except E Unit}
    (h : (commit : ConnectionProg St E N Unit).Runs (ConnectionExec apply Fault) k x k') :
    (∃ data, k.session = .inTransaction data ∧ x = .ok () ∧ k'.committed = data) ∨
      ∃ e, x = .error e ∧ Fault e ∧
        (k'.committed = k.committed ∨ ∃ data, k.session = .inTransaction data ∧ k'.committed = data) := by
  obtain ⟨a, hexec, rfl⟩ := runs_answer.mp h
  rcases hexec with ⟨data, hdata, hok, rfl⟩ | ⟨e, he, rfl, rfl | rfl⟩ | ⟨data, e, hdata, he, rfl, rfl⟩
  · exact Or.inl ⟨data, hdata, hok, rfl⟩
  · exact Or.inr ⟨e, rfl, he, Or.inl rfl⟩
  · exact Or.inr ⟨e, rfl, he, Or.inl rfl⟩
  · exact Or.inr ⟨e, rfl, he, Or.inr ⟨data, hdata, rfl⟩⟩

theorem runs_rollback {x : Except E Unit}
    (h : (rollback : ConnectionProg St E N Unit).Runs (ConnectionExec apply Fault) k x k') :
    k'.committed = k.committed ∧ ∀ e, x = .error e → Fault e := by
  obtain ⟨a, hexec, rfl⟩ := runs_answer.mp h
  rcases hexec with ⟨rfl, rfl⟩ | ⟨e, he, rfl, rfl⟩
  · exact ⟨rfl, fun e he => by cases he⟩
  · refine ⟨rfl, fun e' he' => ?_⟩
    cases he'
    exact he

theorem runs_release {x : Except E Unit}
    (h : (release : ConnectionProg St E N Unit).Runs (ConnectionExec apply Fault) k x k') :
    x = .ok () ∧ k'.committed = k.committed := by
  obtain ⟨_, rfl, hexec⟩ := runs_lift.mp h
  rw [show k' = _ from hexec]
  exact ⟨rfl, rfl⟩

/-- The statements and their commit. -/
def committing (p : Work St E N R) : ConnectionProg St E N R := do
  let result ← p.queries
  commit
  pure result

/-- The way back after an error. -/
def rollingBack (e : E) : ConnectionProg St E N R := do
  rollback
  .fail e

end Transactions

/-! ## All or nothing -/

/-- The effect of the whole work, or an error: without effect when it is that of the work, and when it is a
fault without effect or with that of the whole work. -/
def AllOrNothing (apply : St → D → Except E (D × N)) (Fault : E → Prop) (p : Work St E N R) (d : D)
    (x : Except E R) (d' : D) : Prop :=
  match x with
  | .error e => (d' = d ∧ (Fault e ∨ p.evaluate apply d = .error e)) ∨
      Fault e ∧ ∃ r, p.evaluate apply d = .ok (d', r)
  | .ok r => p.evaluate apply d = .ok (d', r)

section AllOrNothing
variable {apply : St → D → Except E (D × N)} {Fault : E → Prop} {k k' : Connection D} {p : Work St E N R}
  {x : Except E R}

/-- A single statement outside a transaction. -/
theorem allOrNothing_query {statement : St} {f : N → R} (hk : k.session = .idle)
    (h : (Work.query statement >>= fun n => pure (f n) : Work St E N R).queries.Runs
      (ConnectionExec apply Fault) k x k') :
    AllOrNothing apply Fault (Work.query statement >>= fun n => pure (f n)) k.committed x k'.committed := by
  obtain ⟨a, k₁, hexec, hnext⟩ := runs_call.mp h
  have hret : x = a.map f ∧ k' = k₁ := by
    cases a with
    | ok n => exact runs_ret.mp hnext
    | error e => exact runs_fail.mp hnext
  obtain ⟨rfl, rfl⟩ := hret
  simp only [ConnectionExec, hk] at hexec
  rcases hexec with ⟨d, n, happly, rfl, rfl⟩ | ⟨e, happly, rfl, rfl⟩ | ⟨e, he, rfl, rfl | rfl⟩ |
    ⟨d, n, e, -, happly, he, rfl, rfl⟩
  · show Work.evaluate apply _ _ = _
    rw [Work.evaluate_bind, Work.evaluate_query, happly]
    rfl
  · refine Or.inl ⟨rfl, Or.inr ?_⟩
    rw [Work.evaluate_bind, Work.evaluate_query, happly]
    rfl
  · exact Or.inl ⟨rfl, Or.inl he⟩
  · exact Or.inl ⟨rfl, Or.inl he⟩
  · refine Or.inr ⟨he, f n, ?_⟩
    rw [Work.evaluate_bind, Work.evaluate_query, happly]
    rfl

/-- The data are committed by the commit only, and it ends the work. -/
theorem allOrNothing_committing (hp : p.Stops) (hk : k.session = .inTransaction k.committed)
    (h : (committing p).Runs (ConnectionExec apply Fault) k x k') :
    AllOrNothing apply Fault p k.committed x k'.committed := by
  rcases runs_bind.mp h with ⟨e, hqueries, rfl⟩ | ⟨r, k₁, hqueries, hrest⟩
  · obtain ⟨hcommitted, hdone⟩ := Work.runs_queries hp hk hqueries
    exact Or.inl ⟨hcommitted, hdone⟩
  obtain ⟨hcommitted, d, hsession, hevaluate⟩ := Work.runs_queries hp hk hqueries
  rcases runs_bind.mp hrest with ⟨e, hcommit, rfl⟩ | ⟨_, k₂, hcommit, hpure⟩
  · rcases runs_commit hcommit with ⟨_, -, hok, -⟩ | ⟨_, herror, he, hkept | ⟨data, hdata, rfl⟩⟩
    · cases hok
    · cases herror
      exact Or.inl ⟨hkept.trans hcommitted, Or.inl he⟩
    · cases herror
      rw [hsession] at hdata
      cases hdata
      exact Or.inr ⟨he, r, hevaluate⟩
  · obtain ⟨rfl, rfl⟩ := runs_ret.mp hpure
    rcases runs_commit hcommit with ⟨data, hdata, -, rfl⟩ | ⟨_, herror, -⟩
    · rw [hsession] at hdata
      cases hdata
      exact hevaluate
    · cases herror

/-- The commit can take effect with its answer lost. -/
theorem runs_committing_lost {committed data d : D} {r : R} {e : E} (he : Fault e)
    (h : p.evaluate apply data = .ok (d, r)) :
    (committing p).Runs (ConnectionExec apply Fault) ⟨committed, .inTransaction data⟩ (.error e) ⟨d, .lost⟩ := by
  refine runs_bind.mpr (Or.inr ⟨r, _, Work.runs_of_evaluate h, runs_bind.mpr (Or.inl ⟨e, ?_, rfl⟩)⟩)
  exact runs_answer.mpr ⟨.error e, Or.inr (Or.inr ⟨d, e, rfl, he, rfl, rfl⟩), rfl⟩

/-- A rollback after an error leaves the committed data, also those of a commit without an answer. -/
theorem allOrNothing_tryCatch {q : ConnectionProg St E N R} {d : D}
    (hq : ∀ y k₁, q.Runs (ConnectionExec apply Fault) k y k₁ → AllOrNothing apply Fault p d y k₁.committed)
    (h : (q.tryCatch rollingBack).Runs (ConnectionExec apply Fault) k x k') :
    AllOrNothing apply Fault p d x k'.committed := by
  rcases runs_tryCatch.mp h with ⟨r, hr, rfl⟩ | ⟨e, k₁, he, hback⟩
  · exact hq _ _ hr
  · have hatomic := hq _ _ he
    rcases runs_bind.mp hback with ⟨e', hrollback, rfl⟩ | ⟨_, k₂, hrollback, hfail⟩
    · obtain ⟨hrolled, hfault⟩ := runs_rollback hrollback
      rw [hrolled]
      rcases hatomic with ⟨hkept, -⟩ | ⟨-, hdone⟩
      · exact Or.inl ⟨hkept, Or.inl (hfault e' rfl)⟩
      · exact Or.inr ⟨hfault e' rfl, hdone⟩
    · obtain ⟨rfl, rfl⟩ := runs_fail.mp hfail
      rw [(runs_rollback hrollback).1]
      exact hatomic

end AllOrNothing

end SecretsManager.Interleaving
