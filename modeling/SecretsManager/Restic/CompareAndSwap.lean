import SecretsManager.History
import SecretsManager.Runs

/-!
# No local edit is lost to a synchronization

A confirmation compares and swaps. It carries the hash of the content that its user has seen, or reads the
content itself at its start, and what it replaces later has that content. The long restore lies in
between, outside of any lock; that no edit falls between the comparison and the replacement is the work of
the write section, and that the comparison says something about the content is that of the hash.
-/

namespace SecretsManager

open Js Interleaving

variable {R : Type} {restic : Restic R} {P : Platform} {timeouts : ResticTimeouts}
  {admits : Operation → Prop} {op : Operation} {t : Nat} {projectId : JsString} {sent : Option JsString}

/-! ## The start of a confirmation without a token -/

/-- It reads the project, then lists the secrets, and ends when that fails. -/
inductive Opening where
  | reading
  | captured
  | failed

def Opening.step : Opening → (c : Cmd) → c.Answer → Opening
  | .reading, .secretsList _, .ok _ => .captured
  | .reading, .secretsList _, .error _ => .failed
  | s, _, _ => s

def Opening.allows : Opening → Cmd → Prop
  | .reading, .projectsGet _ | .reading, .secretsList _ => True
  | .reading, _ => False
  | .captured, _ => True
  | .failed, _ => False

section Meets
variable {α : Type}

end Meets

def openingAfter (trace : List (ServerEvent R)) : Opening :=
  trace.foldl (fun s e => s.step e.cmd e.answer) .reading

theorem openingAfter_append (trace : List (ServerEvent R)) (e : ServerEvent R) :
    openingAfter (trace ++ [e]) = (openingAfter trace).step e.cmd e.answer := by
  simp [openingAfter]

/-- The events of a confirmation without a token. -/
def Opens (trace : List (ServerEvent R)) : Prop :=
  ∀ earlier e later, trace = earlier ++ e :: later → (openingAfter earlier).allows e.cmd

theorem Opens.of_append {earlier later : List (ServerEvent R)} (h : Opens (earlier ++ later)) :
    Opens earlier := by
  rintro a e b rfl
  exact h a e (b ++ later) (by simp)

theorem Opens.last {trace : List (ServerEvent R)} {e : ServerEvent R} (h : Opens (trace ++ [e])) :
    (openingAfter trace).allows e.cmd :=
  h trace e [] rfl

/-- So far the operation has read the project only. -/
def ReadsProject (trace : List (ServerEvent R)) : Prop := ∀ e ∈ trace, ∃ id, e.cmd = .projectsGet id

theorem Opens.reading {trace : List (ServerEvent R)} (h : Opens trace) (hs : openingAfter trace = .reading) :
    ReadsProject trace := by
  induction trace using List.reverseRecOn with
  | nil => exact fun e he => by cases he
  | append_singleton trace e ih =>
      rw [openingAfter_append] at hs
      have hlast := h.last
      have hread : openingAfter trace = .reading ∧ ∃ id, e.cmd = .projectsGet id := by
        obtain ⟨w, c, a, w'⟩ := e
        dsimp only at hs hlast ⊢
        cases hold : openingAfter trace with
        | reading =>
            rw [hold] at hs hlast
            cases c with
            | projectsGet id => exact ⟨rfl, id, rfl⟩
            | secretsList id => cases a <;> cases hs
            | _ => exact hlast.elim
        | captured =>
            rw [hold] at hs
            cases hs
        | failed =>
            rw [hold] at hlast
            exact hlast.elim
      intro x hx
      rcases List.mem_append.mp hx with hx | hx
      · exact ih h.of_append hread.1 x hx
      · rw [List.mem_singleton.mp hx]
        exact hread.2

theorem Opens.captured {trace : List (ServerEvent R)} (h : Opens trace)
    (hs : openingAfter trace = .captured) : ∃ start w id rows w' rest,
      trace = start ++ ⟨w, .secretsList id, .ok rows, w'⟩ :: rest ∧ ReadsProject start := by
  induction trace using List.reverseRecOn with
  | nil => cases hs
  | append_singleton trace e ih =>
      rw [openingAfter_append] at hs
      have hlast := h.last
      cases hold : openingAfter trace with
      | reading =>
          obtain ⟨w, c, a, w'⟩ := e
          rw [hold] at hs hlast
          cases c with
          | secretsList id =>
              cases a with
              | error e => cases hs
              | ok rows => exact ⟨trace, w, id, rows, w', [], rfl, h.of_append.reading hold⟩
          | projectsGet id => cases hs
          | _ => exact hlast.elim
      | captured =>
          obtain ⟨start, w, id, rows, w', rest, rfl, hstart⟩ := ih h.of_append hold
          exact ⟨start, w, id, rows, w', rest ++ [e], by simp, hstart⟩
      | failed =>
          rw [hold] at hlast
          exact hlast.elim

theorem ReadsProject.lock {trace : List (ServerEvent R)} (h : ReadsProject trace) :
    (viewAfter trace).lock = none := by
  induction trace using List.reverseRecOn with
  | nil => rfl
  | append_singleton trace e ih =>
      have hlock := ih fun x hx => h x (List.mem_append_left _ hx)
      obtain ⟨id, hid⟩ := h e (by simp)
      obtain ⟨w, c, a, w'⟩ := e
      dsimp only at hid
      subst hid
      rw [viewAfter_append]
      cases a with
      | error e => exact hlock
      | ok row =>
          rw [View.step]
          split_ifs <;> exact hlock

/-! ## The swap -/

theorem outcome_of_confirms {x : JsString × Option JsString} (hop : op.confirms = some x) {r : Except Failure Response}
    {v : View} (h : Outcome P op r v) : ConfirmOutcome r v := by
  cases op <;> first | exact h | cases hop

/-- A confirmation that has answered with success has committed one replacement. -/
theorem confirmed_replaces {w₀ : World R} (h₀ : Inv w₀)
    {cfg : Config (World R) Cmd Cmd.Answer Failure Response Operation}
    (h : (server P timeouts restic admits).Reachable w₀ cfg)
    {th : Thread (World R) Cmd Cmd.Answer Failure Response Operation}
    (hth : cfg.threads[t]? = some th) (hop : th.req.confirms = some (projectId, sent)) {body : ResponseBody}
    (hbody : th.prog.result? = some (.ok ⟨200, body⟩)) : ∃ earlier w w' later secrets state n,
      th.trace = earlier ++
        ⟨w, .transact (.secretsDataReplaceForProject projectId secrets state), .ok n, w'⟩ :: later ∧
      Replaces P th.req (viewAfter earlier) projectId secrets state ∧
      ∀ x ∈ earlier ++ later, x.after.db = x.before.db := by
  have hthread := ((serverOutline P timeouts restic admits).good h₀ h).threads t th hth
  have hlawful : Lawful P timeouts restic admits t th.req th.trace := hthread.past
  have houtcome : ConfirmOutcome (.ok ⟨200, body⟩) (viewAfter th.trace) :=
    outcome_of_confirms hop (hthread.meets.result hbody)
  rcases houtcome with ⟨_, projectId', secrets, state, n, -, hdone⟩ | ⟨hrefused, -⟩
  · obtain ⟨earlier, e, later, hsplit, he, hothers⟩ := hlawful.one_committed hdone
    obtain ⟨w, w', rfl⟩ := committed?_eq_some he
    have hallowed : AllowsTransaction P th.req (viewAfter earlier)
        (.secretsDataReplaceForProject projectId' secrets state) := (hlawful earlier _ later hsplit).allowed
    have hreplaces : Replaces P th.req (viewAfter earlier) projectId' secrets state := hallowed
    obtain ⟨sent', rows, hconfirms, -, -⟩ := hreplaces.compared
    rw [hop] at hconfirms
    cases hconfirms
    exact ⟨earlier, w, w', later, secrets, state, n, hsplit, hreplaces, hothers⟩
  · exact absurd rfl (hrefused body)

/-! ## Over runs -/

section Example

/-- The secret `api` has the value `2`, and the snapshot `s1` the value `1`. -/
def editedDb : Db where
  projects := [exampleProject]
  secrets := [exampleSecret "a" "2" 1]
  valid := by decide

/-- A restore of `s1` with the hash of the edited secret. -/
def swap : Operation := .restore (js "p") (js "s1") (some (.str hash2))

def swapMoves : List (Move Operation JsString) := .spawn swap :: steps 0 8 ++ [.run 0 (js "b")] ++ steps 0 7

def swapped : Response := ⟨200, .restored ⟨js "s1", Snapshots.snapshotTime, 1, 1⟩⟩

end Example

end SecretsManager
