import Mathlib.Data.Option.Basic
import SecretsManager.Library.Interleaving

/-!
# Components of a system

A system can be looked at from one of its parts: the part has its own requests, and what the rest of the system does
to its world is either nothing or something that its environment can do. Then every run of the whole is, seen from
the part, a run of the part by itself. So what holds of every run of the part holds inside the whole.
-/

namespace SecretsManager.Interleaving

variable {C : Type} {A : C → Type} {E R W W' Req Req' : Type}

/-- `sys` is a part of `whole`: `view` is the world of the part, and `mine` are the requests that the part serves. A
request of the others is seen as one of the part, `idle`, that never runs. -/
structure Component (sys : System W C A E R Req) (whole : System W' C A E R Req') (view : W' → W)
    (mine : Req' → Option Req) (idle : Req) : Prop where
  idle : sys.admits idle
  admits : ∀ {req' req}, whole.admits req' → mine req' = some req → sys.admits req
  body : ∀ {req' req}, mine req' = some req → whole.body req' = sys.body req
  exec : ∀ {t req' req trace w c a w'}, mine req' = some req → whole.exec t req' trace w c a w' →
    sys.exec t req (trace.map (Event.map view)) (view w) c a (view w')
  others : ∀ {t req' trace w c a w'}, mine req' = none → whole.exec t req' trace w c a w' →
    view w' = view w ∨ sys.environment (view w) (view w')
  environment : ∀ {w w'}, whole.environment w w' → view w' = view w ∨ sys.environment (view w) (view w')

/-- A program of the whole as the part sees it. -/
def Thread.seen (sys : System W C A E R Req) (view : W' → W) (mine : Req' → Option Req) (idle : Req)
    (th : Thread W' C A E R Req') : Thread W C A E R Req :=
  match mine th.req with
  | some req => ⟨req, th.trace.map (Event.map view), th.prog⟩
  | none => ⟨idle, [], sys.body idle⟩

def Config.seen (sys : System W C A E R Req) (view : W' → W) (mine : Req' → Option Req) (idle : Req)
    (cfg : Config W' C A E R Req') : Config W C A E R Req :=
  ⟨view cfg.world, cfg.threads.map (Thread.seen sys view mine idle)⟩

section Component
variable {sys : System W C A E R Req} {whole : System W' C A E R Req'} {view : W' → W} {mine : Req' → Option Req}
  {idle : Req}

theorem Thread.seen_mine {th : Thread W' C A E R Req'} {req : Req} (h : mine th.req = some req) :
    th.seen sys view mine idle = ⟨req, th.trace.map (Event.map view), th.prog⟩ := by
  rw [Thread.seen, h]

theorem Thread.seen_other {th : Thread W' C A E R Req'} (h : mine th.req = none) :
    th.seen sys view mine idle = ⟨idle, [], sys.body idle⟩ := by
  rw [Thread.seen, h]

/-- A world that is changed by nobody or by the environment. -/
theorem step_view {w w' : W} {ths : List (Thread W C A E R Req)} (h : w' = w ∨ sys.environment w w') :
    sys.Steps ⟨w, ths⟩ ⟨w', ths⟩ := by
  rcases h with rfl | henv
  · exact .refl
  · exact .single (.environment henv)

/-- A step of the whole is at most one step of the part. -/
theorem Component.step (h : Component sys whole view mine idle) {cfg cfg' : Config W' C A E R Req'}
    (hstep : whole.Step cfg cfg') :
    sys.Steps (cfg.seen sys view mine idle) (cfg'.seen sys view mine idle) := by
  cases hstep with
  | @spawn w ths req' hreq =>
      have hspawn : ∀ req, sys.admits req → Thread.seen sys view mine idle ⟨req', [], whole.body req'⟩ =
          ⟨req, [], sys.body req⟩ → sys.Steps (Config.seen sys view mine idle ⟨w, ths⟩)
            (Config.seen sys view mine idle ⟨w, ths ++ [⟨req', [], whole.body req'⟩]⟩) := by
        intro req hadmits hseen
        rw [Config.seen, Config.seen, List.map_append, List.map_singleton, hseen]
        exact .single (.spawn hadmits)
      cases hmine : mine req' with
      | none => exact hspawn idle h.idle (Thread.seen_other hmine)
      | some req =>
          refine hspawn req (h.admits hreq hmine) ?_
          rw [Thread.seen_mine hmine, h.body hmine]
          rfl
  | @run w ths t req' trace c next a w' hth hexec =>
      rw [Config.seen, Config.seen, List.map_set]
      have hseen := List.getElem?_map (f := Thread.seen sys view mine idle) (l := ths) (i := t)
      rw [hth, Option.map_some] at hseen
      cases hmine : mine req' with
      | none =>
          -- the part sees the program of another as it was
          rw [Thread.seen_other hmine] at hseen ⊢
          obtain ⟨hlt, hget⟩ := List.getElem?_eq_some_iff.mp hseen
          rw [← hget, List.set_getElem_self hlt]
          exact step_view (h.others hmine hexec)
      | some req =>
          rw [Thread.seen_mine hmine] at hseen ⊢
          rw [List.map_append, List.map_singleton]
          exact .single (.run hseen (h.exec hmine hexec))
  | environment henv => exact step_view (h.environment henv)

/-- **Seen from the part, a run of the whole is a run of the part.** -/
theorem Component.reachable (h : Component sys whole view mine idle) {w₀ : W'} {cfg : Config W' C A E R Req'}
    (hreach : whole.Reachable w₀ cfg) : sys.Reachable (view w₀) (cfg.seen sys view mine idle) := by
  induction hreach with
  | refl => exact .refl
  | tail _ hstep ih => exact ih.trans (h.step hstep)

/-- A condition on the events of the whole, as a condition on those that the part sees. -/
theorem Component.past {Cond : Nat → Req → List (Event W C A) → Event W C A → Prop} {cfg : Config W' C A E R Req'}
    (hcond : ∀ t th req, cfg.threads[t]? = some th → mine th.req = some req → ∀ earlier e later,
      th.trace = earlier ++ e :: later → Cond t req (earlier.map (Event.map view)) (e.map view)) :
    System.Past Cond (cfg.seen sys view mine idle) := by
  intro t th hth earlier e later hsplit
  rw [Config.seen, List.getElem?_map] at hth
  obtain ⟨th', hth', rfl⟩ := Option.map_eq_some_iff.mp hth
  cases hmine : mine th'.req with
  | none =>
      rw [Thread.seen_other hmine] at hsplit
      exact absurd hsplit (by simp)
  | some req =>
      rw [Thread.seen_mine hmine] at hsplit ⊢
      obtain ⟨earlier', rest, htrace, rfl, hrest⟩ := List.map_eq_append_iff.mp hsplit
      obtain ⟨e', later', rfl, rfl, rfl⟩ := List.map_eq_cons_iff.mp hrest
      exact hcond t th' req hth' hmine earlier' e' later' htrace

end Component

end SecretsManager.Interleaving
