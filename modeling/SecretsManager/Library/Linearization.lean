import Mathlib.Data.List.Basic
import SecretsManager.Library.Interleaving

/-!
# Linearizations

An abstract object is a relation between its states for each of its actions. A system linearizes to it when every
event of a program is seen by the object as one action, at that moment, or as nothing. Then the steps from one
configuration to another have a history: the actions of all programs in one order, which the object can take one
after the other, in which each program has its own actions in their order. Histories compose, so what has ended
comes before what has not begun.
-/

namespace SecretsManager.Interleaving

variable {C : Type} {A : C → Type} {E R S W Req V Act : Type}

/-- The actions one after the other. -/
inductive Takes (Step : Act → V → V → Prop) : V → List Act → V → Prop where
  | nil {v} : Takes Step v [] v
  | snoc {v actions v' action v''} : Takes Step v actions v' → Step action v' v'' →
      Takes Step v (actions ++ [action]) v''

theorem Takes.append {Step : Act → V → V → Prop} {v v' v'' : V} {first second : List Act}
    (h : Takes Step v first v') (h' : Takes Step v' second v'') : Takes Step v (first ++ second) v'' := by
  induction h' with
  | nil => rwa [List.append_nil]
  | snoc _ hstep ih =>
      rw [← List.append_assoc]
      exact .snoc ih hstep

/-- What each of the actions keeps. -/
theorem Takes.keeps {Step : Act → V → V → Prop} {Q : V → Prop} {v v' : V} {actions : List Act}
    (h : Takes Step v actions v') (hkeeps : ∀ action ∈ actions, ∀ {v v'}, Step action v v' → Q v → Q v') (hv : Q v) :
    Q v' := by
  induction h with
  | nil => exact hv
  | snoc _ hstep ih =>
      refine hkeeps _ (List.mem_append_right _ (List.mem_singleton.mpr rfl)) hstep (ih fun action hmem => ?_)
      exact hkeeps action (List.mem_append_left _ hmem)

/-- What the object sees of a program. -/
def Thread.actions (point : Req → Event W C A → Option Act) (th : Thread W C A E R Req) : List Act :=
  th.trace.filterMap (point th.req)

/-- What the object has seen of the program `t`. -/
def Config.actions (point : Req → Event W C A → Option Act) (cfg : Config W C A E R Req) (t : Nat) : List Act :=
  (cfg.threads[t]?.map (Thread.actions point)).getD []

/-- The actions of one program in a history. -/
def actionsOf (history : List (Nat × Act)) (t : Nat) : List Act :=
  history.filterMap fun x => if x.1 = t then some x.2 else none

theorem actionsOf_append (first second : List (Nat × Act)) (t : Nat) :
    actionsOf (first ++ second) t = actionsOf first t ++ actionsOf second t := List.filterMap_append

theorem mem_actionsOf {history : List (Nat × Act)} {t : Nat} {action : Act} :
    action ∈ actionsOf history t ↔ (t, action) ∈ history := by
  rw [actionsOf, List.mem_filterMap]
  constructor
  · rintro ⟨⟨t', action'⟩, hmem, htaken⟩
    dsimp only at htaken
    split_ifs at htaken with ht
    obtain rfl := Option.some.inj htaken
    exact ht ▸ hmem
  · exact fun hmem => ⟨(t, action), hmem, if_pos rfl⟩

/-- `history` is a history of the steps from `cfg` to `cfg'`. -/
structure Linearized (Step : Act → V → V → Prop) (abs : W → V) (point : Req → Event W C A → Option Act)
    (cfg cfg' : Config W C A E R Req) (history : List (Nat × Act)) : Prop where
  takes : Takes Step (abs cfg.world) (history.map Prod.snd) (abs cfg'.world)
  programs : ∀ t, cfg'.actions point t = cfg.actions point t ++ actionsOf history t

/-- Every event is an action of the object at that moment, or nothing, and outside changes are nothing. -/
structure Linearizes (sys : System W C A E R Req) (M : Req → Monitor C A S) (s₀ : S) (Inv : W → Prop)
    (Assert : Nat → Req → S → W → Prop) (Step : Act → V → V → Prop) (abs : W → V)
    (point : Req → Event W C A → Option Act) : Prop where
  action : ∀ {t req earlier e action}, Happened sys M s₀ Inv Assert t req earlier e → point req e = some action →
    Step action (abs e.before) (abs e.after)
  nothing : ∀ {t req earlier e}, Happened sys M s₀ Inv Assert t req earlier e → point req e = none →
    abs e.after = abs e.before
  environment : ∀ {w w'}, Inv w → sys.environment w w' → abs w' = abs w

section Linearized
variable {Step : Act → V → V → Prop} {abs : W → V} {point : Req → Event W C A → Option Act}
  {sys : System W C A E R Req} {M : Req → Monitor C A S} {s₀ : S} {Inv : W → Prop} {Assert : Nat → Req → S → W → Prop}
  {Post : Req → Except E R → S → Prop} {cfg cfg' cfg'' : Config W C A E R Req} {history more : List (Nat × Act)}

theorem Linearized.refl (cfg : Config W C A E R Req) : Linearized Step abs point cfg cfg [] where
  takes := .nil
  programs _ := (List.append_nil _).symm

theorem Linearized.trans (h : Linearized Step abs point cfg cfg' history)
    (h' : Linearized Step abs point cfg' cfg'' more) : Linearized Step abs point cfg cfg'' (history ++ more) where
  takes := by
    rw [List.map_append]
    exact h.takes.append h'.takes
  programs t := by rw [h'.programs t, h.programs t, actionsOf_append, List.append_assoc]

theorem actionsOf_point (t : Nat) (action? : Option Act) (t' : Nat) :
    actionsOf (action?.toList.map fun action => (t, action)) t' = if t = t' then action?.toList else [] := by
  cases action? with
  | none => simp [actionsOf]
  | some action => by_cases htt : t = t' <;> simp [actionsOf, htt]

/-- A new program has no action. -/
theorem Config.actions_spawn (w : W) (ths : List (Thread W C A E R Req)) (req : Req) (p : Prog C A E R) (t : Nat) :
    Config.actions point ⟨w, ths ++ [⟨req, [], p⟩]⟩ t = Config.actions point ⟨w, ths⟩ t := by
  rw [Config.actions, Config.actions]
  rcases Nat.lt_trichotomy t ths.length with hlt | rfl | hgt
  · rw [List.getElem?_append_left hlt]
  · rw [List.getElem?_concat_length, List.getElem?_eq_none (Nat.le_refl _)]
    rfl
  · rw [List.getElem?_eq_none (by rw [List.length_append]; exact hgt), List.getElem?_eq_none (Nat.le_of_lt hgt)]

/-- An event gives its program one action at most. -/
theorem Config.actions_run {w w' : W} {ths : List (Thread W C A E R Req)} {t : Nat} {th : Thread W C A E R Req}
    (hth : ths[t]? = some th) (e : Event W C A) (p : Prog C A E R) (t' : Nat) :
    Config.actions point ⟨w', ths.set t ⟨th.req, th.trace ++ [e], p⟩⟩ t' =
      Config.actions point ⟨w, ths⟩ t' ++ if t = t' then (point th.req e).toList else [] := by
  rw [Config.actions, Config.actions]
  by_cases htt : t = t'
  · subst htt
    rw [List.getElem?_set_self (List.getElem?_eq_some_iff.mp hth).1, hth, if_pos rfl]
    show (th.trace ++ [e]).filterMap (point th.req) = th.trace.filterMap (point th.req) ++ _
    rw [List.filterMap_append]
    cases hpoint : point th.req e <;> simp [hpoint]
  · rw [List.getElem?_set_ne htt, if_neg htt, List.append_nil]

/-- Each step has a history of one action, or none. -/
theorem Outline.linearized_step (O : Outline sys M s₀ Inv Assert Post)
    (hlinearizes : Linearizes sys M s₀ Inv Assert Step abs point) (hgood : ConfigGood sys M s₀ Inv Assert Post cfg)
    (hstep : sys.Step cfg cfg') : ∃ history, Linearized Step abs point cfg cfg' history := by
  have hnext := O.step hgood hstep
  cases hstep with
  | @spawn w ths req hreq =>
      refine ⟨[], .nil, fun t => ?_⟩
      exact (Config.actions_spawn w ths req _ t).trans (List.append_nil _).symm
  | @run w ths t req trace c next a w' hth hexec =>
      have hself := List.getElem?_set_self (a := ⟨req, trace ++ [⟨w, c, a, w'⟩], next a⟩)
        (List.getElem?_eq_some_iff.mp hth).1
      have hhappened := (hnext.threads t _ hself).past trace ⟨w, c, a, w'⟩ [] rfl
      refine ⟨(point req ⟨w, c, a, w'⟩).toList.map fun action => (t, action), ?_, fun t' => ?_⟩
      · cases hpoint : point req ⟨w, c, a, w'⟩ with
        | none =>
            have hsame : abs w' = abs w := hlinearizes.nothing hhappened hpoint
            exact hsame ▸ .nil
        | some action => exact .snoc .nil (hlinearizes.action hhappened hpoint)
      · rw [actionsOf_point]
        exact Config.actions_run hth ⟨w, c, a, w'⟩ (next a) t'
  | environment henv =>
      refine ⟨[], ?_, fun t => (List.append_nil _).symm⟩
      have hsame := hlinearizes.environment hgood.inv henv
      exact hsame ▸ .nil

/-- **Every run has a history.** -/
theorem Outline.linearized (O : Outline sys M s₀ Inv Assert Post)
    (hlinearizes : Linearizes sys M s₀ Inv Assert Step abs point) (hgood : ConfigGood sys M s₀ Inv Assert Post cfg)
    (hsteps : sys.Steps cfg cfg') : ∃ history, Linearized Step abs point cfg cfg' history := by
  induction hsteps with
  | refl => exact ⟨[], .refl cfg⟩
  | tail hsteps hstep ih =>
      obtain ⟨history, hhistory⟩ := ih
      obtain ⟨more, hmore⟩ := O.linearized_step hlinearizes (O.steps hgood hsteps) hstep
      exact ⟨history ++ more, hhistory.trans hmore⟩

/-- An action of a history is one of its program. -/
theorem Linearized.mem (h : Linearized Step abs point cfg cfg' history) {t : Nat} {action : Act}
    (hmem : (t, action) ∈ history) :
    ∃ th, cfg'.threads[t]? = some th ∧ ∃ e ∈ th.trace, point th.req e = some action := by
  have hactions : action ∈ cfg'.actions point t := by
    rw [h.programs t]
    exact List.mem_append_right _ (mem_actionsOf.mpr hmem)
  rw [Config.actions] at hactions
  cases hth : cfg'.threads[t]? with
  | none =>
      rw [hth] at hactions
      cases hactions
  | some th =>
      rw [hth] at hactions
      exact ⟨th, rfl, List.mem_filterMap.mp hactions⟩

/-- A program keeps its request. -/
theorem System.steps_req (hsteps : sys.Steps cfg cfg') {t : Nat} {th : Thread W C A E R Req}
    (hth : cfg.threads[t]? = some th) : ∃ th', cfg'.threads[t]? = some th' ∧ th'.req = th.req := by
  induction hsteps with
  | refl => exact ⟨th, hth, rfl⟩
  | tail _ hstep ih =>
      obtain ⟨mid, hmid, hreq⟩ := ih
      cases hstep with
      | spawn _ => exact ⟨mid, by rwa [List.getElem?_append_left (List.getElem?_eq_some_iff.mp hmid).1], hreq⟩
      | @run w ths t' req trace c next a w' hth' _ =>
          by_cases htt : t' = t
          · subst htt
            obtain rfl := Option.some.inj (hth'.symm.trans hmid)
            exact ⟨_, List.getElem?_set_self (List.getElem?_eq_some_iff.mp hmid).1, hreq⟩
          · exact ⟨mid, by rwa [List.getElem?_set_ne htt], hreq⟩
      | environment _ => exact ⟨mid, hmid, hreq⟩

/-- A program that has ended stays as it is. -/
theorem System.steps_ended (hsteps : sys.Steps cfg cfg') {t : Nat} {th : Thread W C A E R Req}
    (hth : cfg.threads[t]? = some th) {r : Except E R} (hr : th.prog.result? = some r) :
    cfg'.threads[t]? = some th := by
  induction hsteps with
  | refl => exact hth
  | tail _ hstep ih =>
      cases hstep with
      | spawn _ =>
          rw [List.getElem?_append_left (List.getElem?_eq_some_iff.mp ih).1]
          exact ih
      | @run w ths t' req trace c next a w' hth' _ =>
          have htt : t' ≠ t := by
            rintro rfl
            obtain rfl := Option.some.inj (hth'.symm.trans ih)
            cases hr
          rw [List.getElem?_set_ne htt]
          exact ih
      | environment _ => exact ih

/-- It has no more actions. -/
theorem Linearized.ended (h : Linearized Step abs point cfg cfg' history) (hsteps : sys.Steps cfg cfg') {t : Nat}
    {th : Thread W C A E R Req} (hth : cfg.threads[t]? = some th) {r : Except E R} (hr : th.prog.result? = some r) :
    actionsOf history t = [] := by
  have hprograms := h.programs t
  rw [Config.actions, Config.actions, System.steps_ended hsteps hth hr, hth] at hprograms
  exact List.append_right_eq_self.mp hprograms.symm

end Linearized

end SecretsManager.Interleaving
