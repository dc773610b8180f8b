import SecretsManager.Library.LockFreedom

/-!
# Programs that are killed

A killed program makes no further step, and the world loses what it held. When failures alone bring every program to
its end, with no other effect on the world than that, each run with killed programs is matched by one without: what
holds of the world in every run also holds when programs are killed at any moment.
-/

namespace SecretsManager.Interleaving

variable {C : Type} {A : C → Type} {E R W Req K : Type}

/-- The commands of a program with their answers. -/
def Thread.history (th : Thread W C A E R Req) : List ((c : C) × A c) := th.trace.map fun e => ⟨e.cmd, e.answer⟩

/-- A configuration with the programs that were killed. -/
structure CrashConfig (W C : Type) (A : C → Type) (E R Req : Type) where
  config : Config W C A E R Req
  dead : List Nat

/-- A step in which no killed program moves, or a program is killed. -/
inductive System.CrashStep (sys : System W C A E R Req) (dies : Nat → W → W) :
    CrashConfig W C A E R Req → CrashConfig W C A E R Req → Prop where
  | step {cfg cfg' dead} : sys.Step cfg cfg' → (∀ t ∈ dead, cfg'.threads[t]? = cfg.threads[t]?) →
      CrashStep sys dies ⟨cfg, dead⟩ ⟨cfg', dead⟩
  | crash {cfg dead t th} : cfg.threads[t]? = some th → t ∉ dead →
      CrashStep sys dies ⟨cfg, dead⟩ ⟨⟨dies t cfg.world, cfg.threads⟩, t :: dead⟩

/-- The runs in which programs can be killed. -/
def System.CrashReachable (sys : System W C A E R Req) (dies : Nat → W → W) (w₀ : W) :
    CrashConfig W C A E R Req → Prop :=
  Relation.ReflTransGen (sys.CrashStep dies) ⟨⟨w₀, []⟩, []⟩

/-- The program has come to an end from where it was. -/
def Thread.Concludes (th th' : Thread W C A E R Req) : Prop :=
  th'.req = th.req ∧ th.history <+: th'.history ∧ th'.prog.result?.isSome = true

/-- A configuration without killed programs that stands for one with them: the killed programs have come to an end,
the others are where they are there. -/
structure Mirrors (Rel : W → W → Prop) (c : CrashConfig W C A E R Req) (cfg : Config W C A E R Req) : Prop where
  world : Rel c.config.world cfg.world
  length : cfg.threads.length = c.config.threads.length
  alive : ∀ t th, t ∉ c.dead → c.config.threads[t]? = some th →
    ∃ th', cfg.threads[t]? = some th' ∧ th'.req = th.req ∧ th'.history = th.history ∧ th'.prog = th.prog
  dead : ∀ t ∈ c.dead, ∃ th th', c.config.threads[t]? = some th ∧ cfg.threads[t]? = some th' ∧ th.Concludes th'

/-- The worlds of the two runs are related, up to what the one without killed programs has to spare for the rest of
the other. -/
structure Survives (sys : System W C A E R Req) (dies : Nat → W → W) (w₀ : W) (Rel : K → W → W → Prop) : Prop where
  start : ∀ k, Rel k w₀ w₀
  exec : ∀ k {t req trace w c a w'}, sys.exec t req trace w c a w' → ∃ k', ∀ {trace' v}, Rel k' w v →
    ∃ v', sys.exec t req trace' v c a v' ∧ Rel k w' v'
  environment : ∀ k {w w'}, sys.environment w w' → ∃ k', ∀ {v}, Rel k' w v →
    ∃ v', sys.environment v v' ∧ Rel k w' v'
  crash : ∀ k {cfg t th w}, sys.Reachable w₀ cfg → cfg.threads[t]? = some th → Rel k w cfg.world →
    ∃ Good cfg', Brings sys Good t th.Concludes cfg cfg' ∧ Rel k (dies t w) cfg'.world

theorem System.Reachable.crashReachable {sys : System W C A E R Req} {w₀ : W} {cfg : Config W C A E R Req}
    (h : sys.Reachable w₀ cfg) (dies : Nat → W → W) : sys.CrashReachable dies w₀ ⟨cfg, []⟩ := by
  induction h with
  | refl => exact .refl
  | tail _ hstep ih => exact ih.tail (.step hstep fun t ht => by cases ht)

theorem Mirrors.mono {Rel Rel' : W → W → Prop} {c : CrashConfig W C A E R Req} {cfg : Config W C A E R Req}
    (h : Mirrors Rel c cfg) (hrel : ∀ w v, Rel w v → Rel' w v) : Mirrors Rel' c cfg :=
  { h with world := hrel _ _ h.world }

section Survives
variable {sys : System W C A E R Req} {dies : Nat → W → W} {w₀ : W} {Rel : K → W → W → Prop}

/-- When every command has a good answer, a program goes on to its end. -/
theorem exists_brings_concludes {Good : Nat → W → (c : C) → A c → W → Prop} {t : Nat}
    (hanswers : ∀ req trace w c, ∃ a w', sys.exec t req trace w c a w' ∧ Good t w c a w')
    {cfg : Config W C A E R Req} {th : Thread W C A E R Req} (hth : cfg.threads[t]? = some th) :
    ∃ cfg', Brings sys Good t th.Concludes cfg cfg' := by
  obtain ⟨req, trace, p⟩ := th
  induction p generalizing cfg trace with
  | ret r => exact ⟨cfg, .here hth ⟨rfl, List.prefix_rfl, rfl⟩⟩
  | fail e => exact ⟨cfg, .here hth ⟨rfl, List.prefix_rfl, rfl⟩⟩
  | call c next ih =>
      obtain ⟨a, w', hexec⟩ := hanswers req trace cfg.world c
      have hself : (⟨w', cfg.threads.set t ⟨req, trace ++ [⟨cfg.world, c, a, w'⟩], next a⟩⟩ :
          Config W C A E R Req).threads[t]? = some ⟨req, trace ++ [⟨cfg.world, c, a, w'⟩], next a⟩ :=
        List.getElem?_set_self (List.getElem?_eq_some_iff.mp hth).1
      obtain ⟨cfg', hsteps, hlength, hothers, th', hth', hreq, hhistory, hended⟩ := ih a _ hself
      refine ⟨cfg', Brings.call hth hexec ⟨hsteps, hlength, hothers, th', hth', hreq, ?_, hended⟩⟩
      refine List.IsPrefix.trans ?_ hhistory
      rw [Thread.history, Thread.history, List.map_append]
      exact List.prefix_append _ _

theorem Mirrors.spawn {R' : W → W → Prop} {w : W} {ths : List (Thread W C A E R Req)} {dead : List Nat}
    {cfg : Config W C A E R Req} (h : Mirrors R' ⟨⟨w, ths⟩, dead⟩ cfg) (req : Req) (p : Prog C A E R) :
    Mirrors R' ⟨⟨w, ths ++ [⟨req, [], p⟩]⟩, dead⟩ ⟨cfg.world, cfg.threads ++ [⟨req, [], p⟩]⟩ := by
  have hlength : cfg.threads.length = ths.length := h.length
  refine ⟨h.world, by simp [hlength], fun t th halive hth => ?_, fun t ht => ?_⟩
  · rcases Nat.lt_or_ge t ths.length with hlt | hge
    · have hth : (ths ++ [⟨req, [], p⟩])[t]? = some th := hth
      rw [List.getElem?_append_left hlt] at hth
      obtain ⟨th', hth', hsame⟩ := h.alive t th halive hth
      exact ⟨th', by rwa [List.getElem?_append_left (hlength ▸ hlt)], hsame⟩
    · have hth : (ths ++ [⟨req, [], p⟩])[t]? = some th := hth
      rw [List.getElem?_append_right hge] at hth
      refine ⟨th, ?_, rfl, rfl, rfl⟩
      rw [List.getElem?_append_right (hlength ▸ hge), hlength]
      exact hth
  · obtain ⟨th, th', hth, hth', hconcludes⟩ := h.dead t ht
    refine ⟨th, th', ?_, ?_, hconcludes⟩
    · show (ths ++ [_])[t]? = some th
      rw [List.getElem?_append_left (List.getElem?_eq_some_iff.mp hth).1]
      exact hth
    · rw [List.getElem?_append_left (List.getElem?_eq_some_iff.mp hth').1]
      exact hth'

/-- A thread of both configurations goes on in the same way. -/
theorem Mirrors.set {R' R'' : W → W → Prop} {w w' v v' : W} {ths ths' : List (Thread W C A E R Req)} {dead : List Nat}
    (h : Mirrors R' ⟨⟨w, ths⟩, dead⟩ ⟨v, ths'⟩) {t : Nat} (halive : t ∉ dead) {th th' : Thread W C A E R Req}
    (hreq : th'.req = th.req) (hhistory : th'.history = th.history) (hprog : th'.prog = th.prog) (hworld : R'' w' v') :
    Mirrors R'' ⟨⟨w', ths.set t th⟩, dead⟩ ⟨v', ths'.set t th'⟩ := by
  have hlength : ths'.length = ths.length := h.length
  refine ⟨hworld, by simp [hlength], fun t' th₁ halive' hth₁ => ?_, fun t' ht' => ?_⟩
  · have hth₁ : (ths.set t th)[t']? = some th₁ := hth₁
    by_cases htt : t = t'
    · subst htt
      have hlt : t < ths.length := by simpa using (List.getElem?_eq_some_iff.mp hth₁).1
      rw [List.getElem?_set_self hlt] at hth₁
      obtain rfl := Option.some.inj hth₁
      exact ⟨th', List.getElem?_set_self (hlength ▸ hlt), hreq, hhistory, hprog⟩
    · rw [List.getElem?_set_ne htt] at hth₁
      obtain ⟨th₂, hth₂, hsame⟩ := h.alive t' th₁ halive' hth₁
      exact ⟨th₂, by rwa [List.getElem?_set_ne htt], hsame⟩
  · have htt : t ≠ t' := fun htt => halive (htt ▸ ht')
    obtain ⟨th₁, th₂, hth₁, hth₂, hconcludes⟩ := h.dead t' ht'
    refine ⟨th₁, th₂, ?_, by rwa [List.getElem?_set_ne htt], hconcludes⟩
    show (ths.set t th)[t']? = some th₁
    rwa [List.getElem?_set_ne htt]

/-- **Every run with killed programs is matched by a run without.** -/
theorem Survives.mirrored (H : Survives sys dies w₀ Rel) {c : CrashConfig W C A E R Req}
    (h : sys.CrashReachable dies w₀ c) (k : K) : ∃ cfg, sys.Reachable w₀ cfg ∧ Mirrors (Rel k) c cfg := by
  induction h generalizing k with
  | refl =>
      refine ⟨⟨w₀, []⟩, .refl, H.start k, rfl, fun t th _ hth => ?_, fun t ht => by cases ht⟩
      cases hth
  | tail _ hstep ih =>
      cases hstep with
      | @step c c' dead hs huntouched =>
          cases hs with
          | @spawn w ths req hreq =>
              obtain ⟨cfg, hcfg, hmirrors⟩ := ih k
              exact ⟨_, hcfg.tail (.spawn hreq), hmirrors.spawn req _⟩
          | @run w ths t req trace c next a w' hth hexec =>
              obtain ⟨k', hk'⟩ := H.exec k hexec
              obtain ⟨⟨v, ths'⟩, hcfg, hmirrors⟩ := ih k'
              have halive : t ∉ dead := by
                -- its trace has grown
                intro hdead
                have hsame := huntouched t hdead
                rw [List.getElem?_set_self (List.getElem?_eq_some_iff.mp hth).1, hth] at hsame
                have hlength := congrArg (fun th => th.trace.length) (Option.some.inj hsame)
                simp at hlength
              obtain ⟨⟨req', trace', p'⟩, hth', hreq, hhistory, hprog⟩ := hmirrors.alive t _ halive hth
              dsimp only at hreq hprog
              subst hreq hprog
              obtain ⟨v', hexec', hrel⟩ := @hk' trace' v hmirrors.world
              refine ⟨_, hcfg.tail (.run hth' hexec'), hmirrors.set halive rfl ?_ rfl hrel⟩
              rw [Thread.history, Thread.history, List.map_append, List.map_append]
              exact congrArg (· ++ _) hhistory
          | @environment w ths w' henv =>
              obtain ⟨k', hk'⟩ := H.environment k henv
              obtain ⟨⟨v, ths'⟩, hcfg, hmirrors⟩ := ih k'
              obtain ⟨v', henv', hrel⟩ := hk' hmirrors.world
              exact ⟨_, hcfg.tail (.environment henv'), { hmirrors with world := hrel }⟩
      | @crash c dead t th hth hnew =>
          obtain ⟨cfg, hcfg, hmirrors⟩ := ih k
          obtain ⟨th', hth', hreq, hhistory, -⟩ := hmirrors.alive t th hnew hth
          obtain ⟨Good, cfg', ⟨hsteps, hlength, hothers, th₁, hth₁, hreq₁, hprefix, hended⟩, hrel⟩ :=
            H.crash k hcfg hth' hmirrors.world
          have hconcludes : th.Concludes th₁ := ⟨hreq₁.trans hreq, hhistory ▸ hprefix, hended⟩
          refine ⟨cfg', hcfg.trans ((sys.restricts_finishing Good).steps hsteps), hrel, hlength.trans hmirrors.length,
            fun t' th' halive' hth₂ => ?_, fun t' ht' => ?_⟩
          · obtain ⟨hne, halive⟩ := not_or.mp (mt List.mem_cons.mpr halive')
            rw [hothers t' hne]
            exact hmirrors.alive t' th' halive hth₂
          · by_cases htt : t' = t
            · subst htt
              exact ⟨th, th₁, hth, hth₁, hconcludes⟩
            · rw [hothers t' htt]
              exact hmirrors.dead t' ((List.mem_cons.mp ht').resolve_left htt)

end Survives

end SecretsManager.Interleaving
