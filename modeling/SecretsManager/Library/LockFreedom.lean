import SecretsManager.Library.Interleaving

/-!
# Freedom from deadlock

Programs that wait for locks and never hold one while they wait for another cannot block each other for good: from
every configuration that they reach, those underway can all end, without a further program, an outside change or a
failed command, and then no lock is held. First each program that holds a lock goes on until it has released it;
then one after the other goes on to its end.
-/

namespace SecretsManager.Interleaving

variable {C : Type} {A : C → Type} {E R S W Req L : Type}

/-- The programs underway go on by themselves, and every answer is a good one. -/
def System.finishing (sys : System W C A E R Req) (Good : Nat → W → (c : C) → A c → W → Prop) :
    System W C A E R Req where
  admits _ := False
  body := sys.body
  exec t req trace w c a w' := sys.exec t req trace w c a w' ∧ Good t w c a w'
  environment _ _ := False

theorem System.restricts_finishing (sys : System W C A E R Req) (Good : Nat → W → (c : C) → A c → W → Prop) :
    sys.Restricts (sys.finishing Good) where
  admits _ h := h.elim
  body _ := rfl
  exec _ _ _ _ _ _ _ h := h.1
  environment _ _ h := h.elim

/-- The lock that a command waits for, which program holds a lock in a world, and the lock that a program holds by its
monitor. A program does not wait while it holds a lock, and ends without one. -/
structure Locking (sys : System W C A E R Req) (M : Req → Monitor C A S) (s₀ : S) (Post : Req → Except E R → S → Prop)
    (waits : C → Option L) (holds : W → L → Nat → Prop) (lock : S → Option L) : Prop where
  spares : ∀ {req s c l}, (M req).allows s c → waits c = some l → lock s = none
  ended : ∀ {req r s}, Post req r s → lock s = none
  own : ∀ {t req trace w c a w' l}, (M req).allows ((M req).after s₀ trace) c → sys.exec t req trace w c a w' →
    (∀ l, holds w l t → lock ((M req).after s₀ trace) = some l) → holds w' l t →
      lock ((M req).step ((M req).after s₀ trace) c a) = some l
  others : ∀ {t req trace w c a w' l t'}, sys.exec t req trace w c a w' → t' ≠ t → holds w' l t' → holds w l t'
  environment : ∀ {w w' l t}, sys.environment w w' → holds w' l t → holds w l t

/-- A command that waits for no lock that is held has a good answer. -/
def Answers (sys : System W C A E R Req) (M : Req → Monitor C A S) (s₀ : S) (Inv : W → Prop)
    (Assert : Nat → Req → S → W → Prop) (Good : Nat → W → (c : C) → A c → W → Prop) (waits : C → Option L)
    (holds : W → L → Nat → Prop) : Prop :=
  ∀ {t req trace w c}, Inv w → Assert t req ((M req).after s₀ trace) w → (M req).allows ((M req).after s₀ trace) c →
    (∀ l, waits c = some l → ∀ t', ¬ holds w l t') → ∃ a w', sys.exec t req trace w c a w' ∧ Good t w c a w'

section Locking
variable {sys : System W C A E R Req} {M : Req → Monitor C A S} {s₀ : S} {Inv : W → Prop}
  {Assert : Nat → Req → S → W → Prop} {Post : Req → Except E R → S → Prop} {Good : Nat → W → (c : C) → A c → W → Prop}
  {waits : C → Option L} {holds : W → L → Nat → Prop} {lock : S → Option L} {cfg cfg' : Config W C A E R Req}

/-- The lock that a program holds by its monitor. -/
def Thread.lock? (M : Req → Monitor C A S) (s₀ : S) (lock : S → Option L) (th : Thread W C A E R Req) : Option L :=
  lock ((M th.req).after s₀ th.trace)

/-- Every lock is held by a program that knows it. -/
def Owned (M : Req → Monitor C A S) (s₀ : S) (holds : W → L → Nat → Prop) (lock : S → Option L)
    (cfg : Config W C A E R Req) : Prop :=
  ∀ l t, holds cfg.world l t → ∃ th, cfg.threads[t]? = some th ∧ th.lock? M s₀ lock = some l

/-- What a program has held before an event, its monitor knew. -/
def Known (M : Req → Monitor C A S) (s₀ : S) (holds : W → L → Nat → Prop) (lock : S → Option L)
    (cfg : Config W C A E R Req) : Prop :=
  System.Past (fun t req earlier e => ∀ l, holds e.before l t → lock ((M req).after s₀ earlier) = some l) cfg

/-- What holds of a configuration in which every lock has its owner. -/
structure Sound (sys : System W C A E R Req) (M : Req → Monitor C A S) (s₀ : S) (Inv : W → Prop)
    (Assert : Nat → Req → S → W → Prop) (Post : Req → Except E R → S → Prop) (holds : W → L → Nat → Prop)
    (lock : S → Option L) (cfg : Config W C A E R Req) : Prop where
  good : ConfigGood sys M s₀ Inv Assert Post cfg
  owned : Owned M s₀ holds lock cfg
  known : Known M s₀ holds lock cfg

/-- The lock that a program holds in a sound configuration. -/
theorem Owned.owner (h : Owned M s₀ holds lock cfg) {l : L} {t : Nat} {th : Thread W C A E R Req}
    (hth : cfg.threads[t]? = some th) (hholds : holds cfg.world l t) : th.lock? M s₀ lock = some l := by
  obtain ⟨th', hth', hlock⟩ := h l t hholds
  exact Option.some.inj (hth.symm.trans hth') ▸ hlock

theorem Outline.sound_step (O : Outline sys M s₀ Inv Assert Post)
    (H : Locking sys M s₀ Post waits holds lock)
    (h : Sound sys M s₀ Inv Assert Post holds lock cfg) (hstep : sys.Step cfg cfg') :
    Sound sys M s₀ Inv Assert Post holds lock cfg' := by
  refine ⟨O.step h.good hstep, fun l t hholds => ?_, fun t th hth earlier e later hsplit => ?_⟩
  · cases hstep with
    | spawn _ =>
        obtain ⟨th, hth, hlock⟩ := h.owned l t hholds
        exact ⟨th, by rwa [List.getElem?_append_left (List.getElem?_eq_some_iff.mp hth).1], hlock⟩
    | @run w ths t' req trace c next a w' hth' hexec =>
        have hlt := (List.getElem?_eq_some_iff.mp hth').1
        by_cases htt : t' = t
        · subst htt
          refine ⟨_, List.getElem?_set_self hlt, ?_⟩
          rw [Thread.lock?, Monitor.after_append]
          exact H.own (h.good.threads t' _ hth').meets.1 hexec (fun l' hl' => h.owned.owner hth' hl') hholds
        · obtain ⟨th, hth, hlock⟩ := h.owned l t (H.others hexec (Ne.symm htt) hholds)
          exact ⟨th, by rwa [List.getElem?_set_ne htt], hlock⟩
    | environment henv => exact h.owned l t (H.environment henv hholds)
  · cases hstep with
    | @spawn w ths req _ =>
        rcases Nat.lt_or_ge t ths.length with hlt | hge
        · rw [List.getElem?_append_left hlt] at hth
          exact h.known t th hth earlier e later hsplit
        · rw [List.getElem?_append_right hge] at hth
          rw [List.mem_singleton.mp (List.mem_of_getElem? hth)] at hsplit
          cases earlier <;> cases hsplit
    | @run w ths t' req trace c next a w' hth' _ =>
        by_cases htt : t' = t
        · subst htt
          rw [List.getElem?_set_self (List.getElem?_eq_some_iff.mp hth').1] at hth
          obtain rfl := Option.some.inj hth
          -- the event is the last one or an earlier one
          rcases List.eq_nil_or_concat later with rfl | ⟨later, e', rfl⟩
          · obtain ⟨rfl, heq⟩ := List.append_inj' hsplit rfl
            obtain rfl := (List.cons.inj heq).1
            exact fun l hl => h.owned.owner hth' hl
          · have hsplit' : trace ++ [⟨w, c, a, w'⟩] = (earlier ++ e :: later) ++ [e'] := by
              rw [List.concat_eq_append] at hsplit
              rw [List.append_assoc]
              exact hsplit
            exact h.known t' _ hth' earlier e later (List.append_inj' hsplit' rfl).1
        · rw [List.getElem?_set_ne htt] at hth
          exact h.known t th hth earlier e later hsplit
    | environment _ => exact h.known t th hth earlier e later hsplit

theorem Outline.sound_steps (O : Outline sys M s₀ Inv Assert Post)
    (H : Locking sys M s₀ Post waits holds lock)
    (h : Sound sys M s₀ Inv Assert Post holds lock cfg) (hsteps : sys.Steps cfg cfg') :
    Sound sys M s₀ Inv Assert Post holds lock cfg' := by
  induction hsteps with
  | refl => exact h
  | tail _ hstep ih => exact O.sound_step H ih hstep

/-- Every reachable configuration is sound, when no lock is held at the start. -/
theorem Outline.sound (O : Outline sys M s₀ Inv Assert Post)
    (H : Locking sys M s₀ Post waits holds lock) {w₀ : W} (h₀ : Inv w₀)
    (hfree : ∀ l t, ¬ holds w₀ l t) (h : sys.Reachable w₀ cfg) :
    Sound sys M s₀ Inv Assert Post holds lock cfg := by
  refine O.sound_steps H ⟨O.good h₀ .refl, fun l t hholds => absurd hholds (hfree l t), fun t th hth => ?_⟩ h
  rw [List.getElem?_nil] at hth
  cases hth

theorem Outline.sound_finishing (O : Outline sys M s₀ Inv Assert Post)
    (H : Locking sys M s₀ Post waits holds lock)
    (h : Sound sys M s₀ Inv Assert Post holds lock cfg) (hsteps : (sys.finishing Good).Steps cfg cfg') :
    Sound sys M s₀ Inv Assert Post holds lock cfg' :=
  O.sound_steps H h ((sys.restricts_finishing Good).steps hsteps)

/-- The program `t` goes on to a state of this kind, while the others stand still. -/
def Brings (sys : System W C A E R Req) (Good : Nat → W → (c : C) → A c → W → Prop) (t : Nat)
    (G : Thread W C A E R Req → Prop) (cfg cfg' : Config W C A E R Req) : Prop :=
  (sys.finishing Good).Steps cfg cfg' ∧ cfg'.threads.length = cfg.threads.length ∧
    (∀ t', t' ≠ t → cfg'.threads[t']? = cfg.threads[t']?) ∧ ∃ th, cfg'.threads[t]? = some th ∧ G th

/-- It stands still when it is of this kind. -/
theorem Brings.here {t : Nat} {G : Thread W C A E R Req → Prop} {th : Thread W C A E R Req}
    (hth : cfg.threads[t]? = some th) (hG : G th) : Brings sys Good t G cfg cfg :=
  ⟨.refl, rfl, fun _ _ => rfl, th, hth, hG⟩

/-- It runs its next command, and goes on from there. -/
theorem Brings.call {t : Nat} {req : Req} {trace : List (Event W C A)} {c : C} {next : A c → Prog C A E R} {a : A c}
    {w' : W} {G : Thread W C A E R Req → Prop} (hth : cfg.threads[t]? = some ⟨req, trace, .call c next⟩)
    (hexec : sys.exec t req trace cfg.world c a w' ∧ Good t cfg.world c a w')
    (h : Brings sys Good t G ⟨w', cfg.threads.set t ⟨req, trace ++ [⟨cfg.world, c, a, w'⟩], next a⟩⟩ cfg') :
    Brings sys Good t G cfg cfg' := by
  obtain ⟨hsteps, hlength, hothers, hthread⟩ := h
  refine ⟨.head (.run hth hexec) hsteps, hlength.trans List.length_set, fun t' ht' => ?_, hthread⟩
  rw [hothers t' ht', List.getElem?_set_ne (Ne.symm ht')]

/-- A program that may run its next command does so, and goes on from there. -/
theorem Answers.brings_call (HA : Answers sys M s₀ Inv Assert Good waits holds)
    (h : Sound sys M s₀ Inv Assert Post holds lock cfg) {t : Nat} {req : Req} {trace : List (Event W C A)} {c : C}
    {next : A c → Prog C A E R} (hth : cfg.threads[t]? = some ⟨req, trace, .call c next⟩)
    (hfree : ∀ l, waits c = some l → ∀ t', ¬ holds cfg.world l t') {G : Thread W C A E R Req → Prop}
    (hnext : ∀ a w', (sys.finishing Good).Step cfg
        ⟨w', cfg.threads.set t ⟨req, trace ++ [⟨cfg.world, c, a, w'⟩], next a⟩⟩ →
      ∃ cfg', Brings sys Good t G ⟨w', cfg.threads.set t ⟨req, trace ++ [⟨cfg.world, c, a, w'⟩], next a⟩⟩ cfg') :
    ∃ cfg', Brings sys Good t G cfg cfg' := by
  have hgood := h.good.threads t _ hth
  obtain ⟨a, w', hexec⟩ := HA h.good.inv hgood.assert hgood.meets.1 hfree
  obtain ⟨cfg', hbrings⟩ := hnext a w' (.run hth hexec)
  exact ⟨cfg', hbrings.call hth hexec⟩

/-- A program that holds a lock goes on until it holds none. -/
theorem Outline.brings_unlocked (O : Outline sys M s₀ Inv Assert Post)
    (H : Locking sys M s₀ Post waits holds lock) (HA : Answers sys M s₀ Inv Assert Good waits holds)
    (h : Sound sys M s₀ Inv Assert Post holds lock cfg) {t : Nat} {th : Thread W C A E R Req}
    (hth : cfg.threads[t]? = some th) :
    ∃ cfg', Brings sys Good t (fun th => th.lock? M s₀ lock = none) cfg cfg' := by
  obtain ⟨req, trace, p⟩ := th
  induction p generalizing cfg trace with
  | ret r => exact ⟨cfg, .here hth (H.ended (h.good.threads t _ hth).meets)⟩
  | fail e => exact ⟨cfg, .here hth (H.ended (h.good.threads t _ hth).meets)⟩
  | call c next ih =>
      cases hlock : lock ((M req).after s₀ trace) with
      | none => exact ⟨cfg, .here hth hlock⟩
      | some l =>
          refine HA.brings_call h hth (fun l' hwaits => ?_) fun a w' hstep => ?_
          · have hnone := H.spares (h.good.threads t _ hth).meets.1 hwaits
            rw [hlock] at hnone
            cases hnone
          · exact ih a (O.sound_finishing H h (.single hstep)) _
              (List.getElem?_set_self (List.getElem?_eq_some_iff.mp hth).1)

/-- While the others hold no lock, a program goes on to its end. -/
theorem Outline.brings_ended (O : Outline sys M s₀ Inv Assert Post)
    (H : Locking sys M s₀ Post waits holds lock) (HA : Answers sys M s₀ Inv Assert Good waits holds)
    (h : Sound sys M s₀ Inv Assert Post holds lock cfg) {t : Nat} {th : Thread W C A E R Req}
    (hth : cfg.threads[t]? = some th)
    (hothers : ∀ t' th', t' ≠ t → cfg.threads[t']? = some th' → th'.lock? M s₀ lock = none) :
    ∃ cfg', Brings sys Good t (fun th => th.prog.result?.isSome = true ∧ th.lock? M s₀ lock = none) cfg cfg' := by
  obtain ⟨req, trace, p⟩ := th
  induction p generalizing cfg trace with
  | ret r => exact ⟨cfg, .here hth ⟨rfl, H.ended (h.good.threads t _ hth).meets⟩⟩
  | fail e => exact ⟨cfg, .here hth ⟨rfl, H.ended (h.good.threads t _ hth).meets⟩⟩
  | call c next ih =>
      refine HA.brings_call h hth (fun l hwaits t' hholds => ?_) fun a w' hstep => ?_
      · obtain ⟨th', hth', hlock⟩ := h.owned l t' hholds
        by_cases htt : t' = t
        · subst htt
          have hnone := H.spares (h.good.threads t' _ hth).meets.1 hwaits
          have howner := h.owned.owner hth hholds
          rw [Thread.lock?, hnone] at howner
          cases howner
        · rw [hothers t' th' htt hth'] at hlock
          cases hlock
      · refine ih a (O.sound_finishing H h (.single hstep)) (fun t' th' htt hth' => ?_) _
          (List.getElem?_set_self (List.getElem?_eq_some_iff.mp hth).1)
        rw [List.getElem?_set_ne (Ne.symm htt)] at hth'
        exact hothers t' th' htt hth'

/-- One program after the other. -/
theorem brings_all {K : Config W C A E R Req → Prop} {G : Thread W C A E R Req → Prop}
    (hone : ∀ {cfg t th}, K cfg → cfg.threads[t]? = some th → ∃ cfg', Brings sys Good t G cfg cfg' ∧ K cfg')
    (h : K cfg) (n : Nat) :
    ∃ cfg', (sys.finishing Good).Steps cfg cfg' ∧ K cfg' ∧ cfg'.threads.length = cfg.threads.length ∧
      ∀ (t : Nat) (th : Thread W C A E R Req), t < n → cfg'.threads[t]? = some th → G th := by
  induction n with
  | zero => exact ⟨cfg, .refl, h, rfl, fun t th ht => absurd ht (Nat.not_lt_zero t)⟩
  | succ n ih =>
      obtain ⟨mid, hmid, hok, hlength, hall⟩ := ih
      cases hth : mid.threads[n]? with
      | none =>
          refine ⟨mid, hmid, hok, hlength, fun t th ht hth' => ?_⟩
          rcases Nat.lt_succ_iff_lt_or_eq.mp ht with ht | rfl
          · exact hall t th ht hth'
          · rw [hth] at hth'
            cases hth'
      | some th =>
          obtain ⟨cfg', ⟨hsteps, hlength', hothers, th', hth', hG⟩, hok'⟩ := hone hok hth
          refine ⟨cfg', hmid.trans hsteps, hok', hlength'.trans hlength, fun t th₁ ht hth₁ => ?_⟩
          rcases Nat.lt_succ_iff_lt_or_eq.mp ht with ht | rfl
          · rw [hothers t (Nat.ne_of_lt ht)] at hth₁
            exact hall t th₁ ht hth₁
          · rw [hth'] at hth₁
            exact Option.some.inj hth₁ ▸ hG

/-- All of them. -/
theorem brings_every {K : Config W C A E R Req → Prop} {G : Thread W C A E R Req → Prop}
    (hone : ∀ {cfg t th}, K cfg → cfg.threads[t]? = some th → ∃ cfg', Brings sys Good t G cfg cfg' ∧ K cfg')
    (h : K cfg) :
    ∃ cfg', (sys.finishing Good).Steps cfg cfg' ∧ K cfg' ∧
      ∀ (t : Nat) (th : Thread W C A E R Req), cfg'.threads[t]? = some th → G th := by
  obtain ⟨cfg', hsteps, hok, hlength, hall⟩ := brings_all hone h cfg.threads.length
  refine ⟨cfg', hsteps, hok, fun t th hth => hall t th ?_ hth⟩
  exact hlength ▸ (List.getElem?_eq_some_iff.mp hth).1

/-- **The programs underway can all end**, and then no lock is held. -/
theorem Outline.finishes (O : Outline sys M s₀ Inv Assert Post)
    (H : Locking sys M s₀ Post waits holds lock) (HA : Answers sys M s₀ Inv Assert Good waits holds)
    (h : Sound sys M s₀ Inv Assert Post holds lock cfg) :
    ∃ cfg', (sys.finishing Good).Steps cfg cfg' ∧ (∀ th ∈ cfg'.threads, th.prog.result?.isSome = true) ∧
      ∀ l t, ¬ holds cfg'.world l t := by
  obtain ⟨mid, hmid, hsound, hunlocked⟩ :=
    brings_every (K := Sound sys M s₀ Inv Assert Post holds lock) (G := fun th => th.lock? M s₀ lock = none)
      (fun hok hth => by
        obtain ⟨cfg', hbrings⟩ := O.brings_unlocked H HA hok hth
        exact ⟨cfg', hbrings, O.sound_finishing H hok hbrings.1⟩) h
  obtain ⟨cfg', hsteps, hok, hended⟩ := brings_every
    (K := fun cfg => Sound sys M s₀ Inv Assert Post holds lock cfg ∧
      ∀ (t : Nat) (th : Thread W C A E R Req), cfg.threads[t]? = some th → th.lock? M s₀ lock = none)
    (G := fun th => th.prog.result?.isSome = true ∧ th.lock? M s₀ lock = none)
    (fun {cfg t th} hok hth => by
      obtain ⟨cfg', hbrings⟩ := O.brings_ended H HA hok.1 hth fun t' th' _ hth' => hok.2 t' th' hth'
      refine ⟨cfg', hbrings, O.sound_finishing H hok.1 hbrings.1, fun t' th' hth' => ?_⟩
      obtain ⟨-, -, hothers, th₁, hth₁, -, hlock⟩ := hbrings
      by_cases htt : t' = t
      · subst htt
        exact Option.some.inj (hth₁.symm.trans hth') ▸ hlock
      · exact hok.2 t' th' (by rwa [hothers t' htt] at hth')) ⟨hsound, hunlocked⟩
  refine ⟨cfg', hmid.trans hsteps, fun th hth => ?_, fun l t hholds => ?_⟩
  · obtain ⟨t, ht⟩ := List.getElem?_of_mem hth
    exact (hended t th ht).1
  · obtain ⟨th, hth, hlock⟩ := hok.1.owned l t hholds
    rw [(hended t th hth).2] at hlock
    cases hlock

end Locking

end SecretsManager.Interleaving
