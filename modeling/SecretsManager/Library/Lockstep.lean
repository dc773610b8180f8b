import SecretsManager.Library.Interleaving

/-!
# Systems in lockstep

A system follows another when each of its programs corresponds to one of the other and every step of the one is matched
by one step of the other with the same effect on the world. The programs, their requests and their commands can differ;
what they do to the world cannot.
-/

namespace SecretsManager.Interleaving

variable {W C C' E R R' Req Req' : Type} {A : C → Type} {A' : C' → Type}

/-- Two configurations over one world, with the programs of the one beside those of the other. -/
structure Config.Beside (Rel : Thread W C A E R Req → Thread W C' A' E R' Req' → Prop) (cfg : Config W C A E R Req)
    (cfg' : Config W C' A' E R' Req') : Prop where
  world : cfg'.world = cfg.world
  length : cfg'.threads.length = cfg.threads.length
  threads : ∀ {t : Nat} {th}, cfg.threads[t]? = some th → ∃ th', cfg'.threads[t]? = some th' ∧ Rel th th'

/-- What each step of the one system has in the other, where `Inv` holds of the world. -/
structure Lockstep (sys : System W C A E R Req) (sys' : System W C' A' E R' Req')
    (Rel : Thread W C A E R Req → Thread W C' A' E R' Req' → Prop) (Inv : W → Prop) : Prop where
  spawn : ∀ req, sys.admits req → ∃ req', sys'.admits req' ∧ Rel ⟨req, [], sys.body req⟩ ⟨req', [], sys'.body req'⟩
  run : ∀ {t req trace w c next a w' th'}, Inv w → Rel ⟨req, trace, .call c next⟩ th' →
    sys.exec t req trace w c a w' → Inv w' ∧ ∃ c' next' a', th'.prog = .call c' next' ∧
      sys'.exec t th'.req th'.trace w c' a' w' ∧
      Rel ⟨req, trace ++ [⟨w, c, a, w'⟩], next a⟩ ⟨th'.req, th'.trace ++ [⟨w, c', a', w'⟩], next' a'⟩
  environment : ∀ {w w'}, Inv w → sys.environment w w' → Inv w' ∧ sys'.environment w w'

variable {sys : System W C A E R Req} {sys' : System W C' A' E R' Req'}
  {Rel : Thread W C A E R Req → Thread W C' A' E R' Req' → Prop} {Inv : W → Prop}

theorem Lockstep.step (L : Lockstep sys sys' Rel Inv) {cfg next : Config W C A E R Req}
    {cfg' : Config W C' A' E R' Req'} (hinv : Inv cfg.world) (h : cfg.Beside Rel cfg') (hstep : sys.Step cfg next) :
    Inv next.world ∧ ∃ next', sys'.Step cfg' next' ∧ next.Beside Rel next' := by
  obtain ⟨w, ths'⟩ := cfg'
  cases hstep with
  | @spawn w ths req hreq =>
      obtain ⟨rfl, hlength, hthreads⟩ := h
      obtain ⟨req', hreq', hrel⟩ := L.spawn req hreq
      refine ⟨hinv, _, .spawn hreq', rfl, by simp [hlength], fun {t th} hth => ?_⟩
      rcases Nat.lt_or_ge t ths.length with hlt | hge
      · rw [List.getElem?_append_left hlt] at hth
        obtain ⟨th', hth', hrel'⟩ := hthreads hth
        exact ⟨th', by rw [List.getElem?_append_left (hlength ▸ hlt)]; exact hth', hrel'⟩
      · rw [List.getElem?_append_right hge] at hth
        rw [List.mem_singleton.mp (List.mem_of_getElem? hth)]
        refine ⟨_, ?_, hrel⟩
        have ht : t - ths.length = 0 := by
          have hlt := (List.getElem?_eq_some_iff.mp hth).1
          rw [List.length_singleton] at hlt
          omega
        rw [List.getElem?_append_right (hlength ▸ hge), hlength, ht]
        rfl
  | @run w ths t req trace c next a w' hth hexec =>
      obtain ⟨rfl, hlength, hthreads⟩ := h
      obtain ⟨⟨req', trace', prog'⟩, hth', hrel⟩ := hthreads hth
      obtain ⟨hinv', c', next', a', rfl, hexec', hrel'⟩ := L.run hinv hrel hexec
      refine ⟨hinv', _, .run hth' hexec', rfl, by simp [hlength], fun {t₁ th₁} hth₁ => ?_⟩
      by_cases ht : t = t₁
      · subst ht
        rw [List.getElem?_set_self (List.getElem?_eq_some_iff.mp hth).1, Option.some.injEq] at hth₁
        subst hth₁
        exact ⟨_, List.getElem?_set_self (List.getElem?_eq_some_iff.mp hth').1, hrel'⟩
      · rw [List.getElem?_set_ne ht] at hth₁
        obtain ⟨th', hth', hrel'⟩ := hthreads hth₁
        exact ⟨th', by rw [List.getElem?_set_ne ht]; exact hth', hrel'⟩
  | environment henv =>
      obtain ⟨rfl, hlength, hthreads⟩ := h
      obtain ⟨hinv', henv'⟩ := L.environment hinv henv
      exact ⟨hinv', _, .environment henv', rfl, hlength, hthreads⟩

/-- **Every run has its match in the other system.** -/
theorem Lockstep.steps (L : Lockstep sys sys' Rel Inv) {cfg next : Config W C A E R Req}
    {cfg' : Config W C' A' E R' Req'} (hinv : Inv cfg.world) (h : cfg.Beside Rel cfg') (hsteps : sys.Steps cfg next) :
    Inv next.world ∧ ∃ next', sys'.Steps cfg' next' ∧ next.Beside Rel next' := by
  induction hsteps with
  | refl => exact ⟨hinv, cfg', .refl, h⟩
  | tail _ hstep ih =>
      obtain ⟨hinv, mid', hmid, h⟩ := ih
      obtain ⟨hinv, next', hnext, h⟩ := L.step hinv h hstep
      exact ⟨hinv, next', hmid.tail hnext, h⟩

theorem Lockstep.reachable (L : Lockstep sys sys' Rel Inv) {w₀ : W} {cfg : Config W C A E R Req}
    (h : sys.Reachable w₀ cfg) (hinv : Inv w₀) : Inv cfg.world ∧ ∃ cfg', sys'.Reachable w₀ cfg' ∧ cfg.Beside Rel cfg' :=
  L.steps hinv ⟨rfl, rfl, fun hth => by simp at hth⟩ h

/-- The other way round every program stands beside one, too. -/
theorem Config.Beside.thread {cfg : Config W C A E R Req} {cfg' : Config W C' A' E R' Req'} (h : cfg.Beside Rel cfg')
    {t : Nat} {th' : Thread W C' A' E R' Req'} (hth' : cfg'.threads[t]? = some th') :
    ∃ th, cfg.threads[t]? = some th ∧ Rel th th' := by
  have hlt : t < cfg.threads.length := h.length ▸ (List.getElem?_eq_some_iff.mp hth').1
  obtain ⟨th'', hth'', hrel⟩ := h.threads (List.getElem?_eq_getElem hlt)
  obtain rfl : th' = th'' := Option.some.inj (hth'.symm.trans hth'')
  exact ⟨_, List.getElem?_eq_getElem hlt, hrel⟩

end SecretsManager.Interleaving
