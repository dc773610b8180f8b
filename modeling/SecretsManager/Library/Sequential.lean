import SecretsManager.Library.Interleaving

/-!
# Programs that run alone

The runs of one program from a state, command after command, without any other program between them.
-/

namespace SecretsManager.Interleaving

variable {C C' : Type} {A : C → Type} {A' : C' → Type} {E R R' W : Type}

/-- The program can run from the world to this result and this world. -/
inductive Prog.Runs (exec : W → (c : C) → A c → W → Prop) : Prog C A E R → W → Except E R → W → Prop where
  | ret {r w} : Runs exec (.ret r) w (.ok r) w
  | fail {e w} : Runs exec (.fail e) w (.error e) w
  | call {c next w a w' r w''} : exec w c a w' → Runs exec (next a) w' r w'' →
      Runs exec (.call c next) w r w''

section Runs
variable {exec : W → (c : C) → A c → W → Prop} {w w' : W}

theorem runs_ret {r : R} {x : Except E R} :
    (Prog.ret r : Prog C A E R).Runs exec w x w' ↔ x = .ok r ∧ w' = w := by
  constructor
  · rintro ⟨⟩
    exact ⟨rfl, rfl⟩
  · rintro ⟨rfl, rfl⟩
    exact .ret

theorem runs_fail {e : E} {x : Except E R} :
    (Prog.fail e : Prog C A E R).Runs exec w x w' ↔ x = .error e ∧ w' = w := by
  constructor
  · rintro ⟨⟩
    exact ⟨rfl, rfl⟩
  · rintro ⟨rfl, rfl⟩
    exact .fail

theorem runs_call {c : C} {next : A c → Prog C A E R} {x : Except E R} :
    (Prog.call c next).Runs exec w x w' ↔ ∃ a w₁, exec w c a w₁ ∧ (next a).Runs exec w₁ x w' := by
  constructor
  · rintro (_ | _ | ⟨hexec, hnext⟩)
    exact ⟨_, _, hexec, hnext⟩
  · rintro ⟨a, w₁, hexec, hnext⟩
    exact .call hexec hnext

theorem runs_lift {c : C} {x : Except E (A c)} :
    (Prog.lift c : Prog C A E (A c)).Runs exec w x w' ↔ ∃ a, x = .ok a ∧ exec w c a w' := by
  rw [Prog.lift, runs_call]
  constructor
  · rintro ⟨a, w₁, hexec, hret⟩
    obtain ⟨rfl, rfl⟩ := runs_ret.mp hret
    exact ⟨a, rfl, hexec⟩
  · rintro ⟨a, rfl, hexec⟩
    exact ⟨a, w', hexec, .ret⟩

theorem runs_ofExcept {x y : Except E R} :
    (Prog.ofExcept x : Prog C A E R).Runs exec w y w' ↔ y = x ∧ w' = w := by
  cases x with
  | ok r => exact runs_ret
  | error e => exact runs_fail

/-- A sequence ends with the error of its first part, or with its second part. -/
theorem runs_bind {p : Prog C A E R} {f : R → Prog C A E R'} {x : Except E R'} :
    (p >>= f).Runs exec w x w' ↔
      (∃ e, p.Runs exec w (.error e) w' ∧ x = .error e) ∨
        ∃ r w₁, p.Runs exec w (.ok r) w₁ ∧ (f r).Runs exec w₁ x w' := by
  rw [Prog.bind_eq]
  induction p generalizing w with
  | ret r =>
      constructor
      · exact fun h => Or.inr ⟨r, w, .ret, h⟩
      · rintro (⟨e, h, -⟩ | ⟨r', w₁, h, hf⟩)
        · cases h
        · cases h
          exact hf
  | fail e =>
      constructor
      · intro h
        obtain ⟨rfl, rfl⟩ := runs_fail.mp h
        exact Or.inl ⟨e, .fail, rfl⟩
      · rintro (⟨e', h, rfl⟩ | ⟨r', w₁, h, -⟩)
        · cases h
          exact .fail
        · cases h
  | call c next ih =>
      constructor
      · intro h
        obtain ⟨a, w₁, hexec, hnext⟩ := runs_call.mp h
        rcases (ih a).mp hnext with ⟨e, he, rfl⟩ | ⟨r, w₂, hr, hf⟩
        · exact Or.inl ⟨e, .call hexec he, rfl⟩
        · exact Or.inr ⟨r, w₂, .call hexec hr, hf⟩
      · rintro (⟨e, h, rfl⟩ | ⟨r, w₂, h, hf⟩)
        · obtain ⟨a, w₁, hexec, hnext⟩ := runs_call.mp h
          exact .call hexec ((ih a).mpr (Or.inl ⟨e, hnext, rfl⟩))
        · obtain ⟨a, w₁, hexec, hnext⟩ := runs_call.mp h
          exact .call hexec ((ih a).mpr (Or.inr ⟨r, w₂, hnext, hf⟩))

/-- A sequence that gives a result has run both of its parts. -/
theorem runs_bind_ok {p : Prog C A E R} {f : R → Prog C A E R'} {r : R'} : (p >>= f).Runs exec w (.ok r) w' ↔
    ∃ a w₁, p.Runs exec w (.ok a) w₁ ∧ (f a).Runs exec w₁ (.ok r) w' := by
  rw [runs_bind]
  constructor
  · rintro (⟨e, -, heq⟩ | hrest)
    · cases heq
    · exact hrest
  · exact Or.inr

theorem not_runs_fail {e : E} {r : R} : ¬ (Prog.fail e : Prog C A E R).Runs exec w (.ok r) w' := nofun

theorem runs_tryCatch {p : Prog C A E R} {f : E → Prog C A E R} {x : Except E R} :
    (p.tryCatch f).Runs exec w x w' ↔
      (∃ r, p.Runs exec w (.ok r) w' ∧ x = .ok r) ∨
        ∃ e w₁, p.Runs exec w (.error e) w₁ ∧ (f e).Runs exec w₁ x w' := by
  induction p generalizing w with
  | ret r =>
      constructor
      · intro h
        obtain ⟨rfl, rfl⟩ := runs_ret.mp h
        exact Or.inl ⟨r, .ret, rfl⟩
      · rintro (⟨r', h, rfl⟩ | ⟨e, w₁, h, -⟩)
        · cases h
          exact .ret
        · cases h
  | fail e =>
      constructor
      · exact fun h => Or.inr ⟨e, w, .fail, h⟩
      · rintro (⟨r', h, -⟩ | ⟨e, w₁, h, hf⟩)
        · cases h
        · cases h
          exact hf
  | call c next ih =>
      constructor
      · intro h
        obtain ⟨a, w₁, hexec, hnext⟩ := runs_call.mp h
        rcases (ih a).mp hnext with ⟨r, hr, rfl⟩ | ⟨e, w₂, he, hf⟩
        · exact Or.inl ⟨r, .call hexec hr, rfl⟩
        · exact Or.inr ⟨e, w₂, .call hexec he, hf⟩
      · rintro (⟨r, h, rfl⟩ | ⟨e, w₂, h, hf⟩)
        · obtain ⟨a, w₁, hexec, hnext⟩ := runs_call.mp h
          exact .call hexec ((ih a).mpr (Or.inl ⟨r, hnext, rfl⟩))
        · obtain ⟨a, w₁, hexec, hnext⟩ := runs_call.mp h
          exact .call hexec ((ih a).mpr (Or.inr ⟨e, w₂, hnext, hf⟩))

/-- A command whose answer can be an error. -/
theorem runs_answer {c : C} {f : A c → Except E R} {x : Except E R} :
    (Prog.lift c >>= fun a => Prog.ofExcept (f a) : Prog C A E R).Runs exec w x w' ↔
      ∃ a, exec w c a w' ∧ x = f a := by
  rw [runs_bind]
  constructor
  · rintro (⟨e, hlift, -⟩ | ⟨a, w₁, hlift, hf⟩)
    · obtain ⟨_, he, -⟩ := runs_lift.mp hlift
      cases he
    · obtain ⟨_, ha, hexec⟩ := runs_lift.mp hlift
      cases ha
      obtain ⟨rfl, rfl⟩ := runs_ofExcept.mp hf
      exact ⟨a, hexec, rfl⟩
  · rintro ⟨a, hexec, rfl⟩
    exact Or.inr ⟨a, w', runs_lift.mpr ⟨a, rfl, hexec⟩, runs_ofExcept.mpr ⟨rfl, rfl⟩⟩

/-- A finalizer runs after any result; its own error replaces the result. -/
theorem runs_tryFinally {p : Prog C A E R} {q : Prog C A E Unit} {x : Except E R}
    (h : (p.tryFinally q).Runs exec w x w') : ∃ y w₁, p.Runs exec w y w₁ ∧
      ((q.Runs exec w₁ (.ok ()) w' ∧ x = y) ∨ ∃ e, q.Runs exec w₁ (.error e) w' ∧ x = .error e) := by
  induction p generalizing w with
  | ret r =>
      refine ⟨.ok r, w, .ret, ?_⟩
      rcases runs_bind.mp h with ⟨e, he, rfl⟩ | ⟨_, w₁, hq, hret⟩
      · exact Or.inr ⟨e, he, rfl⟩
      · obtain ⟨rfl, rfl⟩ := runs_ret.mp hret
        exact Or.inl ⟨hq, rfl⟩
  | fail e =>
      refine ⟨.error e, w, .fail, ?_⟩
      rcases runs_bind.mp h with ⟨e', he, rfl⟩ | ⟨_, w₁, hq, hfail⟩
      · exact Or.inr ⟨e', he, rfl⟩
      · obtain ⟨rfl, rfl⟩ := runs_fail.mp hfail
        exact Or.inl ⟨hq, rfl⟩
  | call c next ih =>
      obtain ⟨a, w₁, hexec, hnext⟩ := runs_call.mp h
      obtain ⟨y, w₂, hy, hend⟩ := ih a hnext
      exact ⟨y, w₂, .call hexec hy, hend⟩

theorem Prog.Runs.tryFinally {p : Prog C A E R} {q : Prog C A E Unit} {x : Except E R} {w₁ : W}
    (hp : p.Runs exec w x w₁) (hq : q.Runs exec w₁ (.ok ()) w') : (p.tryFinally q).Runs exec w x w' := by
  induction hp with
  | ret => exact runs_bind.mpr (Or.inr ⟨(), _, hq, .ret⟩)
  | fail => exact runs_bind.mpr (Or.inr ⟨(), _, hq, .fail⟩)
  | call hexec _ ih => exact .call hexec (ih hq)

theorem runs_pure {r : R} {x : Except E R} :
    (pure r : Prog C A E R).Runs exec w x w' ↔ x = .ok r ∧ w' = w := runs_ret

theorem runs_lift_bind {c : C} {f : A c → Prog C A E R} {x : Except E R} :
    (Prog.lift c >>= f).Runs exec w x w' ↔ ∃ a w₁, exec w c a w₁ ∧ (f a).Runs exec w₁ x w' := runs_call

/-- The program has no other end than this result, and leaves the state. -/
def Prog.Gives (exec : W → (c : C) → A c → W → Prop) (p : Prog C A E R) (w : W) (r : R) : Prop :=
  ∀ x w', p.Runs exec w x w' ↔ x = .ok r ∧ w' = w

theorem gives_pure {r : R} : (pure r : Prog C A E R).Gives exec w r := fun _ _ => runs_pure

theorem gives_lift_bind {c : C} {f : A c → Prog C A E R} {a : A c} {r : R}
    (hc : ∀ a' w', exec w c a' w' ↔ w' = w ∧ a' = a) (hf : (f a).Gives exec w r) :
    (Prog.lift c >>= f).Gives exec w r := by
  intro x w'
  rw [runs_lift_bind]
  constructor
  · rintro ⟨a', w₁, hexec, hrest⟩
    obtain ⟨rfl, rfl⟩ := (hc _ _).mp hexec
    exact (hf _ _).mp hrest
  · exact fun h => ⟨a, w, (hc _ _).mpr ⟨rfl, rfl⟩, (hf _ _).mpr h⟩

theorem Prog.Gives.bind {p : Prog C A E R} {f : R → Prog C A E R'} {r : R} {r' : R'} (hp : p.Gives exec w r)
    (hf : (f r).Gives exec w r') : (p >>= f).Gives exec w r' := by
  intro x w'
  rw [runs_bind]
  constructor
  · rintro (⟨e, he, -⟩ | ⟨y, w₁, hy, hrest⟩)
    · cases ((hp _ _).mp he).1
    · obtain ⟨heq, rfl⟩ := (hp _ _).mp hy
      cases heq
      exact (hf _ _).mp hrest
  · exact fun h => Or.inr ⟨r, w, (hp _ _).mpr ⟨rfl, rfl⟩, (hf _ _).mpr h⟩

end Runs

/-! ## Runs that stop -/

/-- The program can run from the world through these events to this rest and this world. -/
inductive Prog.Reaches (exec : W → (c : C) → A c → W → Prop) :
    Prog C A E R → W → List (Event W C A) → Prog C A E R → W → Prop where
  | here {p w} : Reaches exec p w [] p w
  | call {c next w a w' l q w''} : exec w c a w' → Reaches exec (next a) w' l q w'' →
      Reaches exec (.call c next) w (⟨w, c, a, w'⟩ :: l) q w''

section Reaches
variable {exec : W → (c : C) → A c → W → Prop} {w w' : W} {l : List (Event W C A)}

theorem Prog.Runs.reaches {p : Prog C A E R} {r : R} (h : p.Runs exec w (.ok r) w') :
    ∃ l, p.Reaches exec w l (.ret r) w' := by
  generalize hx : (Except.ok r : Except E R) = x at h
  induction h with
  | ret =>
      cases hx
      exact ⟨[], .here⟩
  | fail => cases hx
  | call hexec _ ih =>
      obtain ⟨l, hl⟩ := ih hx
      exact ⟨_, .call hexec hl⟩

theorem reaches_ret {r : R} {q : Prog C A E R} :
    (Prog.ret r).Reaches exec w l q w' ↔ l = [] ∧ q = .ret r ∧ w' = w := by
  constructor
  · rintro ⟨⟩
    exact ⟨rfl, rfl, rfl⟩
  · rintro ⟨rfl, rfl, rfl⟩
    exact .here

theorem reaches_fail {e : E} {q : Prog C A E R} :
    (Prog.fail e).Reaches exec w l q w' ↔ l = [] ∧ q = .fail e ∧ w' = w := by
  constructor
  · rintro ⟨⟩
    exact ⟨rfl, rfl, rfl⟩
  · rintro ⟨rfl, rfl, rfl⟩
    exact .here

theorem Prog.Reaches.bind {p p' : Prog C A E R} (h : p.Reaches exec w l p' w') (f : R → Prog C A E R') :
    (p >>= f).Reaches exec w l (p' >>= f) w' := by
  induction h with
  | here => exact .here
  | call hexec _ ih => exact .call hexec ih

/-- A sequence stops in its first part, which has not ended then, or in its second part. -/
theorem reaches_bind {p : Prog C A E R} {f : R → Prog C A E R'} {q : Prog C A E R'}
    (h : (p >>= f).Reaches exec w l q w') :
    (∃ p', p.Reaches exec w l p' w' ∧ ∀ r, q ≠ .ret r) ∨
      ∃ r w₁ l₁ l₂, l = l₁ ++ l₂ ∧ p.Reaches exec w l₁ (.ret r) w₁ ∧ (f r).Reaches exec w₁ l₂ q w' := by
  rw [Prog.bind_eq] at h
  induction p generalizing w l with
  | ret r => exact Or.inr ⟨r, w, [], l, rfl, .here, h⟩
  | fail e =>
      obtain ⟨rfl, rfl, rfl⟩ := reaches_fail.mp h
      exact Or.inl ⟨.fail e, .here, nofun⟩
  | call c next ih =>
      generalize hp : (Prog.call c next).bind f = p at h
      cases h with
      | here =>
          subst hp
          exact Or.inl ⟨.call c next, .here, nofun⟩
      | call hexec hrest =>
          cases hp
          rcases ih _ hrest with ⟨p', hp', hq⟩ | ⟨r, w₁, l₁, l₂, rfl, hr, hf⟩
          · exact Or.inl ⟨p', .call hexec hp', hq⟩
          · exact Or.inr ⟨r, w₁, _, l₂, rfl, .call hexec hr, hf⟩

/-- A command whose answer can be an error: the program stops before it or with its error, or goes on. -/
theorem reaches_answer_bind {c : C} {f : A c → Except E R} {g : R → Prog C A E R'} {q : Prog C A E R'}
    (h : (Prog.lift c >>= fun a => Prog.ofExcept (f a) >>= g).Reaches exec w l q w') :
    ((l = [] ∨ ∃ a w₁ e, exec w c a w₁ ∧ f a = .error e ∧ l = [⟨w, c, a, w₁⟩]) ∧ ∀ r, q ≠ .ret r) ∨
      ∃ a w₁ r l', exec w c a w₁ ∧ f a = .ok r ∧ l = ⟨w, c, a, w₁⟩ :: l' ∧ (g r).Reaches exec w₁ l' q w' := by
  cases h with
  | here => exact Or.inl ⟨Or.inl rfl, nofun⟩
  | @call _ _ _ a w₁ l _ _ hexec hrest =>
      have hrest : (Prog.ofExcept (f a) >>= g).Reaches exec w₁ l q w' := hrest
      cases hf : f a with
      | error e =>
          rw [hf] at hrest
          obtain ⟨rfl, rfl, -⟩ := reaches_fail.mp hrest
          exact Or.inl ⟨Or.inr ⟨a, w₁, e, hexec, hf, rfl⟩, nofun⟩
      | ok r =>
          rw [hf] at hrest
          exact Or.inr ⟨a, w₁, r, l, hexec, hf, rfl, hrest⟩

end Reaches

/-- The same program over more commands. -/
def Prog.embed (f : C → C') (g : ∀ c, A' (f c) → A c) : Prog C A E R → Prog C' A' E R
  | .ret r => .ret r
  | .fail e => .fail e
  | .call c next => .call (f c) fun a => (next (g c a)).embed f g

theorem runs_embed {exec : W → (c : C') → A' c → W → Prop} {f : C → C'} {g : ∀ c, A' (f c) → A c} {w w' : W}
    {p : Prog C A E R} {x : Except E R} : (p.embed f g).Runs exec w x w' ↔
      p.Runs (fun w c a w' => ∃ a', exec w (f c) a' w' ∧ g c a' = a) w x w' := by
  induction p generalizing w with
  | ret r => exact runs_ret.trans runs_ret.symm
  | fail e => exact runs_fail.trans runs_fail.symm
  | call c next ih =>
      constructor
      · intro h
        obtain ⟨a, w₁, hexec, hnext⟩ := runs_call.mp h
        exact .call ⟨a, hexec, rfl⟩ ((ih _).mp hnext)
      · intro h
        obtain ⟨_, w₁, ⟨a, hexec, rfl⟩, hnext⟩ := runs_call.mp h
        exact .call hexec ((ih _).mpr hnext)

end SecretsManager.Interleaving
