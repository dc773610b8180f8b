import Mathlib.Logic.Relation

/-!
# Interleaved programs and monitors

A program issues commands and continues with their answers. Any number of programs run against one
world, one command at a time and in any order. What a program may issue is checked by a monitor, which
follows the commands and answers of the program: `Prog.Meets` is the weakest precondition for never
being refused, computed along the text of the program without any world. An `Outline` then says what
the allowed commands do to the world, for the running program and for the others, and gives the
invariant of every reachable configuration and of every event in its past.
-/

namespace SecretsManager.Interleaving

/-- A program with commands `C`, answers `A`, errors `E` and a result in `R`. -/
inductive Prog (C : Type) (A : C → Type) (E R : Type) : Type where
  | ret (r : R)
  | fail (e : E)
  | call (c : C) (next : A c → Prog C A E R)

variable {C : Type} {A : C → Type} {E R R' S W Req Hint : Type}

namespace Prog

def bind : Prog C A E R → (R → Prog C A E R') → Prog C A E R'
  | ret r, f => f r
  | fail e, _ => fail e
  | call c next, f => call c fun a => (next a).bind f

instance : Monad (Prog C A E) where
  pure := ret
  bind := bind

/-- One command. -/
def lift (c : C) : Prog C A E (A c) := call c ret

def ofExcept : Except E R → Prog C A E R
  | .ok r => ret r
  | .error e => fail e

def tryCatch : Prog C A E R → (E → Prog C A E R) → Prog C A E R
  | ret r, _ => ret r
  | fail e, f => f e
  | call c next, f => call c fun a => (next a).tryCatch f

/-- `try p finally q` -/
def tryFinally : Prog C A E R → Prog C A E Unit → Prog C A E R
  | ret r, q => q.bind fun _ => ret r
  | fail e, q => q.bind fun _ => fail e
  | call c next, q => call c fun a => (next a).tryFinally q

/-- The result of a program that has ended. -/
def result? : Prog C A E R → Option (Except E R)
  | ret r => some (.ok r)
  | fail e => some (.error e)
  | call _ _ => none

theorem bind_eq (p : Prog C A E R) (f : R → Prog C A E R') : p >>= f = p.bind f := rfl

theorem bind_ret (p : Prog C A E R) : p >>= ret = p := by
  rw [bind_eq]
  induction p with
  | ret r | fail e => rfl
  | call c next ih => simp only [bind, ih]

theorem bind_bind {R'' : Type} (p : Prog C A E R) (f : R → Prog C A E R') (g : R' → Prog C A E R'') :
    p >>= f >>= g = p >>= fun r => f r >>= g := by
  simp only [bind_eq]
  induction p with
  | ret r | fail e => rfl
  | call c next ih => simp only [bind, ih]

/-- What is made of the result of a `try` is made inside. -/
theorem tryCatch_bind_pure (p : Prog C A E R) (handler : E → Prog C A E R) (f : R → R') :
    (p.tryCatch handler >>= fun r => pure (f r)) =
      (p >>= fun r => pure (f r)).tryCatch fun e => handler e >>= fun r => pure (f r) := by
  simp only [bind_eq]
  induction p with
  | ret r | fail e => rfl
  | call c next ih => simp only [tryCatch, bind, ih]

end Prog

/-! ## Monitors -/

/-- A monitor follows a program in a state of its own, allows or refuses its commands and expects certain
answers. -/
structure Monitor (C : Type) (A : C → Type) (S : Type) where
  step : S → (c : C) → A c → S
  allows : S → C → Prop
  expects : S → (c : C) → A c → Prop

/-- From the state `s` of the monitor every command of the program is allowed, whatever the expected
answers, and its result meets `Q`. -/
def Prog.Meets (M : Monitor C A S) : Prog C A E R → S → (Except E R → S → Prop) → Prop
  | .ret r, s, Q => Q (.ok r) s
  | .fail e, s, Q => Q (.error e) s
  | .call c next, s, Q => M.allows s c ∧ ∀ a, M.expects s c a → (next a).Meets M (M.step s c a) Q

section Meets
variable {M : Monitor C A S}

@[simp] theorem meets_ret {r : R} {s : S} {Q : Except E R → S → Prop} :
    (Prog.ret r : Prog C A E R).Meets M s Q ↔ Q (.ok r) s := Iff.rfl

@[simp] theorem meets_pure {r : R} {s : S} {Q : Except E R → S → Prop} :
    (pure r : Prog C A E R).Meets M s Q ↔ Q (.ok r) s := Iff.rfl

@[simp] theorem meets_fail {e : E} {s : S} {Q : Except E R → S → Prop} :
    (Prog.fail e : Prog C A E R).Meets M s Q ↔ Q (.error e) s := Iff.rfl

theorem Prog.Meets.mono {p : Prog C A E R} {s : S} {Q Q' : Except E R → S → Prop} (h : p.Meets M s Q)
    (hQ : ∀ r s, Q r s → Q' r s) : p.Meets M s Q' := by
  induction p generalizing s with
  | ret r => exact hQ _ _ h
  | fail e => exact hQ _ _ h
  | call c next ih => exact ⟨h.1, fun a ha => ih a (h.2 a ha)⟩

theorem Prog.Meets.result {p : Prog C A E R} {s : S} {Q : Except E R → S → Prop} (h : p.Meets M s Q)
    {r : Except E R} (hr : p.result? = some r) : Q r s := by
  cases p with
  | ret r => cases hr; exact h
  | fail e => cases hr; exact h
  | call c next => cases hr

/-- What a sequence needs of its second part, after each result of the first. -/
def Then (M : Monitor C A S) (f : R → Prog C A E R') (Q : Except E R' → S → Prop) :
    Except E R → S → Prop
  | .ok r, s => (f r).Meets M s Q
  | .error e, s => Q (.error e) s

@[simp] theorem then_ok {f : R → Prog C A E R'} {Q : Except E R' → S → Prop} {r : R} {s : S} :
    Then M f Q (.ok r) s ↔ (f r).Meets M s Q := Iff.rfl

@[simp] theorem then_error {f : R → Prog C A E R'} {Q : Except E R' → S → Prop} {e : E} {s : S} :
    Then M f Q (.error e) s ↔ Q (.error e) s := Iff.rfl

theorem meets_bind {p : Prog C A E R} {f : R → Prog C A E R'} {s : S}
    {Q : Except E R' → S → Prop} : (p >>= f).Meets M s Q ↔ p.Meets M s (Then M f Q) := by
  rw [Prog.bind_eq]
  induction p generalizing s with
  | ret r => rfl
  | fail e => rfl
  | call c next ih =>
      simp only [Prog.bind, Prog.Meets, ih]

@[simp] theorem meets_lift {c : C} {s : S} {Q : Except E (A c) → S → Prop} :
    (Prog.lift c : Prog C A E (A c)).Meets M s Q ↔
      M.allows s c ∧ ∀ a, M.expects s c a → Q (.ok a) (M.step s c a) := Iff.rfl

@[simp] theorem meets_ofExcept {x : Except E R} {s : S} {Q : Except E R → S → Prop} :
    (Prog.ofExcept x : Prog C A E R).Meets M s Q ↔ Q x s := by
  cases x <;> rfl

theorem meets_ite {c : Prop} [Decidable c] {p q : Prog C A E R} {s : S} {Q : Except E R → S → Prop}
    (hp : c → p.Meets M s Q) (hq : ¬ c → q.Meets M s Q) : (if c then p else q).Meets M s Q := by
  by_cases h : c
  · rw [if_pos h]
    exact hp h
  · rw [if_neg h]
    exact hq h

/-- What a handler needs, after each result of the body. -/
def Catch (M : Monitor C A S) (f : E → Prog C A E R) (Q : Except E R → S → Prop) :
    Except E R → S → Prop
  | .ok r, s => Q (.ok r) s
  | .error e, s => (f e).Meets M s Q

@[simp] theorem catch_ok {f : E → Prog C A E R} {Q : Except E R → S → Prop} {r : R} {s : S} :
    Catch M f Q (.ok r) s ↔ Q (.ok r) s := Iff.rfl

@[simp] theorem catch_error {f : E → Prog C A E R} {Q : Except E R → S → Prop} {e : E} {s : S} :
    Catch M f Q (.error e) s ↔ (f e).Meets M s Q := Iff.rfl

theorem meets_tryCatch {p : Prog C A E R} {f : E → Prog C A E R} {s : S}
    {Q : Except E R → S → Prop} : (p.tryCatch f).Meets M s Q ↔ p.Meets M s (Catch M f Q) := by
  induction p generalizing s with
  | ret r => rfl
  | fail e => rfl
  | call c next ih => simp only [Prog.tryCatch, Prog.Meets, ih]

/-- What a finalizer needs, after each result of the body. -/
def Finally (M : Monitor C A S) (q : Prog C A E Unit) (Q : Except E R → S → Prop) (r : Except E R)
    (s : S) : Prop :=
  q.Meets M s (Then M (fun _ => Prog.ofExcept r) Q)

theorem meets_tryFinally {p : Prog C A E R} {q : Prog C A E Unit} {s : S}
    {Q : Except E R → S → Prop} :
    (p.tryFinally q).Meets M s Q ↔ p.Meets M s (Finally M q Q) := by
  induction p generalizing s with
  | ret r => exact meets_bind
  | fail e => exact meets_bind
  | call c next ih => simp only [Prog.tryFinally, Prog.Meets, ih]

end Meets

/-! ## Commands without effect on a monitor -/

/-- Every command of the program is one of these. -/
def Prog.Only (p : C → Prop) : Prog C A E R → Prop
  | .ret _ => True
  | .fail _ => True
  | .call c next => p c ∧ ∀ a, (next a).Only p

section Only
variable {p : C → Prop}

@[simp] theorem only_ret {r : R} : (Prog.ret r : Prog C A E R).Only p := trivial

@[simp] theorem only_pure {r : R} : (pure r : Prog C A E R).Only p := trivial

@[simp] theorem only_fail {e : E} : (Prog.fail e : Prog C A E R).Only p := trivial

@[simp] theorem only_lift {c : C} : (Prog.lift c : Prog C A E (A c)).Only p ↔ p c := by
  simp [Prog.lift, Prog.Only]

@[simp] theorem only_ofExcept {x : Except E R} : (Prog.ofExcept x : Prog C A E R).Only p := by
  cases x <;> trivial

theorem Prog.Only.bind {q : Prog C A E R} {f : R → Prog C A E R'} (hq : q.Only p)
    (hf : ∀ r, (f r).Only p) : (q >>= f).Only p := by
  rw [Prog.bind_eq]
  induction q with
  | ret r => exact hf r
  | fail e => trivial
  | call c next ih => exact ⟨hq.1, fun a => ih a (hq.2 a)⟩

/-- A command whose answer is a result or an error. -/
theorem only_query {c : C} {f : A c → Except E R} (hc : p c) :
    (Prog.lift c >>= fun a => Prog.ofExcept (f a) : Prog C A E R).Only p :=
  Prog.Only.bind (only_lift.mpr hc) fun _ => only_ofExcept

theorem only_ite {c : Prop} [Decidable c] {q q' : Prog C A E R} (hq : q.Only p) (hq' : q'.Only p) :
    (if c then q else q').Only p := by
  split
  · exact hq
  · exact hq'

theorem Prog.Only.tryFinally {q : Prog C A E R} {f : Prog C A E Unit} (hq : q.Only p)
    (hf : f.Only p) : (q.tryFinally f).Only p := by
  induction q with
  | ret r => exact hf.bind fun _ => trivial
  | fail e => exact hf.bind fun _ => trivial
  | call c next ih => exact ⟨hq.1, fun a => ih a (hq.2 a)⟩

theorem Prog.Only.tryCatch {q : Prog C A E R} {f : E → Prog C A E R} (hq : q.Only p)
    (hf : ∀ e, (f e).Only p) : (q.tryCatch f).Only p := by
  induction q with
  | ret r => trivial
  | fail e => exact hf e
  | call c next ih => exact ⟨hq.1, fun a => ih a (hq.2 a)⟩

theorem Prog.Only.foldlM {B D : Type} {f : B → D → Prog C A E B} (hf : ∀ b d, (f b d).Only p)
    (l : List D) (b : B) : (l.foldlM f b).Only p := by
  induction l generalizing b with
  | nil => exact only_pure
  | cons d l ih =>
      rw [List.foldlM_cons]
      exact (hf b d).bind fun b => ih b

theorem Prog.only_true (q : Prog C A E R) : q.Only fun _ => True := by
  induction q with
  | ret r => trivial
  | fail e => trivial
  | call c next ih => exact ⟨trivial, ih⟩

theorem Prog.Only.mono {p' : C → Prop} {q : Prog C A E R} (hq : q.Only p) (h : ∀ c, p c → p' c) :
    q.Only p' := by
  induction q with
  | ret r => trivial
  | fail e => trivial
  | call c next ih => exact ⟨h c hq.1, fun a => ih a (hq.2 a)⟩

/-- A program of allowed commands that do not change the monitor can end with any result. -/
theorem Prog.Only.meets {M : Monitor C A S} {q : Prog C A E R} (hq : q.Only p) {s : S}
    {Q : Except E R → S → Prop} (hp : ∀ c, p c → M.allows s c ∧ ∀ a, M.step s c a = s)
    (hQ : ∀ r, Q r s) : q.Meets M s Q := by
  induction q with
  | ret r => exact hQ _
  | fail e => exact hQ _
  | call c next ih =>
      refine ⟨(hp c hq.1).1, fun a _ => ?_⟩
      rw [(hp c hq.1).2 a]
      exact ih a (hq.2 a)

/-- A program of commands that are allowed in any state. -/
theorem Prog.Only.meets_true {M : Monitor C A S} {q : Prog C A E R} (hq : q.Only p) {s : S}
    (hp : ∀ s c, p c → M.allows s c) : q.Meets M s fun _ _ => True := by
  induction q generalizing s with
  | ret r => trivial
  | fail e => trivial
  | call c next ih => exact ⟨hp s c hq.1, fun a _ => ih a (hq.2 a)⟩

end Only

/-! ## Single programs -/

/-- The program can issue these commands with these answers, and is then the other program. -/
inductive Prog.Follows : Prog C A E R → List ((c : C) × A c) → Prog C A E R → Prop where
  | nil {p} : Follows p [] p
  | cons {c next a h p} : Follows (next a) h p → Follows (.call c next) (⟨c, a⟩ :: h) p

theorem Prog.Follows.snoc {p : Prog C A E R} {h : List ((c : C) × A c)} {c : C} {next : A c → Prog C A E R}
    (hf : Prog.Follows p h (.call c next)) (a : A c) : Prog.Follows p (h ++ [⟨c, a⟩]) (next a) := by
  generalize hq : Prog.call c next = q at hf
  induction hf with
  | nil =>
      subst hq
      exact .cons .nil
  | cons _ ih => exact .cons (ih hq)

/-- The first commands of a program with the answers that a function gives, and what is left of it. -/
def Prog.feed (answer : (c : C) → A c) : Nat → Prog C A E R → List ((c : C) × A c) × Prog C A E R
  | n + 1, .call c next => (⟨c, answer c⟩ :: ((next (answer c)).feed answer n).1, ((next (answer c)).feed answer n).2)
  | _, p => ([], p)

theorem Prog.follows_feed (answer : (c : C) → A c) (n : Nat) (p : Prog C A E R) :
    Prog.Follows p (p.feed answer n).1 (p.feed answer n).2 := by
  induction n generalizing p with
  | zero => cases p <;> exact .nil
  | succ n ih =>
      cases p with
      | ret r => exact .nil
      | fail e => exact .nil
      | call c next => exact .cons (ih _)

theorem Prog.Meets.follows {M : Monitor C A S} {p p' : Prog C A E R} {h : List ((c : C) × A c)} {s : S}
    {Q : Except E R → S → Prop} (hp : p.Meets M s Q) (hM : ∀ s c a, M.expects s c a)
    (hf : Prog.Follows p h p') : p'.Meets M (h.foldl (fun s x => M.step s x.1 x.2) s) Q := by
  induction hf generalizing s with
  | nil => exact hp
  | @cons c next a h p _ ih => exact ih (hp.2 a (hM _ _ _))

/-! ## Systems -/

/-- A command of a program with its answer, and the worlds before and after it. -/
structure Event (W C : Type) (A : C → Type) where
  before : W
  cmd : C
  answer : A cmd
  after : W

/-- A running program: the request it serves, what it has done, and what is left of it. -/
structure Thread (W C : Type) (A : C → Type) (E R Req : Type) where
  req : Req
  trace : List (Event W C A)
  prog : Prog C A E R

structure Config (W C : Type) (A : C → Type) (E R Req : Type) where
  world : W
  threads : List (Thread W C A E R Req)

/-- Which requests come, which program serves each, what a command of a program does, and what the
world does by itself. -/
structure System (W C : Type) (A : C → Type) (E R Req : Type) where
  admits : Req → Prop
  body : Req → Prog C A E R
  exec : Nat → Req → List (Event W C A) → W → (c : C) → A c → W → Prop
  environment : W → W → Prop

namespace System

variable (sys : System W C A E R Req)

inductive Step : Config W C A E R Req → Config W C A E R Req → Prop where
  | spawn {w ths req} : sys.admits req → Step ⟨w, ths⟩ ⟨w, ths ++ [⟨req, [], sys.body req⟩]⟩
  | run {w ths t req trace c next a w'} : ths[t]? = some ⟨req, trace, .call c next⟩ →
      sys.exec t req trace w c a w' →
      Step ⟨w, ths⟩ ⟨w', ths.set t ⟨req, trace ++ [⟨w, c, a, w'⟩], next a⟩⟩
  | environment {w ths w'} : sys.environment w w' → Step ⟨w, ths⟩ ⟨w', ths⟩

/-- A run of any number of steps. -/
abbrev Steps : Config W C A E R Req → Config W C A E R Req → Prop := Relation.ReflTransGen sys.Step

def Reachable (w₀ : W) (cfg : Config W C A E R Req) : Prop := sys.Steps ⟨w₀, []⟩ cfg

/-- Every run of a system with fewer requests, answers or outside changes is one of the other. -/
structure Restricts (sys' : System W C A E R Req) : Prop where
  admits : ∀ req, sys'.admits req → sys.admits req
  body : ∀ req, sys'.body req = sys.body req
  exec : ∀ t req trace w c a w', sys'.exec t req trace w c a w' → sys.exec t req trace w c a w'
  environment : ∀ w w', sys'.environment w w' → sys.environment w w'

variable {sys}

theorem Restricts.steps {sys' : System W C A E R Req} (h : sys.Restricts sys') {cfg cfg' : Config W C A E R Req}
    (hsteps : sys'.Steps cfg cfg') : sys.Steps cfg cfg' := by
  refine Relation.ReflTransGen.mono (fun a b hab => ?_) _ _ hsteps
  cases hab with
  | spawn hreq => rw [h.body]; exact .spawn (h.admits _ hreq)
  | run ht hexec => exact .run ht (h.exec _ _ _ _ _ _ _ hexec)
  | environment henv => exact .environment (h.environment _ _ henv)

/-- A program in a reachable configuration is what its body is after the commands of its past. -/
theorem Reachable.follows {w₀ : W} {cfg : Config W C A E R Req} (h : sys.Reachable w₀ cfg) {t : Nat}
    {th : Thread W C A E R Req} (hth : cfg.threads[t]? = some th) :
    Prog.Follows (sys.body th.req) (th.trace.map fun e => ⟨e.cmd, e.answer⟩) th.prog := by
  induction h generalizing t th with
  | refl => simp at hth
  | tail _ hstep ih =>
      cases hstep with
      | @spawn w ths req _ =>
          rcases Nat.lt_or_ge t ths.length with hlt | hge
          · rw [List.getElem?_append_left hlt] at hth
            exact ih hth
          · rw [List.getElem?_append_right hge] at hth
            rw [List.mem_singleton.mp (List.mem_of_getElem? hth)]
            exact .nil
      | @run w ths t' req trace c next a w' hth' _ =>
          by_cases htt : t = t'
          · subst htt
            rw [List.getElem?_set_self (List.getElem?_eq_some_iff.mp hth').1, Option.some.injEq] at hth
            subst hth
            rw [List.map_append]
            exact (ih hth').snoc a
          · rw [List.getElem?_set_ne (Ne.symm htt)] at hth
            exact ih hth
      | environment _ => exact ih hth

/-- What holds now held at the start or was brought about by an event of a program, when the world does not
bring it about by itself. -/
theorem Reachable.gained {H : W → Prop} (henv : ∀ w w', sys.environment w w' → H w' → H w) {w₀ : W}
    {cfg : Config W C A E R Req} (h : sys.Reachable w₀ cfg) (hhas : H cfg.world) :
    H w₀ ∨ ∃ th ∈ cfg.threads, ∃ e ∈ th.trace, ¬ H e.before ∧ H e.after := by
  induction h with
  | refl => exact Or.inl hhas
  | tail _ hstep ih =>
      cases hstep with
      | spawn _ =>
          refine (ih hhas).imp_right ?_
          rintro ⟨th, hth, he⟩
          exact ⟨th, List.mem_append_left _ hth, he⟩
      | @run w ths t req trace c next a w' hth _ =>
          have hlt := (List.getElem?_eq_some_iff.mp hth).1
          by_cases hbefore : H w
          · refine (ih hbefore).imp_right ?_
            rintro ⟨th, hmem, e, he, hgain⟩
            obtain ⟨t', ht'⟩ := List.getElem?_of_mem hmem
            by_cases htt : t' = t
            · subst htt
              obtain rfl := Option.some.inj (ht'.symm.trans hth)
              exact ⟨_, List.mem_of_getElem? (List.getElem?_set_self hlt), e, List.mem_append_left _ he, hgain⟩
            · refine ⟨th, List.mem_of_getElem? (i := t') ?_, e, he, hgain⟩
              rw [List.getElem?_set_ne (Ne.symm htt)]
              exact ht'
          · exact Or.inr ⟨_, List.mem_of_getElem? (List.getElem?_set_self hlt), ⟨w, c, a, w'⟩,
              List.mem_append_right _ (List.mem_singleton.mpr rfl), hbefore, hhas⟩
      | environment hw => exact ih (henv _ _ hw hhas)

end System

/-! ## Outlines -/

/-- The state of the monitor after the events. -/
def Monitor.after (M : Monitor C A S) (s : S) (trace : List (Event W C A)) : S :=
  trace.foldl (fun s e => M.step s e.cmd e.answer) s

@[simp] theorem Monitor.after_nil (M : Monitor C A S) (s : S) :
    M.after s ([] : List (Event W C A)) = s := rfl

@[simp] theorem Monitor.after_append (M : Monitor C A S) (s : S) (trace : List (Event W C A))
    (e : Event W C A) : M.after s (trace ++ [e]) = M.step (M.after s trace) e.cmd e.answer := by
  simp [Monitor.after]

/-- A proof outline: a monitor for the programs of each request, an invariant of the world and an
assertion about each program, by its monitor state. -/
structure Outline (sys : System W C A E R Req) (M : Req → Monitor C A S) (s₀ : S) (Inv : W → Prop)
    (Assert : Nat → Req → S → W → Prop) (Post : Req → Except E R → S → Prop) : Prop where
  body : ∀ req, sys.admits req → (sys.body req).Meets (M req) s₀ (Post req)
  expects : ∀ {t req trace w c a w'}, Inv w → Assert t req ((M req).after s₀ trace) w →
    sys.exec t req trace w c a w' → (M req).expects ((M req).after s₀ trace) c a
  spawn : ∀ t req w, Inv w → Assert t req s₀ w
  inv : ∀ {t req trace w c a w'}, Inv w → Assert t req ((M req).after s₀ trace) w →
    (M req).allows ((M req).after s₀ trace) c → sys.exec t req trace w c a w' → Inv w'
  self : ∀ {t req trace w c a w'}, Inv w → Assert t req ((M req).after s₀ trace) w →
    (M req).allows ((M req).after s₀ trace) c → sys.exec t req trace w c a w' →
    Assert t req ((M req).step ((M req).after s₀ trace) c a) w'
  other : ∀ {t req trace w c a w' t' req' s'}, t' ≠ t → Inv w →
    Assert t req ((M req).after s₀ trace) w → (M req).allows ((M req).after s₀ trace) c →
    sys.exec t req trace w c a w' → Assert t' req' s' w → Assert t' req' s' w'
  environment : ∀ {w w'}, Inv w → sys.environment w w' →
    Inv w' ∧ ∀ t req s, Assert t req s w → Assert t req s w'

section Outline
variable {sys : System W C A E R Req} {M : Req → Monitor C A S} {s₀ : S} {Inv : W → Prop}
  {Assert : Nat → Req → S → W → Prop} {Post : Req → Except E R → S → Prop}

/-- What holds of an event of a program, given the events before it. -/
structure Happened (sys : System W C A E R Req) (M : Req → Monitor C A S) (s₀ : S) (Inv : W → Prop)
    (Assert : Nat → Req → S → W → Prop) (t : Nat) (req : Req) (earlier : List (Event W C A))
    (e : Event W C A) : Prop where
  admits : sys.admits req
  inv : Inv e.before
  assert : Assert t req ((M req).after s₀ earlier) e.before
  allowed : (M req).allows ((M req).after s₀ earlier) e.cmd
  exec : sys.exec t req earlier e.before e.cmd e.answer e.after

/-- What holds of a program in a reachable configuration. -/
structure ThreadGood (sys : System W C A E R Req) (M : Req → Monitor C A S) (s₀ : S) (Inv : W → Prop)
    (Assert : Nat → Req → S → W → Prop) (Post : Req → Except E R → S → Prop) (w : W) (t : Nat)
    (th : Thread W C A E R Req) : Prop where
  admits : sys.admits th.req
  assert : Assert t th.req ((M th.req).after s₀ th.trace) w
  meets : th.prog.Meets (M th.req) ((M th.req).after s₀ th.trace) (Post th.req)
  past : ∀ earlier e later, th.trace = earlier ++ e :: later →
    Happened sys M s₀ Inv Assert t th.req earlier e

structure ConfigGood (sys : System W C A E R Req) (M : Req → Monitor C A S) (s₀ : S) (Inv : W → Prop)
    (Assert : Nat → Req → S → W → Prop) (Post : Req → Except E R → S → Prop)
    (cfg : Config W C A E R Req) : Prop where
  inv : Inv cfg.world
  threads : ∀ t th, cfg.threads[t]? = some th → ThreadGood sys M s₀ Inv Assert Post cfg.world t th

/-- A monitor that expects every answer of the system gives an outline by itself. -/
theorem Outline.ofAnswers
    (hexpects : ∀ {t req trace w c a w'}, sys.exec t req trace w c a w' → ∀ s, (M req).expects s c a)
    (hbody : ∀ req, sys.admits req → (sys.body req).Meets (M req) s₀ (Post req)) :
    Outline sys M s₀ (fun _ => True) (fun _ _ _ _ => True) Post where
  body := hbody
  expects _ _ h := hexpects h _
  spawn _ _ _ _ := trivial
  inv _ _ _ _ := trivial
  self _ _ _ _ := trivial
  other _ _ _ _ _ _ := trivial
  environment _ _ := ⟨trivial, fun _ _ _ _ => trivial⟩

/-- A monitor that expects every answer gives an outline by itself. -/
theorem Outline.ofMeets (hexpects : ∀ req s c a, (M req).expects s c a)
    (hbody : ∀ req, sys.admits req → (sys.body req).Meets (M req) s₀ (Post req)) :
    Outline sys M s₀ (fun _ => True) (fun _ _ _ _ => True) Post :=
  .ofAnswers (fun _ s => hexpects _ s _ _) hbody

/-- An outline also holds of a system whose allowed commands do nothing else. -/
theorem Outline.refine (O : Outline sys M s₀ Inv Assert Post) {sys' : System W C A E R Req}
    (hadmits : ∀ req, sys'.admits req → sys.admits req) (hbody : sys'.body = sys.body)
    (henvironment : sys'.environment = sys.environment)
    (hexpects : ∀ {t req trace w c a w'}, Inv w → Assert t req ((M req).after s₀ trace) w →
      sys'.exec t req trace w c a w' → (M req).expects ((M req).after s₀ trace) c a)
    (hexec : ∀ {t req trace w c a w'}, (M req).allows ((M req).after s₀ trace) c →
      sys'.exec t req trace w c a w' → sys.exec t req trace w c a w') :
    Outline sys' M s₀ Inv Assert Post where
  body req hreq := by
    rw [hbody]
    exact O.body req (hadmits req hreq)
  expects := hexpects
  spawn := O.spawn
  inv hinv hassert hallows h := O.inv hinv hassert hallows (hexec hallows h)
  self hinv hassert hallows h := O.self hinv hassert hallows (hexec hallows h)
  other hne hinv hassert hallows h := O.other hne hinv hassert hallows (hexec hallows h)
  environment hinv henv := O.environment hinv (by rwa [henvironment] at henv)

theorem Outline.step (O : Outline sys M s₀ Inv Assert Post) {cfg cfg' : Config W C A E R Req}
    (h : ConfigGood sys M s₀ Inv Assert Post cfg) (hstep : sys.Step cfg cfg') :
    ConfigGood sys M s₀ Inv Assert Post cfg' := by
  cases hstep with
  | @spawn w ths req hreq =>
      refine ⟨h.inv, fun t th hth => ?_⟩
      rcases Nat.lt_or_ge t ths.length with hlt | hge
      · rw [List.getElem?_append_left hlt] at hth
        exact h.threads t th hth
      · rw [List.getElem?_append_right hge] at hth
        have hnew : th = ⟨req, [], sys.body req⟩ := by
          have hmem := List.mem_of_getElem? hth
          exact List.mem_singleton.mp hmem
        subst hnew
        exact
          { admits := hreq
            assert := O.spawn t req w h.inv
            meets := O.body req hreq
            past := fun earlier e later hsplit => by simp at hsplit }
  | @run w ths t req trace c next a w' hth hexec =>
      have hgood := h.threads t _ hth
      obtain ⟨hallowed, hnext⟩ := hgood.meets
      refine ⟨O.inv h.inv hgood.assert hallowed hexec, fun t' th' hth' => ?_⟩
      by_cases htt : t' = t
      · subst htt
        have hlt : t' < ths.length := (List.getElem?_eq_some_iff.mp hth).1
        rw [List.getElem?_set_self hlt, Option.some.injEq] at hth'
        subst hth'
        have hafter := (M req).after_append s₀ trace ⟨w, c, a, w'⟩
        refine
          { admits := hgood.admits
            assert := ?_
            meets := ?_
            past := fun earlier e later hsplit => ?_ }
        · simp only [hafter]
          exact O.self h.inv hgood.assert hallowed hexec
        · simp only [hafter]
          exact hnext a (O.expects h.inv hgood.assert hexec)
        · -- the event is the last one or an earlier one
          rcases List.eq_nil_or_concat later with rfl | ⟨later, e', rfl⟩
          · have heq := List.append_inj' hsplit rfl
            obtain ⟨rfl, heq⟩ := heq
            obtain rfl := (List.cons.inj heq).1
            exact ⟨hgood.admits, h.inv, hgood.assert, hallowed, hexec⟩
          · have hsplit' : trace ++ [⟨w, c, a, w'⟩] = (earlier ++ e :: later) ++ [e'] := by
              rw [List.concat_eq_append] at hsplit
              rw [List.append_assoc]
              exact hsplit
            exact hgood.past earlier e later (List.append_inj' hsplit' rfl).1
      · rw [List.getElem?_set_ne (Ne.symm htt)] at hth'
        have hgood' := h.threads t' th' hth'
        exact
          { hgood' with
            assert := O.other htt h.inv hgood.assert hallowed hexec hgood'.assert }
  | @environment w ths w' henv =>
      obtain ⟨hinv, hkeep⟩ := O.environment h.inv henv
      exact ⟨hinv, fun t th hth =>
        { h.threads t th hth with assert := hkeep _ _ _ (h.threads t th hth).assert }⟩

theorem Outline.steps (O : Outline sys M s₀ Inv Assert Post) {cfg cfg' : Config W C A E R Req}
    (h : ConfigGood sys M s₀ Inv Assert Post cfg) (hsteps : sys.Steps cfg cfg') :
    ConfigGood sys M s₀ Inv Assert Post cfg' := by
  induction hsteps with
  | refl => exact h
  | tail _ hstep ih => exact O.step ih hstep

/-- **The outline holds in every reachable configuration.** -/
theorem Outline.good (O : Outline sys M s₀ Inv Assert Post) {w₀ : W} (h₀ : Inv w₀)
    {cfg : Config W C A E R Req} (h : sys.Reachable w₀ cfg) :
    ConfigGood sys M s₀ Inv Assert Post cfg :=
  O.steps ⟨h₀, fun t th hth => by simp at hth⟩ h

/-- A relation between worlds that every allowed command and every outside change respects relates the
worlds at the ends of every run. -/
theorem Outline.steps_rel (O : Outline sys M s₀ Inv Assert Post) {Q : W → W → Prop}
    (hrefl : ∀ w, Q w w) (htrans : ∀ {a b c}, Q a b → Q b c → Q a c)
    (hexec : ∀ {t req earlier e}, Happened sys M s₀ Inv Assert t req earlier e → Q e.before e.after)
    (henv : ∀ {w w'}, Inv w → sys.environment w w' → Q w w') {cfg cfg' : Config W C A E R Req}
    (h : ConfigGood sys M s₀ Inv Assert Post cfg) (hsteps : sys.Steps cfg cfg') :
    Q cfg.world cfg'.world := by
  induction hsteps with
  | refl => exact hrefl _
  | tail hsteps hstep ih =>
      refine htrans ih ?_
      have hgood := O.steps h hsteps
      cases hstep with
      | spawn _ => exact hrefl _
      | @run w ths t req trace c next a w' hth hrun =>
          have hth := hgood.threads t _ hth
          exact @hexec t req trace ⟨w, c, a, w'⟩ ⟨hth.admits, hgood.inv, hth.assert, hth.meets.1, hrun⟩
      | environment hw => exact henv hgood.inv hw

/-- Such a relation also relates the worlds of every past event to the present one. -/
theorem Outline.past_rel (O : Outline sys M s₀ Inv Assert Post) {Q : W → W → Prop}
    (hrefl : ∀ w, Q w w) (htrans : ∀ {a b c}, Q a b → Q b c → Q a c)
    (hexec : ∀ {t req earlier e}, Happened sys M s₀ Inv Assert t req earlier e → Q e.before e.after)
    (henv : ∀ {w w'}, Inv w → sys.environment w w' → Q w w') {w₀ : W} (h₀ : Inv w₀)
    {cfg : Config W C A E R Req} (h : sys.Reachable w₀ cfg) :
    ∀ th ∈ cfg.threads, ∀ e ∈ th.trace, Q e.before cfg.world ∧ Q e.after cfg.world := by
  have hstep : ∀ {cfg cfg'}, ConfigGood sys M s₀ Inv Assert Post cfg → sys.Step cfg cfg' →
      Q cfg.world cfg'.world := fun hgood hs =>
    O.steps_rel hrefl htrans hexec henv hgood (.single hs)
  induction h with
  | refl => simp
  | @tail cfg cfg' hsteps hs ih =>
      have hgood := O.good h₀ hsteps
      have hrel := hstep hgood hs
      have hold : ∀ th ∈ cfg.threads, ∀ e ∈ th.trace, Q e.before cfg'.world ∧ Q e.after cfg'.world :=
        fun th hth e he => ⟨htrans (ih th hth e he).1 hrel, htrans (ih th hth e he).2 hrel⟩
      cases hs with
      | spawn _ =>
          intro th hth e he
          rcases List.mem_append.mp hth with hth | hth
          · exact hold th hth e he
          · rw [List.mem_singleton.mp hth] at he
            cases he
      | @run w ths t req trace c next a w' hth hrun =>
          intro th' hth' e he
          rcases List.mem_or_eq_of_mem_set hth' with hth' | rfl
          · exact hold th' hth' e he
          · rcases List.mem_append.mp he with he | he
            · exact hold _ (List.mem_of_getElem? hth) e he
            · rw [List.mem_singleton.mp he]
              exact ⟨hrel, hrefl _⟩
      | environment _ => exact hold

/-- A condition on every event of the programs, given the events before it. -/
def System.Past (Cond : Nat → Req → List (Event W C A) → Event W C A → Prop) (cfg : Config W C A E R Req) : Prop :=
  ∀ t th, cfg.threads[t]? = some th → ∀ earlier e later, th.trace = earlier ++ e :: later →
    Cond t th.req earlier e

theorem System.Past.of_step {Cond : Nat → Req → List (Event W C A) → Event W C A → Prop}
    {cfg cfg' : Config W C A E R Req} (hs : sys.Step cfg cfg') (h : System.Past Cond cfg') :
    System.Past Cond cfg := by
  cases hs with
  | @spawn w ths req _ =>
      intro t th hth
      refine h t th ?_
      rw [List.getElem?_append_left (List.getElem?_eq_some_iff.mp hth).1]
      exact hth
  | @run w ths t req trace c next a w' hth _ =>
      intro t' th' hth' earlier e later hsplit
      by_cases htt : t' = t
      · subst htt
        obtain rfl := Option.some.inj (hth'.symm.trans hth)
        have hnew := h t' _ (List.getElem?_set_self (List.getElem?_eq_some_iff.mp hth).1)
        have hsplit' : trace = earlier ++ e :: later := hsplit
        exact hnew earlier e (later ++ [⟨w, c, a, w'⟩]) (by simp [hsplit'])
      · refine h t' th' ?_ earlier e later hsplit
        rw [List.getElem?_set_ne (Ne.symm htt)]
        exact hth'
  | environment _ => exact h

/-- An invariant that every event under a condition keeps holds throughout a run whose events are all under
it. -/
theorem Outline.invariant (O : Outline sys M s₀ Inv Assert Post) {J : W → Prop}
    {Cond : Nat → Req → List (Event W C A) → Event W C A → Prop}
    (hexec : ∀ {t req earlier e}, (∀ a x b, earlier ++ [e] = a ++ x :: b → Happened sys M s₀ Inv Assert t req a x) →
      Cond t req earlier e → (∀ x ∈ earlier, J x.before) → J e.before → J e.after)
    (henv : ∀ {w w'}, Inv w → sys.environment w w' → J w → J w') {w₀ : W} (h₀ : Inv w₀) (hJ : J w₀)
    {cfg : Config W C A E R Req} (h : sys.Reachable w₀ cfg) (hcond : System.Past Cond cfg) :
    J cfg.world ∧ ∀ th ∈ cfg.threads, ∀ e ∈ th.trace, J e.before ∧ J e.after := by
  induction h with
  | refl => exact ⟨hJ, by simp⟩
  | @tail cfg cfg' hsteps hs ih =>
      obtain ⟨hworld, hpast⟩ := ih (hcond.of_step hs)
      have hgood := O.good h₀ (hsteps.tail hs)
      cases hs with
      | spawn _ =>
          refine ⟨hworld, fun th hth e he => ?_⟩
          rcases List.mem_append.mp hth with hth | hth
          · exact hpast th hth e he
          · rw [List.mem_singleton.mp hth] at he
            cases he
      | @run w ths t req trace c next a w' hth hrun =>
          have hself := List.getElem?_set_self (a := ⟨req, trace ++ [⟨w, c, a, w'⟩], next a⟩)
            (List.getElem?_eq_some_iff.mp hth).1
          have hlast : J w' := @hexec t req trace ⟨w, c, a, w'⟩ (hgood.threads t _ hself).past
            (hcond t _ hself trace _ [] rfl) (fun x hx => (hpast _ (List.mem_of_getElem? hth) x hx).1) hworld
          refine ⟨hlast, fun th' hth' e he => ?_⟩
          rcases List.mem_or_eq_of_mem_set hth' with hth' | rfl
          · exact hpast th' hth' e he
          · rcases List.mem_append.mp he with he | he
            · exact hpast _ (List.mem_of_getElem? hth) e he
            · rw [List.mem_singleton.mp he]
              exact ⟨hworld, hlast⟩
      | environment hw =>
          exact ⟨henv (O.good h₀ hsteps).inv hw hworld, hpast⟩

end Outline

/-! ## A second outline over the first -/

section Prod
variable {S' : Type}

/-- Two monitors side by side. -/
def Monitor.prod (M : Monitor C A S) (M' : Monitor C A S') : Monitor C A (S × S') where
  step s c a := (M.step s.1 c a, M'.step s.2 c a)
  allows s c := M.allows s.1 c ∧ M'.allows s.2 c
  expects s c a := M.expects s.1 c a ∧ M'.expects s.2 c a

theorem Monitor.prod_after (M : Monitor C A S) (M' : Monitor C A S') (s : S) (s' : S')
    (trace : List (Event W C A)) : (M.prod M').after (s, s') trace = (M.after s trace, M'.after s' trace) := by
  induction trace generalizing s s' with
  | nil => rfl
  | cons e trace ih => exact ih _ _

theorem Prog.Meets.prod {M : Monitor C A S} {M' : Monitor C A S'} {p : Prog C A E R} {s : S} {s' : S'}
    {Q : Except E R → S → Prop} {Q' : Except E R → S' → Prop} (h : p.Meets M s Q) (h' : p.Meets M' s' Q') :
    p.Meets (M.prod M') (s, s') fun r x => Q r x.1 ∧ Q' r x.2 := by
  induction p generalizing s s' with
  | ret r => exact ⟨h, h'⟩
  | fail e => exact ⟨h, h'⟩
  | call c next ih => exact ⟨⟨h.1, h'.1⟩, fun a ha => ih a (h.2 a ha.1) (h'.2 a ha.2)⟩

variable {sys : System W C A E R Req} {M : Req → Monitor C A S} {s₀ : S} {Inv : W → Prop}
  {Assert : Nat → Req → S → W → Prop} {Post : Req → Except E R → S → Prop}
  {M' : Req → Monitor C A S'} {s₀' : S'} {Inv' : W → Prop} {Assert' : Nat → Req → S' → W → Prop}
  {Post' : Req → Except E R → S' → Prop}

/-- What two outlines together say of a command that a program has run. -/
structure Ran (sys : System W C A E R Req) (M : Req → Monitor C A S) (s₀ : S) (Inv : W → Prop)
    (Assert : Nat → Req → S → W → Prop) (M' : Req → Monitor C A S') (s₀' : S') (Inv' : W → Prop)
    (Assert' : Nat → Req → S' → W → Prop) (t : Nat) (req : Req) (trace : List (Event W C A)) (w : W) (c : C)
    (a : A c) (w' : W) : Prop where
  inv : Inv w
  inv' : Inv' w
  assert : Assert t req ((M req).after s₀ trace) w
  assert' : Assert' t req ((M' req).after s₀' trace) w
  allowed : (M req).allows ((M req).after s₀ trace) c
  allowed' : (M' req).allows ((M' req).after s₀' trace) c
  exec : sys.exec t req trace w c a w'

/-- A second outline may use what the first one knows of the world and of each program. -/
structure OverOutline (sys : System W C A E R Req) (M : Req → Monitor C A S) (s₀ : S) (Inv : W → Prop)
    (Assert : Nat → Req → S → W → Prop) (M' : Req → Monitor C A S') (s₀' : S') (Inv' : W → Prop)
    (Assert' : Nat → Req → S' → W → Prop) (Post' : Req → Except E R → S' → Prop) : Prop where
  body : ∀ req, sys.admits req → (sys.body req).Meets (M' req) s₀' (Post' req)
  expects : ∀ {t req trace w c a w'}, sys.exec t req trace w c a w' → ∀ s, (M' req).expects s c a
  spawn : ∀ t req w, Inv' w → Assert' t req s₀' w
  inv : ∀ {t req trace w c a w'},
    Ran sys M s₀ Inv Assert M' s₀' Inv' Assert' t req trace w c a w' → Inv' w'
  self : ∀ {t req trace w c a w'}, Ran sys M s₀ Inv Assert M' s₀' Inv' Assert' t req trace w c a w' →
    Assert' t req ((M' req).step ((M' req).after s₀' trace) c a) w'
  other : ∀ {t req trace w c a w' t' req' s s'}, t' ≠ t →
    Ran sys M s₀ Inv Assert M' s₀' Inv' Assert' t req trace w c a w' →
    Assert t' req' s w → Assert' t' req' s' w → Assert' t' req' s' w'
  environment : ∀ {w w'}, Inv' w → sys.environment w w' →
    Inv' w' ∧ ∀ t req s, Assert' t req s w → Assert' t req s w'

theorem Outline.prod (O : Outline sys M s₀ Inv Assert Post)
    (O' : OverOutline sys M s₀ Inv Assert M' s₀' Inv' Assert' Post') :
    Outline sys (fun req => (M req).prod (M' req)) (s₀, s₀') (fun w => Inv w ∧ Inv' w)
      (fun t req x w => Assert t req x.1 w ∧ Assert' t req x.2 w)
      (fun req r x => Post req r x.1 ∧ Post' req r x.2) := by
  have hran : ∀ {t req trace w c a w'}, Inv w ∧ Inv' w →
      (Assert t req (((M req).prod (M' req)).after (s₀, s₀') trace).1 w ∧
        Assert' t req (((M req).prod (M' req)).after (s₀, s₀') trace).2 w) →
      ((M req).prod (M' req)).allows (((M req).prod (M' req)).after (s₀, s₀') trace) c →
      sys.exec t req trace w c a w' → Ran sys M s₀ Inv Assert M' s₀' Inv' Assert' t req trace w c a w' := by
    intro t req trace w c a w' hinv hassert hallows hexec
    rw [Monitor.prod_after] at hassert hallows
    exact ⟨hinv.1, hinv.2, hassert.1, hassert.2, hallows.1, hallows.2, hexec⟩
  refine
    { body := fun req hreq => (O.body req hreq).prod (O'.body req hreq)
      expects := fun {t req trace w c a w'} hinv hassert hexec => ?_
      spawn := fun t req w hinv => ⟨O.spawn t req w hinv.1, O'.spawn t req w hinv.2⟩
      inv := fun {t req trace w c a w'} hinv hassert hallows hexec => ?_
      self := fun {t req trace w c a w'} hinv hassert hallows hexec => ?_
      other := fun {t req trace w c a w' t' req' x} hne hinv hassert hallows hexec hassert' => ?_
      environment := fun {w w'} hinv henv => ?_ }
  · rw [Monitor.prod_after] at hassert ⊢
    exact ⟨O.expects hinv.1 hassert.1 hexec, O'.expects hexec _⟩
  · have h := hran hinv hassert hallows hexec
    exact ⟨O.inv h.inv h.assert h.allowed h.exec, O'.inv h⟩
  · have h := hran hinv hassert hallows hexec
    rw [Monitor.prod_after]
    exact ⟨O.self h.inv h.assert h.allowed h.exec, O'.self h⟩
  · have h := hran hinv hassert hallows hexec
    exact ⟨O.other hne h.inv h.assert h.allowed h.exec hassert'.1, O'.other hne h hassert'.1 hassert'.2⟩
  · obtain ⟨hinv₁, hkeep⟩ := O.environment hinv.1 henv
    obtain ⟨hinv₂, hkeep'⟩ := O'.environment hinv.2 henv
    exact ⟨⟨hinv₁, hinv₂⟩, fun t req x hassert => ⟨hkeep t req x.1 hassert.1, hkeep' t req x.2 hassert.2⟩⟩

end Prod

/-! ## Simulation -/

section Simulation
variable {W' : Type}

def Event.map (f : W → W') (e : Event W C A) : Event W' C A := ⟨f e.before, e.cmd, e.answer, f e.after⟩

def Thread.map (f : W → W') (th : Thread W C A E R Req) : Thread W' C A E R Req :=
  ⟨th.req, th.trace.map (Event.map f), th.prog⟩

def Config.map (f : W → W') (cfg : Config W C A E R Req) : Config W' C A E R Req :=
  ⟨f cfg.world, cfg.threads.map (Thread.map f)⟩

variable {sys : System W C A E R Req} {sys' : System W' C A E R Req} {f : W → W'} {M : Req → Monitor C A S}
  {s₀ : S} {Inv : W → Prop} {Assert : Nat → Req → S → W → Prop} {Post : Req → Except E R → S → Prop}

/-- Where the outline holds, every command and outside change of the second system is one of the first. -/
structure Simulates (sys : System W C A E R Req) (sys' : System W' C A E R Req) (f : W → W')
    (M : Req → Monitor C A S) (s₀ : S) (Inv : W → Prop) (Assert : Nat → Req → S → W → Prop) : Prop where
  admits : ∀ req, sys'.admits req → sys.admits req
  body : ∀ req, sys'.body req = sys.body req
  exec : ∀ {t req trace w c a v}, Inv w → Assert t req ((M req).after s₀ trace) w →
    (M req).allows ((M req).after s₀ trace) c → sys'.exec t req (trace.map (Event.map f)) (f w) c a v →
    ∃ w', f w' = v ∧ sys.exec t req trace w c a w'
  environment : ∀ {w v}, Inv w → sys'.environment (f w) v → ∃ w', f w' = v ∧ sys.environment w w'

theorem ConfigGood.simulates {cfg : Config W C A E R Req} {cfg' : Config W' C A E R Req}
    (h : ConfigGood sys M s₀ Inv Assert Post cfg) (hsim : Simulates sys sys' f M s₀ Inv Assert) (hstep : sys'.Step (cfg.map f) cfg') :
    ∃ next, sys.Step cfg next ∧ next.map f = cfg' := by
  obtain ⟨w, ths⟩ := cfg
  generalize hcfg : (⟨w, ths⟩ : Config W C A E R Req).map f = start at hstep
  cases hstep with
  | @spawn w' ths' req hreq =>
      cases hcfg
      refine ⟨_, .spawn (hsim.admits req hreq), ?_⟩
      rw [Config.map, List.map_append, hsim.body]
      rfl
  | @run w' ths' t req trace' c next a v hth hexec =>
      cases hcfg
      rw [List.getElem?_map] at hth
      obtain ⟨⟨req, trace, prog⟩, hthread, hmap⟩ := Option.map_eq_some_iff.mp hth
      cases hmap
      have hgood := h.threads t _ hthread
      obtain ⟨w'', rfl, hexec'⟩ := hsim.exec h.inv hgood.assert hgood.meets.1 hexec
      refine ⟨_, .run hthread hexec', ?_⟩
      simp only [Config.map, List.map_set, Thread.map, List.map_append, List.map_cons, List.map_nil, Event.map]
  | @environment w' ths' v henv =>
      cases hcfg
      obtain ⟨w'', rfl, henv'⟩ := hsim.environment h.inv henv
      exact ⟨_, .environment henv', rfl⟩

/-- **Every run of the second system is a run of the first.** -/
theorem Outline.simulates (O : Outline sys M s₀ Inv Assert Post)
    (hsim : Simulates sys sys' f M s₀ Inv Assert) {cfg : Config W C A E R Req} {cfg' : Config W' C A E R Req}
    (h : ConfigGood sys M s₀ Inv Assert Post cfg) (hsteps : sys'.Steps (cfg.map f) cfg') :
    ∃ next, sys.Steps cfg next ∧ next.map f = cfg' := by
  induction hsteps with
  | refl => exact ⟨cfg, .refl, rfl⟩
  | tail _ hstep ih =>
      obtain ⟨mid, hmid, rfl⟩ := ih
      obtain ⟨next, hnext, rfl⟩ := (O.steps h hmid).simulates hsim hstep
      exact ⟨next, hmid.tail hnext, rfl⟩

/-- Every run of the first system is a run of the second, when its commands also are. -/
theorem Outline.simulated (O : Outline sys M s₀ Inv Assert Post) (hadmits : ∀ req, sys.admits req → sys'.admits req)
    (hbody : ∀ req, sys'.body req = sys.body req)
    (hexec : ∀ {t req trace w c a w'}, Inv w → Assert t req ((M req).after s₀ trace) w →
      (M req).allows ((M req).after s₀ trace) c → sys.exec t req trace w c a w' →
      sys'.exec t req (trace.map (Event.map f)) (f w) c a (f w'))
    (henv : ∀ {w w'}, sys.environment w w' → sys'.environment (f w) (f w')) {cfg cfg' : Config W C A E R Req}
    (h : ConfigGood sys M s₀ Inv Assert Post cfg) (hsteps : sys.Steps cfg cfg') :
    sys'.Steps (cfg.map f) (cfg'.map f) := by
  induction hsteps with
  | refl => exact .refl
  | tail hsteps hstep ih =>
      refine ih.tail ?_
      have hgood := O.steps h hsteps
      cases hstep with
      | @spawn w ths req hreq =>
          rw [Config.map, Config.map, List.map_append, List.map_singleton, Thread.map, List.map_nil, ← hbody]
          exact .spawn (hadmits req hreq)
      | @run w ths t req trace c next a w' hth hrun =>
          have hth' := hgood.threads t _ hth
          simp only [Config.map, List.map_set, Thread.map, List.map_append, List.map_cons, List.map_nil, Event.map]
          refine .run ?_ (hexec hgood.inv hth'.assert hth'.meets.1 hrun)
          rw [List.getElem?_map, hth]
          rfl
      | environment hw => exact .environment (henv hw)

end Simulation

/-! ## Concrete runs -/

/-- A move of a schedule: a request comes, or a program runs its next command. -/
inductive Move (Req Hint : Type) where
  | spawn (req : Req)
  | run (t : Nat) (hint : Hint)

/-- Executes a schedule, where `act` computes the answer and the next world of a command. -/
def play (body : Req → Prog C A E R)
    (act : Nat → Req → List (Event W C A) → W → (c : C) → Hint → Option (A c × W)) :
    List (Move Req Hint) → Config W C A E R Req → Option (Config W C A E R Req)
  | [], cfg => some cfg
  | .spawn req :: moves, cfg => play body act moves ⟨cfg.world, cfg.threads ++ [⟨req, [], body req⟩]⟩
  | .run t hint :: moves, cfg =>
      match cfg.threads[t]? with
      | some ⟨req, trace, .call c next⟩ =>
          match act t req trace cfg.world c hint with
          | some (a, w') =>
              play body act moves
                ⟨w', cfg.threads.set t ⟨req, trace ++ [⟨cfg.world, c, a, w'⟩], next a⟩⟩
          | none => none
      | _ => none

theorem play_steps {sys : System W C A E R Req}
    {act : Nat → Req → List (Event W C A) → W → (c : C) → Hint → Option (A c × W)}
    (hact : ∀ t req trace w c hint a w', act t req trace w c hint = some (a, w') →
      sys.exec t req trace w c a w') {moves : List (Move Req Hint)}
    (hadmits : ∀ req, Move.spawn req ∈ moves → sys.admits req) {cfg cfg' : Config W C A E R Req}
    (h : play sys.body act moves cfg = some cfg') : sys.Steps cfg cfg' := by
  induction moves generalizing cfg with
  | nil => cases h; exact .refl
  | cons move moves ih =>
      have ih := @ih fun req hreq => hadmits req (List.mem_cons_of_mem _ hreq)
      cases move with
      | spawn req => exact .head (.spawn (hadmits req (List.mem_cons_self ..))) (ih h)
      | run t hint =>
          obtain ⟨w, ths⟩ := cfg
          unfold play at h
          split at h
          · rename_i req trace c next hth
            split at h
            · rename_i a w' hrun
              exact .head (.run hth (hact _ _ _ _ _ _ _ _ hrun)) (ih h)
            · cases h
          · cases h

end SecretsManager.Interleaving
