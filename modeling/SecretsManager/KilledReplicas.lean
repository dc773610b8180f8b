import SecretsManager.Library.Crashes
import SecretsManager.DeadlockFreedom

/-!
# Replicas that are killed

A killed replica makes no further step, its temporary directories stay, and the database frees the advisory locks of
its connections. That is no worse for the store than commands that fail: every run in which operations are killed at
any moment has the database and the repositories of a run in which none is.
-/

namespace SecretsManager

open Js Interleaving

variable {R : Type} {restic : Restic R} {P : Platform} {timeouts : ResticTimeouts} {admits : Operation → Prop}

/-- The locks of an operation are freed with its connection. -/
def World.die (t : Nat) (w : World R) : World R := { w with locks := w.locks.filter fun l => l.2 ≠ t }

/-- A run of restic can fail and leave the repositories: the process could not be started. -/
def Restic.CanFail (restic : Restic R) : Prop := ∀ r projectId op, ∃ a, restic.run r projectId op a r

/-! ## Failing commands -/

/-- What the failing commands of the operation `t` do: its locks are released, and ids are generated that are not
reserved. -/
structure Fades (t : Nat) (reserved : List JsString) (w w' : World R) : Prop where
  db : w'.db = w.db
  stored : w'.stored = w.stored
  repository : w'.repository = w.repository
  locks : (w'.locks.filter fun l => l.2 ≠ t) = w.locks.filter fun l => l.2 ≠ t
  kept : ∀ x ∈ w.issued, x ∈ w'.issued
  fresh : ∀ x ∈ w'.issued, x ∈ w.issued ∨ x.1 ∉ reserved

section Fades
variable {t : Nat} {reserved : List JsString} {w w' w'' : World R}

theorem Fades.refl : Fades t reserved w w := ⟨rfl, rfl, rfl, rfl, fun _ h => h, fun _ h => Or.inl h⟩

theorem Fades.trans (h : Fades t reserved w w') (h' : Fades t reserved w' w'') : Fades t reserved w w'' where
  db := h'.db.trans h.db
  stored := h'.stored.trans h.stored
  repository := h'.repository.trans h.repository
  locks := h'.locks.trans h.locks
  kept x hx := h'.kept x (h.kept x hx)
  fresh x hx := (h'.fresh x hx).elim (h.fresh x) Or.inr

/-- Each command can fail, or does no more than to release a lock or to generate an id. -/
theorem exists_fades (hfails : restic.CanFail) (t : Nat) (reserved : List JsString) (w : World R) (c : Cmd) :
    ∃ a w', Exec restic t w c a w' ∧ Fades t reserved w w' := by
  cases c with
  | projectsGet _ | projectsGetByName _ | projectsList | secretsList _ | secretsGet _ =>
      exact ⟨.error (.other []), w, ⟨rfl, Or.inr ⟨[], rfl⟩⟩, .refl⟩
  | transact tx => exact ⟨.error (.other []), w, Or.inl ⟨[], rfl, rfl⟩, .refl⟩
  | acquire lock => exact ⟨.error (.other []), w, Or.inl ⟨[], rfl, rfl⟩, .refl⟩
  | release lock =>
      refine ⟨(), _, rfl, rfl, rfl, rfl, ?_, fun _ h => h, fun _ h => Or.inl h⟩
      rw [List.filter_filter]
      refine List.filter_congr fun l _ => ?_
      by_cases hl : l = (lock, t)
      · simp [hl]
      · simp [hl]
  | uuid =>
      obtain ⟨id, hnew, hid⟩ := exists_unreserved w reserved
      refine ⟨id, _, ⟨hnew, rfl⟩, rfl, rfl, rfl, rfl, fun _ h => List.mem_cons_of_mem _ h, fun x hx => ?_⟩
      rcases List.mem_cons.mp hx with rfl | hx
      · exact Or.inr hid
      · exact Or.inl hx
  | now => exact ⟨[], w, rfl, .refl⟩
  | restic projectId op =>
      obtain ⟨a, hrun⟩ := hfails w.repository projectId op
      exact ⟨a, w, ⟨w.repository, hrun, rfl⟩, .refl⟩
  | fs op => exact ⟨.ok (), w, ⟨rfl, Or.inl rfl⟩, .refl⟩

end Fades

/-! ## Runs with and without killed operations -/

/-- The worlds differ in the generated ids only, and no reserved id was generated in the second alone. -/
structure Reserves (reserved : List JsString) (w v : World R) : Prop where
  same : v = { w with issued := v.issued }
  kept : ∀ x ∈ w.issued, x ∈ v.issued
  fresh : ∀ x ∈ v.issued, x ∈ w.issued ∨ x.1 ∉ reserved

/-- The ids that a command generates. -/
def Cmd.generated : (c : Cmd) → c.Answer → List JsString
  | .uuid, id => [id]
  | _, _ => []

/-- A command has the same answer in both, when the ids that it generates were reserved. -/
theorem Reserves.exec {t : Nat} {reserved : List JsString} {w w' v : World R} {c : Cmd} {a : c.Answer}
    (h : Reserves (c.generated a ++ reserved) w v) (hexec : Exec restic t w c a w') :
    ∃ v', Exec restic t v c a v' ∧ Reserves reserved w' v' := by
  obtain ⟨db, locks, issued, stored, repository⟩ := w
  obtain ⟨hsame, hkept, hfresh⟩ := h
  generalize v.issued = issued' at hsame hkept hfresh
  subst hsame
  have hfresh' : ∀ x ∈ issued', x ∈ issued ∨ x.1 ∉ reserved := fun x hx =>
    (hfresh x hx).imp_right fun hx hmem => hx (List.mem_append_right _ hmem)
  cases c with
  | projectsGet _ | projectsGetByName _ | secretsGet _ | projectsList | secretsList _ | fs _ =>
      obtain ⟨rfl, hanswer⟩ := hexec
      exact ⟨_, ⟨rfl, hanswer⟩, rfl, hkept, hfresh'⟩
  | transact tx =>
      rcases hexec with ⟨m, rfl, rfl⟩ | ⟨e, hcommit, rfl, rfl⟩ | ⟨db', n, hcommit, rfl, rfl⟩
      · exact ⟨_, Or.inl ⟨m, rfl, rfl⟩, rfl, hkept, hfresh'⟩
      · exact ⟨_, Or.inr (Or.inl ⟨e, hcommit, rfl, rfl⟩), rfl, hkept, hfresh'⟩
      · exact ⟨_, Or.inr (Or.inr ⟨db', n, hcommit, rfl, rfl⟩), rfl, hkept, hfresh'⟩
  | acquire lock =>
      rcases hexec with ⟨m, rfl, rfl⟩ | ⟨rfl, hfree, rfl⟩
      · exact ⟨_, Or.inl ⟨m, rfl, rfl⟩, rfl, hkept, hfresh'⟩
      · exact ⟨_, Or.inr ⟨rfl, hfree, rfl⟩, rfl, hkept, hfresh'⟩
  | release lock =>
      obtain rfl : w' = _ := hexec
      exact ⟨_, rfl, rfl, hkept, hfresh'⟩
  | uuid =>
      obtain ⟨hnew, rfl⟩ := hexec
      refine ⟨_, ⟨fun t' hmem => ?_, rfl⟩, rfl, fun x hx => ?_, fun x hx => ?_⟩
      · rcases hfresh _ hmem with hmem | hreserved
        · exact hnew t' hmem
        · exact hreserved (List.mem_append_left _ (List.mem_singleton_self _))
      · rcases List.mem_cons.mp hx with rfl | hx
        · exact List.mem_cons_self
        · exact List.mem_cons_of_mem _ (hkept x hx)
      · rcases List.mem_cons.mp hx with rfl | hx
        · exact Or.inl List.mem_cons_self
        · exact (hfresh' x hx).imp_left (List.mem_cons_of_mem _)
  | now =>
      obtain rfl : w' = _ := hexec
      exact ⟨_, rfl, rfl, hkept, hfresh'⟩
  | restic projectId op =>
      obtain ⟨r, hrun, rfl⟩ := hexec
      exact ⟨_, ⟨r, hrun, rfl⟩, rfl, hkept, hfresh'⟩

/-- What the operation `t` leaves when it has failed its way to its end. -/
theorem Reserves.die {t : Nat} {reserved : List JsString} {w v v' : World R} (h : Reserves reserved w v)
    (hfades : Fades t reserved v v') (hfree : ∀ lock, (lock, t) ∉ v'.locks) : Reserves reserved (w.die t) v' := by
  have hlocks : v'.locks = w.locks.filter fun l => l.2 ≠ t := by
    have hall : v'.locks.filter (fun l => l.2 ≠ t) = v'.locks := by
      rw [List.filter_eq_self]
      rintro ⟨lock, t'⟩ hmem
      refine decide_eq_true ?_
      rintro rfl
      exact hfree lock hmem
    rw [← hall, hfades.locks, h.same]
  refine ⟨?_, fun x hx => hfades.kept x (h.kept x hx), fun x hx => ?_⟩
  · obtain ⟨db, locks, issued, stored, repository⟩ := v'
    obtain ⟨rfl, rfl, rfl⟩ := And.intro hfades.db (And.intro hfades.stored hfades.repository)
    dsimp only at hlocks
    rw [hlocks, h.same]
    rfl
  · rcases hfades.fresh x hx with hx | hx
    · exact h.fresh x hx
    · exact Or.inr hx

/-- The operation `t` goes on alone, and its commands fail. -/
abbrev failing (P : Platform) (timeouts : ResticTimeouts) (restic : Restic R) (admits : Operation → Prop) (t : Nat)
    (reserved : List JsString) : System (World R) Cmd Cmd.Answer Failure Response Operation :=
  (server P timeouts restic admits).finishing fun t' w _ _ w' => t' = t ∧ Fades t reserved w w'

theorem fades_steps {t : Nat} {reserved : List JsString}
    {cfg cfg' : Config (World R) Cmd Cmd.Answer Failure Response Operation}
    (h : (failing P timeouts restic admits t reserved).Steps cfg cfg') : Fades t reserved cfg.world cfg'.world := by
  induction h with
  | refl => exact .refl
  | tail _ hstep ih =>
      cases hstep with
      | spawn hreq => exact hreq.elim
      | run _ hexec => exact ih.trans hexec.2.2
      | environment henv => exact henv.elim

theorem survives (hfails : restic.CanFail) (db : Db) (repository : R) :
    Survives (server P timeouts restic admits) World.die (.initial db repository) Reserves where
  start _ := ⟨rfl, fun _ h => h, fun _ h => Or.inl h⟩
  exec reserved {t op trace w c a w'} hexec :=
    ⟨c.generated a ++ reserved, fun h => Reserves.exec h hexec⟩
  environment reserved {w w'} henv := by
    obtain ⟨r, houtside, rfl⟩ := henv
    refine ⟨reserved, fun {v} h => ⟨{ v with repository := r }, ⟨r, ?_, rfl⟩, ?_, h.kept, h.fresh⟩⟩
    · rw [h.same]
      exact houtside
    · rw [h.same]
  crash reserved {cfg t th w} hreachable hth hrel := by
    obtain ⟨cfg', hbrings⟩ : ∃ cfg', Brings (server P timeouts restic admits)
        (fun t' v _ _ v' => t' = t ∧ Fades t reserved v v') t th.Concludes cfg cfg' :=
      exists_brings_concludes (fun op trace v c => by
        obtain ⟨a, v', hexec, hfades⟩ := exists_fades hfails t reserved v c
        exact ⟨a, v', hexec, rfl, hfades⟩) hth
    refine ⟨_, cfg', hbrings, ?_⟩
    obtain ⟨hsteps, -, -, th', hth', -, -, hended⟩ := hbrings
    have hreachable' := hreachable.trans (((server P timeouts restic admits).restricts_finishing _).steps hsteps)
    exact hrel.die (fades_steps hsteps) (unlocked_of_ended hreachable' hth' hended)

/-- **Killed operations do no harm.** Every run in which operations are killed at any moment, and the database frees
their locks, is matched by a run in which none is killed: that has the same rows, locks and repositories, the other
operations have got the same answers and are where they are, with the same results, and the killed ones have come to
an end. -/
theorem killed_operations_mirrored (hfails : restic.CanFail) {db : Db} {repository : R}
    {c : CrashConfig (World R) Cmd Cmd.Answer Failure Response Operation}
    (h : (server P timeouts restic admits).CrashReachable World.die (.initial db repository) c) :
    ∃ cfg, (server P timeouts restic admits).Reachable (.initial db repository) cfg ∧
      Mirrors (fun w v => v.db = w.db ∧ v.locks = w.locks ∧ v.repository = w.repository) c cfg := by
  obtain ⟨cfg, hreachable, hmirrors⟩ := (survives hfails db repository).mirrored h []
  refine ⟨cfg, hreachable, hmirrors.mono fun w v hrel => ?_⟩
  rw [hrel.same]
  exact ⟨rfl, rfl, rfl⟩

section Example

/-- A repository whose restic can fail to start. -/
def flaky : Restic Snapshots where
  run r projectId op a r' := Snapshots.restic.run r projectId op a r' ∨ a.result.code = .name (js "ENOENT") ∧ r' = r
  outside := Snapshots.restic.outside
  snapshot? := Snapshots.restic.snapshot?

theorem canFail_flaky : flaky.CanFail := fun _ _ _ =>
  ⟨⟨⟨.name (js "ENOENT"), [], [], false, false, false⟩, []⟩, Or.inr ⟨rfl, rfl⟩⟩

/-- The first of two deletions is killed while it holds the lock that the second waits for. -/
theorem killed_operations_mirrored_contested :
    ∃ c, (server runPlatform exampleTimeouts flaky fun _ => True).CrashReachable World.die (.initial editedDb []) c ∧
      c.dead = [0] ∧ ends c.config = [(deletion, none), (deletion, none)] ∧ c.config.world.locks = [] ∧
      ∃ cfg, (server runPlatform exampleTimeouts flaky fun _ => True).Reachable (.initial editedDb []) cfg ∧
        Mirrors (fun w v => v.db = w.db ∧ v.locks = w.locks ∧ v.repository = w.repository) c cfg := by
  obtain ⟨cfg, hplay, hends⟩ : ∃ cfg, playExample contested (.initial editedDb []) = some cfg ∧
      (ends cfg, (cfg.world.die 0).locks) = ([(deletion, none), (deletion, none)], []) :=
    Option.map_eq_some_iff.mp rfl
  have hreachable : (server runPlatform exampleTimeouts flaky fun _ => True).Reachable (.initial editedDb []) cfg :=
    play_reachable (fun _ _ _ => Or.inl rfl) (fun _ _ => trivial) hplay
  obtain ⟨th, hth, -, -⟩ := thread_of_ends (Prod.mk.inj hends).1 (t := 0) rfl
  have hkilled : (server runPlatform exampleTimeouts flaky fun _ => True).CrashReachable World.die
      (.initial editedDb []) ⟨⟨cfg.world.die 0, cfg.threads⟩, [0]⟩ :=
    (hreachable.crashReachable World.die).tail (.crash hth List.not_mem_nil)
  exact ⟨_, hkilled, rfl, (Prod.mk.inj hends).1, (Prod.mk.inj hends).2, killed_operations_mirrored canFail_flaky hkilled⟩

end Example

end SecretsManager
