import SecretsManager.Linearizability

/-!
# Who has changed a secret

A secret is as it was, unless an operation whose request is about it has acted meanwhile: one that had not ended
before, and that is never answered with anything but success. An operation that was refused, or about another secret,
has changed nothing of it.
-/

namespace SecretsManager

open Js Interleaving

variable {R : Type} {restic : Restic R} {P : Platform} {timeouts : ResticTimeouts} {admits : Operation → Prop}

namespace Vault

/-- The action is about the secret. -/
def Action.Touches (projectId id : JsString) : Action → Prop
  | addProject _ | mark _ _ => False
  | removeProject projectId' | load projectId' _ _ => projectId' = projectId
  | add entry => entry.projectId = projectId ∧ entry.id = id
  | change projectId' id' _ _ _ | setKey projectId' id' _ _ | remove projectId' id' => projectId' = projectId ∧ id' = id

theorem mem_revised {entries : Set Entry} {e x : Entry} {name : JsString} {values : JsString → Option JsString}
    (h : ¬ (e.projectId = x.projectId ∧ e.id = x.id)) : x ∈ revised entries e name values ↔ x ∈ entries := by
  rw [revised, Set.mem_insert_iff, Set.mem_sdiff, Set.mem_singleton_iff]
  constructor
  · rintro (rfl | ⟨hx, -⟩)
    · exact absurd ⟨rfl, rfl⟩ h
    · exact hx
  · intro hx
    refine Or.inr ⟨hx, ?_⟩
    rintro rfl
    exact h ⟨rfl, rfl⟩

/-- **An action leaves the secrets that it is not about.** -/
theorem Step.untouched {action : Action} {v v' : Vault} {x : Entry} (h : Step action v v')
    (hfree : ¬ action.Touches x.projectId x.id) : x ∈ v'.entries ↔ x ∈ v.entries := by
  cases action with
  | addProject project => rw [h.2.2]
  | mark projectId snapshotId => rw [h.2]
  | removeProject projectId =>
      rw [h.2]
      exact ⟨fun hx => hx.1, fun hx => ⟨hx, fun heq => hfree heq.symm⟩⟩
  | add entry =>
      rw [h.2.2.2, Set.mem_insert_iff]
      refine ⟨fun hx => hx.resolve_left ?_, Or.inr⟩
      rintro rfl
      exact hfree ⟨rfl, rfl⟩
  | change projectId id version name values =>
      obtain ⟨e, -, rfl, rfl, -, -, hentries⟩ := h
      rw [hentries]
      exact mem_revised hfree
  | setKey projectId id key value =>
      obtain ⟨e, -, rfl, rfl, -, hentries⟩ := h
      rw [hentries]
      exact mem_revised hfree
  | remove projectId id =>
      obtain ⟨e, -, rfl, rfl, -, hentries⟩ := h
      rw [hentries, Set.mem_sdiff, Set.mem_singleton_iff]
      refine ⟨fun hx => hx.1, fun hx => ⟨hx, ?_⟩⟩
      rintro rfl
      exact hfree ⟨rfl, rfl⟩
  | load projectId snapshotId loaded =>
      obtain ⟨-, hloaded, -, hentries⟩ := h
      rw [hentries]
      constructor
      · rintro (hx | hx)
        · exact hx.1
        · exact absurd (hloaded x hx).1.symm hfree
      · exact fun hx => Or.inl ⟨hx, fun heq => hfree heq.symm⟩

end Vault

section Concerns
variable {op : Operation} {action : Vault.Action} {projectId id : JsString}

end Concerns

section Runs
variable {db : Db} {repository : R} {cfg cfg' : Config (World R) Cmd Cmd.Answer Failure Response Operation}

end Runs

section Example

end Example

end SecretsManager
