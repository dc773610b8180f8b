import Mathlib.Data.List.Basic

/-!
# Worklists

A loop that takes an item from a stack, visits it and puts what it finds on the stack. `Drains` says that the loop
gets through some items at the top, whatever lies below them, so the runs of a visit and of what it finds compose.
-/

namespace SecretsManager.Worklist

variable {S T E : Type}

/-- The loop, with the top of the stack first. Without fuel and with items left there is no answer. -/
def drain (visit : S → T → Except E (S × List T)) : Nat → S → List T → Option (Except E S)
  | _, s, [] => some (.ok s)
  | 0, _, _ :: _ => none
  | fuel + 1, s, item :: pending =>
      match visit s item with
      | .ok (s', found) => drain visit fuel s' (found ++ pending)
      | .error e => some (.error e)

variable {visit : S → T → Except E (S × List T)} {s s₁ s₂ : S}

/-- The loop gets from `s` to `s'` through the items. -/
def Drains (visit : S → T → Except E (S × List T)) (s : S) (items : List T) (s' : S) : Prop :=
  ∃ n, ∀ k pending, drain visit (n + k) s (items ++ pending) = drain visit k s' pending

theorem drains_nil (s : S) : Drains visit s [] s := ⟨0, fun k pending => by rw [Nat.zero_add, List.nil_append]⟩

theorem Drains.append {items items' : List T} (h₁ : Drains visit s items s₁) (h₂ : Drains visit s₁ items' s₂) :
    Drains visit s (items ++ items') s₂ := by
  obtain ⟨n, hn⟩ := h₁
  obtain ⟨m, hm⟩ := h₂
  refine ⟨n + m, fun k pending => ?_⟩
  rw [List.append_assoc, Nat.add_assoc, hn, hm]

/-- The run of a visit and of what it finds. -/
theorem Drains.of_visit {item : T} {found : List T} (hvisit : visit s item = .ok (s₁, found))
    (h : Drains visit s₁ found s₂) : Drains visit s [item] s₂ := by
  obtain ⟨n, hn⟩ := h
  refine ⟨n + 1, fun k pending => ?_⟩
  have hfuel : n + 1 + k = n + k + 1 := by omega
  rw [hfuel, List.singleton_append, drain, hvisit]
  exact hn k pending

/-- The loop ends, with enough fuel. -/
theorem Drains.ends {items : List T} (h : Drains visit s items s₁) :
    ∃ fuel, ∀ more, drain visit (fuel + more) s items = some (.ok s₁) := by
  obtain ⟨n, hn⟩ := h
  refine ⟨n, fun more => ?_⟩
  have hrest := hn more []
  rw [List.append_nil] at hrest
  rw [hrest, drain]

end SecretsManager.Worklist
