import Mathlib.Data.List.Basic
import Mathlib.Data.List.Nodup

/-!
# A semaphore with a bounded queue

Comers are numbered in the order of their arrival. One that finds a free slot holds it, one that finds a full
queue is turned away, any other waits until the slot of a holder is handed to it or it is cancelled. Slots are
handed over in the order of arrival, and none is lost or counted twice (`Semaphore.Exact`).
-/

namespace SecretsManager

/-- Where a comer is: in the queue, with a slot, or through with an outcome. -/
inductive Place (α : Type) where
  | waiting
  | holding
  | settled (outcome : α)
  deriving DecidableEq

def Place.isHolding {α : Type} : Place α → Bool
  | .holding => true
  | _ => false

structure Semaphore (α : Type) where
  active : Nat
  queue : List Nat
  places : List (Place α)

namespace Semaphore

variable {α : Type}

/-! ## What happens to it -/

def empty : Semaphore α := ⟨0, [], []⟩

/-- The next comer, with the limit of the queue that it finds and the outcome of being turned away. -/
def arrive (slots : Nat) (limit : Int) (full : α) (s : Semaphore α) : Semaphore α :=
  if s.active < slots then ⟨s.active + 1, s.queue, s.places ++ [.holding]⟩
  else if limit ≤ s.queue.length then ⟨s.active, s.queue, s.places ++ [.settled full]⟩
  else ⟨s.active, s.queue ++ [s.places.length], s.places ++ [.waiting]⟩

def cancel (cancelled : α) (s : Semaphore α) (r : Nat) : Semaphore α :=
  match s.places[r]? with
  | some .waiting => ⟨s.active, s.queue.erase r, s.places.set r (.settled cancelled)⟩
  | _ => s

/-- The slot of the holder `r` is given back, or handed to the first of the queue. -/
def finish (s : Semaphore α) (r : Nat) (outcome : α) : Semaphore α :=
  match s.queue with
  | [] => ⟨s.active - 1, [], s.places.set r (.settled outcome)⟩
  | next :: rest => ⟨s.active - 1 + 1, rest, (s.places.set r (.settled outcome)).set next .holding⟩

/-- What can happen at once: an arrival, any number of cancellations, or the end of a holder. -/
inductive Turn (slots : Nat) (limit : Int) (full cancelled : α) (s : Semaphore α) : Semaphore α → Prop where
  | arrive : Turn slots limit full cancelled s (s.arrive slots limit full)
  | cancels (rs : List Nat) : Turn slots limit full cancelled s (rs.foldl (cancel cancelled) s)
  | finish {r : Nat} (outcome : α) : s.places[r]? = some .holding →
      Turn slots limit full cancelled s (s.finish r outcome)

/-! ## The invariant -/

/-- The active slots are those that are held, the queue has the waiting ones in the order of their arrival, and
only when no slot is free. -/
structure Exact (slots : Nat) (s : Semaphore α) : Prop where
  active : s.active = s.places.countP Place.isHolding
  bound : s.active ≤ slots
  full : s.queue ≠ [] → s.active = slots
  queued : ∀ r, r ∈ s.queue ↔ s.places[r]? = some .waiting
  ordered : s.queue.Pairwise (· < ·)

variable {slots : Nat} {limit : Int} {full cancelled : α} {s s' : Semaphore α} {r : Nat}

theorem exact_empty : Exact slots (empty : Semaphore α) where
  active := rfl
  bound := Nat.zero_le _
  full h := absurd rfl h
  queued r := by simp [empty]
  ordered := .nil

theorem Exact.lt_length (h : Exact slots s) (hr : r ∈ s.queue) : r < s.places.length :=
  (List.getElem?_eq_some_iff.mp ((h.queued r).mp hr)).1

theorem Exact.nodup (h : Exact slots s) : s.queue.Nodup := h.ordered.imp fun hlt => Nat.ne_of_lt hlt

/-- The first of the queue came before all others in it. -/
theorem Exact.first_le (h : Exact slots s) (hr : s.queue.head? = some r) {r' : Nat} (hr' : r' ∈ s.queue) : r ≤ r' := by
  have hordered := h.ordered
  cases hqueue : s.queue with
  | nil =>
      rw [hqueue] at hr'
      cases hr'
  | cons next rest =>
      rw [hqueue] at hr hr' hordered
      cases hr
      rcases List.mem_cons.mp hr' with rfl | hrest
      · exact Nat.le_refl _
      · exact Nat.le_of_lt ((List.pairwise_cons.mp hordered).1 r' hrest)

theorem getElem?_concat {β : Type} {l : List β} {a b : β} :
    (l ++ [a])[r]? = some b ↔ l[r]? = some b ∨ r = l.length ∧ a = b := by
  rcases Nat.lt_trichotomy r l.length with hlt | rfl | hgt
  · rw [List.getElem?_append_left hlt]
    exact ⟨Or.inl, fun h => h.resolve_right fun h => absurd h.1 (Nat.ne_of_lt hlt)⟩
  · rw [List.getElem?_concat_length, List.getElem?_eq_none (Nat.le_refl _)]
    simp
  · rw [List.getElem?_eq_none (by rw [List.length_append, List.length_singleton]; omega),
      List.getElem?_eq_none (Nat.le_of_lt hgt)]
    simp only [reduceCtorEq, false_or, false_iff, not_and]
    exact fun h => absurd h (Nat.ne_of_gt hgt)

theorem Exact.arrive (h : Exact slots s) (limit : Int) (full : α) : Exact slots (s.arrive slots limit full) := by
  unfold Semaphore.arrive
  split_ifs with hfree hlimit
  · have hqueue : s.queue = [] := by
      by_contra hne
      exact absurd (h.full hne) (Nat.ne_of_lt hfree)
    refine ⟨?_, hfree, fun hne => absurd hqueue hne, fun r => ?_, h.ordered⟩
    · rw [List.countP_append, ← h.active]
      rfl
    · rw [getElem?_concat, h.queued]
      simp
  · refine ⟨?_, h.bound, h.full, fun r => ?_, h.ordered⟩
    · rw [List.countP_append, ← h.active]
      rfl
    · rw [getElem?_concat, h.queued]
      simp
  · refine ⟨?_, h.bound, fun _ => Nat.le_antisymm h.bound (Nat.le_of_not_lt hfree), fun r => ?_, ?_⟩
    · rw [List.countP_append, ← h.active]
      rfl
    · rw [getElem?_concat, List.mem_append, List.mem_singleton, h.queued]
      simp
    · refine List.pairwise_append.mpr ⟨h.ordered, List.pairwise_singleton _ _, fun r hr r' hr' => ?_⟩
      rw [List.mem_singleton.mp hr']
      exact h.lt_length hr

theorem countP_set {l : List (Place α)} {a : Place α} (h : l[r]? = some a) (b : Place α) :
    (l.set r b).countP Place.isHolding + (if a.isHolding then 1 else 0) =
      l.countP Place.isHolding + if b.isHolding then 1 else 0 := by
  obtain ⟨hlt, ha⟩ := List.getElem?_eq_some_iff.mp h
  have hmem : l.countP Place.isHolding ≥ if a.isHolding then 1 else 0 := by
    split_ifs with hac
    · exact List.countP_pos_iff.mpr ⟨a, ha ▸ List.getElem_mem hlt, hac⟩
    · exact Nat.zero_le _
  rw [List.countP_set hlt, ha]
  omega

theorem Exact.cancel (h : Exact slots s) (cancelled : α) (r : Nat) : Exact slots (s.cancel cancelled r) := by
  unfold Semaphore.cancel
  split
  · rename_i hwaiting
    have hcount := countP_set hwaiting (.settled cancelled)
    refine ⟨?_, h.bound, fun hne => h.full fun hnil => hne (by rw [hnil]; rfl), fun r' => ?_,
      h.ordered.sublist List.erase_sublist⟩
    · rw [h.active]
      exact hcount.symm
    · rw [h.nodup.mem_erase_iff, h.queued]
      by_cases hr : r = r'
      · subst hr
        rw [List.getElem?_set_self (List.getElem?_eq_some_iff.mp hwaiting).1]
        simp
      · rw [List.getElem?_set_ne hr]
        exact and_iff_right (Ne.symm hr)
  · exact h

/-- The first of the queue is another one than a holder. -/
theorem Exact.next_waits (h : Exact slots s) (hr : s.places[r]? = some .holding) {next : Nat}
    (hnext : s.queue.head? = some next) : s.places[next]? = some .waiting ∧ r ≠ next := by
  have hwaits := (h.queued next).mp (List.mem_of_head? hnext)
  refine ⟨hwaits, ?_⟩
  rintro rfl
  rw [hr] at hwaits
  cases hwaits

theorem Exact.finish (h : Exact slots s) (hr : s.places[r]? = some .holding) (outcome : α) :
    Exact slots (s.finish r outcome) := by
  have hcount := countP_set hr (.settled outcome)
  have hpos : 0 < s.active := by
    rw [h.active]
    exact List.countP_pos_iff.mpr ⟨.holding, List.mem_of_getElem? hr, rfl⟩
  have hlt := (List.getElem?_eq_some_iff.mp hr).1
  have hactive := h.active
  have hbound := h.bound
  simp only [Place.isHolding, if_true, Bool.false_eq_true, if_false, Nat.add_zero] at hcount
  unfold Semaphore.finish
  cases hqueue : s.queue with
  | nil =>
      refine ⟨?_, ?_, fun hne => absurd rfl hne, fun r' => ?_, .nil⟩
      · show s.active - 1 = (s.places.set r (.settled outcome)).countP Place.isHolding
        omega
      · show s.active - 1 ≤ slots
        omega
      · have hnone := h.queued r'
        rw [hqueue] at hnone
        rw [iff_false_left List.not_mem_nil]
        by_cases hrr : r = r'
        · subst hrr
          rw [List.getElem?_set_self hlt]
          simp
        · rw [List.getElem?_set_ne hrr]
          exact fun hw => List.not_mem_nil (hnone.mpr hw)
  | cons next rest =>
      obtain ⟨hnext, hne⟩ := h.next_waits hr (by rw [hqueue]; rfl)
      rw [← List.getElem?_set_ne hne (a := .settled outcome)] at hnext
      have hcount' := countP_set hnext .holding
      simp only [Place.isHolding, if_true, Bool.false_eq_true, if_false, Nat.add_zero] at hcount'
      have hordered := h.ordered
      rw [hqueue, List.pairwise_cons] at hordered
      refine ⟨?_, ?_, fun _ => ?_, fun r' => ?_, hordered.2⟩
      · show s.active - 1 + 1 = ((s.places.set r (.settled outcome)).set next .holding).countP Place.isHolding
        omega
      · show s.active - 1 + 1 ≤ slots
        omega
      · have hfull := h.full (by rw [hqueue]; exact List.cons_ne_nil _ _)
        show s.active - 1 + 1 = slots
        omega
      · have hmem := h.queued r'
        rw [hqueue, List.mem_cons] at hmem
        by_cases hnr : next = r'
        · subst hnr
          rw [List.getElem?_set_self (List.getElem?_eq_some_iff.mp hnext).1]
          simp only [Option.some.injEq, reduceCtorEq, iff_false]
          exact fun hrest => Nat.lt_irrefl _ (hordered.1 next hrest)
        · rw [List.getElem?_set_ne hnr]
          by_cases hrr : r = r'
          · subst hrr
            rw [List.getElem?_set_self hlt]
            simp only [Option.some.injEq, reduceCtorEq, iff_false]
            intro hrest
            rw [hmem.mp (Or.inr hrest)] at hr
            cases hr
          · rw [List.getElem?_set_ne hrr, ← hmem]
            exact (or_iff_right (Ne.symm hnr)).symm

theorem Exact.cancels (h : Exact slots s) (cancelled : α) (rs : List Nat) :
    Exact slots (rs.foldl (Semaphore.cancel cancelled) s) := by
  induction rs generalizing s with
  | nil => exact h
  | cons r rs ih => exact ih (h.cancel cancelled r)

theorem Exact.turn (h : Exact slots s) (ht : Turn slots limit full cancelled s s') : Exact slots s' := by
  cases ht with
  | arrive => exact h.arrive limit full
  | cancels rs => exact h.cancels cancelled rs
  | finish outcome hr => exact h.finish hr outcome

/-! ## What becomes of a comer -/

/-- What a turn does to the comer `r`: nothing, or one of the ways on. -/
inductive Change (slots : Nat) (limit : Int) (full cancelled : α) (s s' : Semaphore α) (r : Nat) :
    Option (Place α) → Option (Place α) → Prop where
  | none (place : Option (Place α)) : Change slots limit full cancelled s s' r place place
  | starts : r = s.places.length → s.queue = [] → Change slots limit full cancelled s s' r none (some .holding)
  | turnedAway : r = s.places.length → s.active = slots → limit ≤ s.queue.length →
      Change slots limit full cancelled s s' r none (some (.settled full))
  | joins : r = s.places.length → s.active = slots → s.queue.length < limit →
      Change slots limit full cancelled s s' r none (some .waiting)
  | granted : s.queue.head? = some r → Change slots limit full cancelled s s' r (some .waiting) (some .holding)
  | cancelled : Change slots limit full cancelled s s' r (some .waiting) (some (.settled cancelled))
  | ends (outcome : α) : s'.queue = s.queue.tail →
      (∀ next, s.queue.head? = some next → s'.places[next]? = some .holding) →
      Change slots limit full cancelled s s' r (some .holding) (some (.settled outcome))

theorem getElem?_concat_of_ne {β : Type} {l : List β} {a : β} (hr : r ≠ l.length) : (l ++ [a])[r]? = l[r]? := by
  ext b
  rw [getElem?_concat]
  exact or_iff_left fun h => hr h.1

theorem Exact.change_arrive (h : Exact slots s) (limit : Int) (full cancelled : α) (r : Nat) :
    Change slots limit full cancelled s (s.arrive slots limit full) r s.places[r]?
      (s.arrive slots limit full).places[r]? := by
  by_cases hr : r = s.places.length
  · subst hr
    have hnone : s.places[s.places.length]? = none := List.getElem?_eq_none (Nat.le_refl _)
    rw [hnone]
    unfold Semaphore.arrive
    split_ifs with hfree hlimit
    · rw [List.getElem?_concat_length]
      refine .starts rfl ?_
      by_contra hne
      exact absurd (h.full hne) (Nat.ne_of_lt hfree)
    · rw [List.getElem?_concat_length]
      exact .turnedAway rfl (Nat.le_antisymm h.bound (Nat.le_of_not_lt hfree)) hlimit
    · rw [List.getElem?_concat_length]
      exact .joins rfl (Nat.le_antisymm h.bound (Nat.le_of_not_lt hfree)) (Int.lt_of_not_ge hlimit)
  · have hplace : (s.arrive slots limit full).places[r]? = s.places[r]? := by
      unfold Semaphore.arrive
      split_ifs
      · exact getElem?_concat_of_ne hr
      · exact getElem?_concat_of_ne hr
      · exact getElem?_concat_of_ne hr
    rw [hplace]
    exact .none _

theorem place_cancel (s : Semaphore α) (cancelled : α) (r r' : Nat) :
    (s.cancel cancelled r').places[r]? = s.places[r]? ∨
      s.places[r]? = some .waiting ∧ (s.cancel cancelled r').places[r]? = some (.settled cancelled) := by
  unfold Semaphore.cancel
  split
  · rename_i hwaiting
    by_cases hr : r' = r
    · subst hr
      exact Or.inr ⟨hwaiting, List.getElem?_set_self (List.getElem?_eq_some_iff.mp hwaiting).1⟩
    · exact Or.inl (List.getElem?_set_ne hr)
  · exact Or.inl rfl

theorem place_cancels (s : Semaphore α) (cancelled : α) (rs : List Nat) (r : Nat) :
    (rs.foldl (Semaphore.cancel cancelled) s).places[r]? = s.places[r]? ∨ s.places[r]? = some .waiting ∧
      (rs.foldl (Semaphore.cancel cancelled) s).places[r]? = some (.settled cancelled) := by
  induction rs generalizing s with
  | nil => exact Or.inl rfl
  | cons r' rs ih =>
      rw [List.foldl_cons]
      rcases place_cancel s cancelled r r' with hsame | ⟨hwaits, hsettled⟩
      · rw [← hsame]
        exact ih _
      · rcases ih (s.cancel cancelled r') with hkept | ⟨hwaiting, -⟩
        · exact Or.inr ⟨hwaits, hkept.trans hsettled⟩
        · rw [hsettled] at hwaiting
          cases hwaiting

theorem Exact.change_finish (h : Exact slots s) {r₀ : Nat} (hr₀ : s.places[r₀]? = some .holding) (outcome : α)
    (limit : Int) (full cancelled : α) (r : Nat) :
    Change slots limit full cancelled s (s.finish r₀ outcome) r s.places[r]? (s.finish r₀ outcome).places[r]? := by
  have hlt := (List.getElem?_eq_some_iff.mp hr₀).1
  unfold Semaphore.finish
  cases hqueue : s.queue with
  | nil =>
      dsimp only
      by_cases hr : r₀ = r
      · subst hr
        rw [List.getElem?_set_self hlt, hr₀]
        exact .ends outcome (by rw [hqueue]; rfl) fun next hnext => by rw [hqueue] at hnext; cases hnext
      · rw [List.getElem?_set_ne hr]
        exact .none _
  | cons next rest =>
      have hhead : s.queue.head? = some next := by rw [hqueue]; rfl
      obtain ⟨hnext, hne⟩ := h.next_waits hr₀ hhead
      have hlt' : next < (s.places.set r₀ (.settled outcome)).length := by
        rw [List.length_set]
        exact (List.getElem?_eq_some_iff.mp hnext).1
      dsimp only
      by_cases hnr : next = r
      · subst hnr
        rw [List.getElem?_set_self hlt', hnext]
        exact .granted hhead
      · rw [List.getElem?_set_ne hnr]
        by_cases hr : r₀ = r
        · subst hr
          rw [List.getElem?_set_self hlt, hr₀]
          refine .ends outcome (by rw [hqueue]; rfl) fun next' hnext' => ?_
          rw [hhead] at hnext'
          cases hnext'
          exact List.getElem?_set_self hlt'
        · rw [List.getElem?_set_ne hr]
          exact .none _

theorem Exact.change (h : Exact slots s) (ht : Turn slots limit full cancelled s s') (r : Nat) :
    Change slots limit full cancelled s s' r s.places[r]? s'.places[r]? := by
  cases ht with
  | arrive => exact h.change_arrive limit full cancelled r
  | cancels rs =>
      rcases place_cancels s cancelled rs r with hsame | ⟨hwaits, hsettled⟩
      · rw [hsame]
        exact .none _
      · rw [hwaits, hsettled]
        exact .cancelled
  | finish outcome hr => exact h.change_finish hr outcome limit full cancelled r

/-- Without a holder nobody waits. -/
theorem Exact.idle (h : Exact slots s) (hslots : 0 < slots) (hnone : ∀ place ∈ s.places, place.isHolding = false) :
    s.active = 0 ∧ s.queue = [] := by
  have hactive : s.active = 0 := by
    rw [h.active, List.countP_eq_zero]
    intro place hmem hholding
    rw [hnone place hmem] at hholding
    cases hholding
  refine ⟨hactive, ?_⟩
  by_contra hne
  have hfull := h.full hne
  omega

end Semaphore

end SecretsManager
