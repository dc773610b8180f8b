import Mathlib.Data.List.Sort
import Mathlib.Data.List.Nodup

/-!
# Lists sorted by a key

Sorting a list by a key in a linear order, for lists whose keys are distinct: the sorted list is then
strictly increasing, and it depends on the members of the list only.
-/

namespace SecretsManager.SortedBy

variable {A K : Type}

/-! ## Distinct keys -/

/-- The keys of the list are distinct. -/
def Distinct (key : A → K) (l : List A) : Prop := (l.map key).Nodup

instance [DecidableEq K] (key : A → K) (l : List A) : Decidable (Distinct key l) :=
  inferInstanceAs (Decidable (l.map key).Nodup)

theorem Distinct.inj {key : A → K} {l : List A} (h : Distinct key l) {a b : A} (ha : a ∈ l)
    (hb : b ∈ l) (hab : key a = key b) : a = b :=
  List.inj_on_of_nodup_map h ha hb hab

theorem Distinct.perm {key : A → K} {l m : List A} (h : Distinct key l) (hlm : l.Perm m) :
    Distinct key m :=
  (hlm.map key).nodup_iff.mp h

theorem Distinct.sublist {key : A → K} {l m : List A} (h : Distinct key l) (hml : m.Sublist l) :
    Distinct key m :=
  List.Nodup.sublist (hml.map key) h

theorem distinct_nil (key : A → K) : Distinct key [] := List.nodup_nil

theorem distinct_cons {key : A → K} {a : A} {l : List A} :
    Distinct key (a :: l) ↔ (∀ b ∈ l, key b ≠ key a) ∧ Distinct key l := by
  simp [Distinct]

theorem distinct_append {key : A → K} {l m : List A} :
    Distinct key (l ++ m) ↔
      Distinct key l ∧ Distinct key m ∧ ∀ a ∈ l, ∀ b ∈ m, key a ≠ key b := by
  rw [Distinct, List.map_append, List.nodup_append]
  simp [Distinct]

/-- Members that keep their keys keep them distinct. -/
theorem Distinct.filterMap {B : Type} {key : A → K} {key' : B → K} {f : A → Option B} {l : List A}
    (h : Distinct key l) (hf : ∀ a b, f a = some b → key' b = key a) :
    Distinct key' (l.filterMap f) := by
  induction l with
  | nil => exact distinct_nil key'
  | cons a l ih =>
      obtain ⟨ha, hl⟩ := distinct_cons.mp h
      rw [List.filterMap_cons]
      cases hfa : f a with
      | none => exact ih hl
      | some b =>
          refine distinct_cons.mpr ⟨fun c hc => ?_, ih hl⟩
          obtain ⟨a', ha', hc⟩ := List.mem_filterMap.mp hc
          rw [hf a b hfa, hf a' c hc]
          exact ha a' ha'

/-! ## Sorting -/

variable [LinearOrder K]

/-- The list in the order of its keys, members with one key in their order in the list. -/
def sortBy (key : A → K) (l : List A) : List A := l.insertionSort fun a b => key a ≤ key b

theorem sortBy_perm (key : A → K) (l : List A) : (sortBy key l).Perm l :=
  List.perm_insertionSort _ l

@[simp] theorem mem_sortBy {key : A → K} {l : List A} {a : A} : a ∈ sortBy key l ↔ a ∈ l :=
  (sortBy_perm key l).mem_iff

@[simp] theorem length_sortBy (key : A → K) (l : List A) : (sortBy key l).length = l.length :=
  (sortBy_perm key l).length_eq

@[simp] theorem sortBy_nil (key : A → K) : sortBy key [] = [] := rfl

theorem sortBy_eq_nil_iff {key : A → K} {l : List A} : sortBy key l = [] ↔ l = [] := by
  rw [← List.length_eq_zero_iff, length_sortBy, List.length_eq_zero_iff]

theorem pairwise_sortBy (key : A → K) (l : List A) :
    (sortBy key l).Pairwise fun a b => key a ≤ key b := by
  have : Std.Total fun a b : A => key a ≤ key b := ⟨fun a b => le_total (key a) (key b)⟩
  have : IsTrans A fun a b : A => key a ≤ key b := ⟨fun _ _ _ => le_trans⟩
  exact List.pairwise_insertionSort _ l

/-- With distinct keys the sorted list is strictly increasing. -/
theorem Distinct.pairwise_sortBy {key : A → K} {l : List A} (h : Distinct key l) :
    (sortBy key l).Pairwise fun a b => key a < key b := by
  have hnd : ((sortBy key l).map key).Nodup := h.perm (sortBy_perm key l).symm
  have hne : (sortBy key l).Pairwise fun a b => key a ≠ key b := List.pairwise_map.mp hnd
  exact ((SortedBy.pairwise_sortBy key l).and hne).imp fun hab => lt_of_le_of_ne hab.1 hab.2

/-- Strictly increasing lists with the same members are equal. -/
theorem eq_of_pairwise_of_mem_iff {key : A → K} {l m : List A}
    (hl : l.Pairwise fun a b => key a < key b) (hm : m.Pairwise fun a b => key a < key b)
    (h : ∀ a, a ∈ l ↔ a ∈ m) : l = m := by
  have : Std.Irrefl fun a b : A => key a < key b := ⟨fun a => lt_irrefl (key a)⟩
  have : Std.Antisymm fun a b : A => key a < key b :=
    ⟨fun _ _ hab hba => absurd (hab.trans hba) (lt_irrefl _)⟩
  exact hl.eq_of_mem_iff hm h

/-- Sorting forgets the order of a list with distinct keys. -/
theorem Distinct.sortBy_eq_of_perm {key : A → K} {l m : List A} (h : Distinct key l)
    (hlm : l.Perm m) : sortBy key l = sortBy key m := by
  refine eq_of_pairwise_of_mem_iff h.pairwise_sortBy (h.perm hlm).pairwise_sortBy fun a => ?_
  rw [mem_sortBy, mem_sortBy, hlm.mem_iff]

theorem perm_of_sortBy_eq {key : A → K} {l m : List A} (h : sortBy key l = sortBy key m) :
    l.Perm m :=
  (sortBy_perm key l).symm.trans (h ▸ sortBy_perm key m)

theorem map_sortBy {B : Type} (key : B → K) (f : A → B) (l : List A) :
    (sortBy (fun a => key (f a)) l).map f = sortBy key (l.map f) :=
  List.map_insertionSort _ _ f l fun _ _ _ _ => Iff.rfl

/-! ## Listings -/

/-- The list has exactly the members with the property, each once and in the order of their keys. -/
def Lists (key : A → K) (p : A → Prop) (l : List A) : Prop :=
  (l.Pairwise fun a b => key a < key b) ∧ ∀ a, a ∈ l ↔ p a

theorem Distinct.lists_sortBy {key : A → K} {p : A → Prop} {l : List A} (h : Distinct key l)
    (hp : ∀ a, a ∈ l ↔ p a) : Lists key p (sortBy key l) :=
  ⟨h.pairwise_sortBy, fun a => mem_sortBy.trans (hp a)⟩

theorem Lists.unique {key : A → K} {p : A → Prop} {l m : List A} (hl : Lists key p l)
    (hm : Lists key p m) : l = m :=
  eq_of_pairwise_of_mem_iff hl.1 hm.1 fun a => (hl.2 a).trans (hm.2 a).symm

theorem Lists.iff {key : A → K} {p q : A → Prop} {l : List A} (hp : Lists key p l)
    (hq : Lists key q l) (a : A) : p a ↔ q a :=
  (hp.2 a).symm.trans (hq.2 a)

theorem Lists.congr {key : A → K} {p q : A → Prop} {l : List A} (hp : Lists key p l)
    (hpq : ∀ a, p a ↔ q a) : Lists key q l :=
  ⟨hp.1, fun a => (hp.2 a).trans (hpq a)⟩

theorem Lists.eq_nil_iff {key : A → K} {p : A → Prop} {l : List A} (h : Lists key p l) :
    l = [] ↔ ∀ a, ¬ p a := by
  rw [List.eq_nil_iff_forall_not_mem]
  exact forall_congr' fun a => not_congr (h.2 a)

end SecretsManager.SortedBy
