import SecretsManager.Js.Object

/-!
# The order of the keys

The array indices of an object come first, in ascending order. Every write keeps this order, so an object
that is copied property by property into an empty one comes out as it was (`foldl_set_ordered`), except for
the key `__proto__`.
-/

namespace SecretsManager

open Js SortedBy

namespace JsObject

variable {V : Type}

/-! ## Array indices -/

/-- One turn of reading a decimal numeral. -/
def readDigit (n? : Option Nat) (d : CodeUnit) : Option Nat :=
  n?.bind fun n => if 0x30 ≤ d.val ∧ d.val ≤ 0x39 then some (10 * n + (d.val - 0x30)) else none

theorem arrayIndex?_eq_some {k : JsString} {i : Nat} (h : arrayIndex? k = some i) :
    k ≠ [] ∧ (∀ rest, k = unit '0' :: rest → rest = []) ∧ k.foldl readDigit (some 0) = some i := by
  unfold arrayIndex? at h
  cases k with
  | nil => cases h
  | cons c rest =>
      dsimp only at h
      split_ifs at h with hzero
      obtain ⟨hfold, -⟩ := Option.filter_eq_some_iff.mp h
      refine ⟨List.cons_ne_nil _ _, fun rest' heq => ?_, hfold⟩
      obtain ⟨rfl, rfl⟩ := List.cons.inj heq
      by_contra hne
      exact hzero ⟨rfl, hne⟩

/-- A numeral without its last digit. -/
theorem readDigit_concat {k : JsString} {d : CodeUnit} {n : Nat}
    (h : (k ++ [d]).foldl readDigit (some 0) = some n) :
    k.foldl readDigit (some 0) = some (n / 10) ∧ d.val = 0x30 + n % 10 := by
  rw [List.foldl_append, List.foldl_cons, List.foldl_nil] at h
  obtain ⟨m, hm, hd⟩ := Option.bind_eq_some_iff.mp h
  split_ifs at hd with hdigit
  have hn := Option.some.inj hd
  have hdiv : n / 10 = m := by omega
  exact ⟨by rw [hm, hdiv], by omega⟩

/-- A numeral of value 0 starts with the digit 0. -/
theorem head_of_readDigit_zero {k : JsString} (hne : k ≠ []) (h : k.foldl readDigit (some 0) = some 0) :
    ∃ rest, k = unit '0' :: rest := by
  induction k using List.reverseRecOn with
  | nil => exact absurd rfl hne
  | append_singleton k d ih =>
      obtain ⟨hk, hd⟩ := readDigit_concat h
      cases k with
      | nil => exact ⟨[], by rw [List.nil_append, show d = unit '0' from Fin.ext hd]⟩
      | cons c k =>
          obtain ⟨rest, hrest⟩ := ih (List.cons_ne_nil _ _) hk
          exact ⟨rest ++ [d], by rw [hrest]; rfl⟩

/-- No leading zero. -/
def Canonical (k : JsString) : Prop := k ≠ [] ∧ ∀ rest, k = unit '0' :: rest → rest = []

/-- The numeral before the last digit of a longer one. -/
theorem Canonical.init {k : JsString} {d : CodeUnit} (h : Canonical (k ++ [d])) (hne : k ≠ []) : Canonical k := by
  refine ⟨hne, fun rest hrest => ?_⟩
  have hnil := h.2 (rest ++ [d]) (by rw [hrest]; rfl)
  exact absurd hnil (List.append_ne_nil_of_right_ne_nil _ (List.cons_ne_nil _ _))

/-- Nothing before the last digit has the value 0. -/
theorem Canonical.eq_nil {k : JsString} {d : CodeUnit} (h : Canonical (k ++ [d]))
    (hzero : k.foldl readDigit (some 0) = some 0) : k = [] := by
  by_contra hne
  obtain ⟨rest, hrest⟩ := head_of_readDigit_zero hne hzero
  have hnil := h.2 (rest ++ [d]) (by rw [hrest]; rfl)
  exact absurd hnil (List.append_ne_nil_of_right_ne_nil _ (List.cons_ne_nil _ _))

theorem Canonical.inj {a b : JsString} {n : Nat} (ha : Canonical a) (hb : Canonical b)
    (hna : a.foldl readDigit (some 0) = some n) (hnb : b.foldl readDigit (some 0) = some n) : a = b := by
  induction a using List.reverseRecOn generalizing b n with
  | nil => exact absurd rfl ha.1
  | append_singleton a d ih =>
      obtain ⟨b, e, rfl⟩ := List.eq_nil_or_concat' b |>.resolve_left hb.1
      obtain ⟨hinitA, hd⟩ := readDigit_concat hna
      obtain ⟨hinitB, he⟩ := readDigit_concat hnb
      obtain rfl : d = e := Fin.ext (hd.trans he.symm)
      by_cases hzero : n / 10 = 0
      · rw [hzero] at hinitA hinitB
        rw [ha.eq_nil hinitA, hb.eq_nil hinitB]
      · have hane : a ≠ [] := fun h => hzero (by rw [h] at hinitA; exact (Option.some.inj hinitA).symm)
        have hbne : b ≠ [] := fun h => hzero (by rw [h] at hinitB; exact (Option.some.inj hinitB).symm)
        rw [ih (ha.init hane) (hb.init hbne) hinitA hinitB]

/-- An array index is spelled by one key. -/
theorem arrayIndex?_inj {a b : JsString} {i : Nat} (ha : arrayIndex? a = some i) (hb : arrayIndex? b = some i) :
    a = b := by
  obtain ⟨hane, hazero, ha⟩ := arrayIndex?_eq_some ha
  obtain ⟨hbne, hbzero, hb⟩ := arrayIndex?_eq_some hb
  exact Canonical.inj ⟨hane, hazero⟩ ⟨hbne, hbzero⟩ ha hb

/-! ## The order of the keys -/

/-- The order of `Object.keys`: the array indices, ascending, before the other keys. -/
def Precedes (a b : JsString) : Prop :=
  match arrayIndex? a, arrayIndex? b with
  | some i, some j => i < j
  | none, some _ => False
  | _, none => True

theorem precedes_none {a b : JsString} (h : arrayIndex? b = none) : Precedes a b := by
  unfold Precedes
  rw [h]
  cases arrayIndex? a <;> trivial

/-- The properties are listed in the order of `Object.keys`. -/
def Ordered (o : JsObject V) : Prop := o.entries.Pairwise fun p q => Precedes p.1 q.1

theorem ordered_empty : (empty : JsObject V).Ordered := List.Pairwise.nil

/-- What stands after the smaller indices is larger, or no index. -/
theorem precedes_of_mem_dropWhile {l : List (JsString × V)} (hl : l.Pairwise fun p q => Precedes p.1 q.1)
    {k : JsString} {i : Nat} (hk : arrayIndex? k = some i) (hnew : ∀ p ∈ l, p.1 ≠ k) :
    ∀ p ∈ l.dropWhile (fun p => (arrayIndex? p.1).any (· < i)), Precedes k p.1 := by
  induction l with
  | nil => exact fun p hp => by cases hp
  | cons q l ih =>
      obtain ⟨hq, hl⟩ := List.pairwise_cons.mp hl
      rw [List.dropWhile_cons]
      split_ifs with hsmall
      · exact ih hl fun p hp => hnew p (List.mem_cons_of_mem _ hp)
      · have hfirst : Precedes k q.1 := by
          unfold Precedes
          rw [hk]
          cases hj : arrayIndex? q.1 with
          | none => trivial
          | some j =>
              have hne : i ≠ j := by
                rintro rfl
                exact hnew q (List.mem_cons_self ..) (arrayIndex?_inj hj hk)
              rw [hj] at hsmall
              have hle : ¬ j < i := by simpa using hsmall
              show i < j
              omega
        intro p hp
        rcases List.mem_cons.mp hp with rfl | hp
        · exact hfirst
        · have hqp := hq p hp
          unfold Precedes at hfirst hqp ⊢
          rw [hk] at hfirst ⊢
          cases hj : arrayIndex? q.1 with
          | none =>
              rw [hj] at hqp
              cases hp' : arrayIndex? p.1 with
              | none => trivial
              | some j' =>
                  rw [hp'] at hqp
                  exact hqp.elim
          | some j =>
              rw [hj] at hfirst hqp
              cases hp' : arrayIndex? p.1 with
              | none => trivial
              | some j' =>
                  rw [hp'] at hqp
                  exact Nat.lt_trans hfirst hqp

theorem pairwise_place {l : List (JsString × V)} (hl : l.Pairwise fun p q => Precedes p.1 q.1) {k : JsString}
    (v : V) (hnew : ∀ p ∈ l, p.1 ≠ k) : (place k v l).Pairwise fun p q => Precedes p.1 q.1 := by
  unfold place
  split
  · rename_i i hk
    have hsplit := List.takeWhile_append_dropWhile (p := fun p : JsString × V => (arrayIndex? p.1).any (· < i)) (l := l)
    rw [← hsplit, List.pairwise_append] at hl
    obtain ⟨htake, hdrop, hcross⟩ := hl
    refine List.pairwise_append.mpr ⟨htake, List.pairwise_cons.mpr ⟨?_, hdrop⟩, fun p hp q hq => ?_⟩
    · refine precedes_of_mem_dropWhile ?_ hk hnew
      rw [← hsplit, List.pairwise_append]
      exact ⟨htake, hdrop, hcross⟩
    · rcases List.mem_cons.mp hq with rfl | hq
      · have hsmall := List.mem_takeWhile_imp hp
        obtain ⟨j, hj, hji⟩ := (Option.any_eq_true _ _).mp hsmall
        unfold Precedes
        rw [hk, hj]
        exact of_decide_eq_true hji
      · exact hcross p hp q hq
  · rename_i hk
    refine List.pairwise_append.mpr ⟨hl, List.pairwise_singleton _ _, fun p _ q hq => ?_⟩
    rw [List.mem_singleton.mp hq]
    exact precedes_none hk

theorem Ordered.define {o : JsObject V} (h : o.Ordered) (k : JsString) (v : V) : (o.define k v).Ordered := by
  unfold Ordered JsObject.define defineEntry
  dsimp only
  split_ifs with hk
  · rw [List.pairwise_map]
    have hkeep : ∀ p : JsString × V, (if p.1 = k then (k, v) else p).1 = p.1 := by
      intro p
      split_ifs with hp
      · exact hp.symm
      · rfl
    simp only [hkeep]
    exact h
  · exact pairwise_place h v fun p hp hpk => hk (List.any_eq_true.mpr ⟨p, hp, by simpa using hpk⟩)

theorem Ordered.set {o : JsObject V} (h : o.Ordered) (k : JsString) (v : V) : (o.set k v).Ordered := by
  unfold JsObject.set
  split_ifs
  · exact h
  · exact h.define k v

/-- A key that comes after all others is placed at the end. -/
theorem place_last {l : List (JsString × V)} {k : JsString} {v : V} (h : ∀ p ∈ l, Precedes p.1 k) :
    place k v l = l ++ [(k, v)] := by
  unfold place
  split
  · rename_i i hk
    have hall : ∀ p ∈ l, (arrayIndex? p.1).any (· < i) = true := by
      intro p hp
      have hprecedes := h p hp
      unfold Precedes at hprecedes
      rw [hk] at hprecedes
      cases hj : arrayIndex? p.1 with
      | none =>
          rw [hj] at hprecedes
          exact hprecedes.elim
      | some j =>
          rw [hj] at hprecedes
          exact decide_eq_true hprecedes
    dsimp only
    rw [List.takeWhile_eq_self_iff.mpr hall, List.dropWhile_eq_nil_iff.mpr hall]
  · rfl

/-- Writing the properties of an object in their order gives them back. -/
theorem foldl_set_ordered {W : Type} (f : W → V) {l : List (JsString × W)} {o : JsObject V}
    (hdistinct : Distinct Prod.fst (o.entries ++ l.map fun p => (p.1, f p.2)))
    (hordered : (o.entries ++ l.map fun p => (p.1, f p.2)).Pairwise fun p q => Precedes p.1 q.1)
    (hproto : ∀ p ∈ l, p.1 ≠ protoKey) :
    (l.foldl (fun o p => o.set p.1 (f p.2)) o).entries = o.entries ++ l.map fun p => (p.1, f p.2) := by
  induction l generalizing o with
  | nil => simp
  | cons p l ih =>
      obtain ⟨hp, hproto⟩ := List.forall_mem_cons.mp hproto
      rw [List.map_cons] at hdistinct hordered ⊢
      have hlast : (o.set p.1 (f p.2)).entries = o.entries ++ [(p.1, f p.2)] := by
        have hnew : ¬ (o.entries.any fun q => q.1 = p.1) = true := by
          rw [List.any_eq_true]
          rintro ⟨q, hq, hqp⟩
          exact (distinct_append.mp hdistinct).2.2 q hq (p.1, f p.2) (List.mem_cons_self ..) (by simpa using hqp)
        rw [set_of_ne hp]
        show defineEntry p.1 (f p.2) o.entries = _
        rw [defineEntry, if_neg hnew]
        exact place_last fun q hq => (List.pairwise_append.mp hordered).2.2 q hq (p.1, f p.2) (List.mem_cons_self ..)
      rw [List.foldl_cons, ih, hlast, List.append_assoc, List.singleton_append]
      · rwa [hlast, List.append_assoc, List.singleton_append]
      · rwa [hlast, List.append_assoc, List.singleton_append]
      · exact hproto

/-- Writing its properties into an empty object gives an object back. -/
theorem Ordered.foldl_set_self {o : JsObject V} (h : o.Ordered) (hproto : protoKey ∉ o.keys) :
    o.entries.foldl (fun o p => o.set p.1 p.2) empty = o := by
  have hmap : (o.entries.map fun p => (p.1, p.2)) = o.entries := List.map_id _
  have hentries : (o.entries.foldl (fun o p => o.set p.1 p.2) empty).entries = o.entries := by
    refine (foldl_set_ordered (fun v : V => v) ?_ ?_ fun p hp hkey => ?_).trans hmap
    · rw [hmap]
      exact o.distinct
    · rw [hmap]
      exact h
    · exact hproto (hkey ▸ List.mem_map_of_mem hp)
  cases hfolded : o.entries.foldl (fun o p => o.set p.1 p.2) (empty : JsObject V)
  rw [hfolded] at hentries
  cases o
  cases hentries
  rfl

end JsObject

end SecretsManager
