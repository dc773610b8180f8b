import Mathlib.Algebra.Group.Nat.Defs
import SecretsManager.Js.Text
import SecretsManager.Library.SortedBy

/-!
# Plain JavaScript objects

An object is the list of its own string-keyed properties in the order of `Object.keys`: the array
indices in ascending order, then the other keys in the order of their creation. There are two ways to
write a property. `CreateDataProperty` (`Object.fromEntries`, `JSON.parse`, a computed key in an object
literal) always creates an own property; an assignment `o[k] = v` goes through the `__proto__` setter
of `Object.prototype` when `k` is `__proto__`, which ignores a value that is no object.
-/

namespace SecretsManager

open Js SortedBy

/-- A plain object with values in `V`. -/
structure JsObject (V : Type) where
  entries : List (JsString × V)
  distinct : Distinct Prod.fst entries
  deriving DecidableEq

namespace JsObject

variable {V : Type}

/-- `{}` -/
def empty : JsObject V := ⟨[], distinct_nil _⟩

/-- `Object.keys(o)` -/
def keys (o : JsObject V) : List JsString := o.entries.map Prod.fst

/-- The own property `k`. -/
def get? (o : JsObject V) (k : JsString) : Option V :=
  (o.entries.find? fun p => p.1 = k).map Prod.snd

/-- `Object.hasOwn(o, k)` -/
def hasOwn (o : JsObject V) (k : JsString) : Bool := (o.get? k).isSome

theorem get?_eq_some_iff {o : JsObject V} {k : JsString} {v : V} :
    o.get? k = some v ↔ (k, v) ∈ o.entries := by
  constructor
  · intro h
    obtain ⟨p, hp, rfl⟩ := Option.map_eq_some_iff.mp h
    have hk : p.1 = k := by simpa using List.find?_some hp
    exact hk ▸ List.mem_of_find?_eq_some hp
  · intro h
    cases hf : o.entries.find? (fun p => p.1 = k) with
    | none =>
        have hne := List.find?_eq_none.mp hf (k, v) h
        simp at hne
    | some p =>
        have hk : p.1 = k := by simpa using List.find?_some hf
        have hp : p = (k, v) := o.distinct.inj (List.mem_of_find?_eq_some hf) h hk
        rw [get?, hf, hp, Option.map_some]

theorem get?_eq_none_iff {o : JsObject V} {k : JsString} : o.get? k = none ↔ k ∉ o.keys := by
  rw [← not_iff_not, not_not, ← ne_eq, Option.ne_none_iff_exists', keys, List.mem_map]
  constructor
  · rintro ⟨v, hv⟩
    exact ⟨(k, v), get?_eq_some_iff.mp hv, rfl⟩
  · rintro ⟨⟨k, v⟩, hp, rfl⟩
    exact ⟨v, get?_eq_some_iff.mpr hp⟩

theorem hasOwn_iff {o : JsObject V} {k : JsString} : o.hasOwn k = true ↔ k ∈ o.keys := by
  rw [hasOwn, Option.isSome_iff_ne_none, ne_eq, get?_eq_none_iff, not_not]

@[simp] theorem get?_empty (k : JsString) : (empty : JsObject V).get? k = none := rfl

/-! ## Writing a property -/

/-- The array index that a key spells: a canonical decimal numeral below `2^32 - 1`. -/
def arrayIndex? (k : JsString) : Option Nat :=
  match k with
  | [] => none
  | c :: rest =>
      if c = unit '0' ∧ rest ≠ [] then none
      else
        (k.foldl (fun n? d => n?.bind fun n =>
          if 0x30 ≤ d.val ∧ d.val ≤ 0x39 then some (10 * n + (d.val - 0x30)) else none) (some 0)).filter
          (· < 2 ^ 32 - 1)

/-- Where a new key goes: an array index before the first key that is no smaller index, any other key
at the end. -/
def place (k : JsString) (v : V) (l : List (JsString × V)) : List (JsString × V) :=
  match arrayIndex? k with
  | some i =>
      let smaller := fun p : JsString × V => (arrayIndex? p.1).any (· < i)
      l.takeWhile smaller ++ (k, v) :: l.dropWhile smaller
  | none => l ++ [(k, v)]

theorem place_perm (k : JsString) (v : V) (l : List (JsString × V)) :
    (place k v l).Perm ((k, v) :: l) := by
  unfold place
  split
  · refine List.perm_middle.trans ?_
    rw [List.takeWhile_append_dropWhile]
  · exact List.perm_append_singleton (k, v) l

/-- The properties after writing `k`: in place when the key exists. -/
def defineEntry (k : JsString) (v : V) (l : List (JsString × V)) : List (JsString × V) :=
  if l.any fun p => p.1 = k then l.map fun p => if p.1 = k then (k, v) else p else place k v l

theorem mem_defineEntry {k : JsString} {v : V} {l : List (JsString × V)} {p : JsString × V} :
    p ∈ defineEntry k v l ↔ p = (k, v) ∨ p.1 ≠ k ∧ p ∈ l := by
  unfold defineEntry
  split
  · rename_i hk
    obtain ⟨q, hq, hqk⟩ := List.any_eq_true.mp hk
    rw [List.mem_map]
    constructor
    · rintro ⟨r, hr, rfl⟩
      by_cases hrk : r.1 = k
      · exact Or.inl (if_pos hrk)
      · rw [if_neg hrk]
        exact Or.inr ⟨hrk, hr⟩
    · rintro (rfl | ⟨hne, hp⟩)
      · exact ⟨q, hq, if_pos (by simpa using hqk)⟩
      · exact ⟨p, hp, if_neg hne⟩
  · rename_i hk
    rw [(place_perm k v l).mem_iff, List.mem_cons]
    refine or_congr_right ⟨fun hp => ⟨?_, hp⟩, And.right⟩
    intro hpk
    exact hk (List.any_eq_true.mpr ⟨p, hp, by simpa using hpk⟩)

theorem distinct_defineEntry {k : JsString} {v : V} {l : List (JsString × V)}
    (h : Distinct Prod.fst l) : Distinct Prod.fst (defineEntry k v l) := by
  unfold defineEntry
  split
  · have hmap : (l.map fun p => if p.1 = k then (k, v) else p).map Prod.fst = l.map Prod.fst := by
      rw [List.map_map]
      refine List.map_congr_left fun p _ => ?_
      by_cases hp : p.1 = k <;> simp [hp]
    rw [Distinct, hmap]
    exact h
  · rename_i hk
    refine Distinct.perm ?_ (place_perm k v l).symm
    refine distinct_cons.mpr ⟨fun p hp hpk => hk ?_, h⟩
    exact List.any_eq_true.mpr ⟨p, hp, by simpa using hpk⟩

/-- `CreateDataProperty(o, k, v)`: an own property, whatever the key. -/
def define (o : JsObject V) (k : JsString) (v : V) : JsObject V :=
  ⟨defineEntry k v o.entries, distinct_defineEntry o.distinct⟩

theorem get?_define (o : JsObject V) (k : JsString) (v : V) (k' : JsString) :
    (o.define k v).get? k' = if k' = k then some v else o.get? k' := by
  apply Option.ext
  intro w
  rw [get?_eq_some_iff, define, mem_defineEntry]
  by_cases h : k' = k
  · simp [h, eq_comm]
  · simp [h, get?_eq_some_iff]

theorem mem_keys_define {o : JsObject V} {k : JsString} {v : V} {k' : JsString} :
    k' ∈ (o.define k v).keys ↔ k' = k ∨ k' ∈ o.keys := by
  rw [← hasOwn_iff, ← hasOwn_iff, hasOwn, hasOwn, get?_define]
  by_cases h : k' = k <;> simp [h]

/-- `__proto__`, the accessor property of `Object.prototype`. -/
def protoKey : JsString := js "__proto__"

/-- `o[k] = v` for a `v` that is no object: without an own `__proto__`, assigning to it runs the
inherited setter, which ignores the value. -/
def set (o : JsObject V) (k : JsString) (v : V) : JsObject V :=
  if k = protoKey ∧ o.hasOwn k = false then o else o.define k v

theorem set_of_ne {o : JsObject V} {k : JsString} {v : V} (h : k ≠ protoKey) :
    o.set k v = o.define k v := by
  rw [set, if_neg fun hk => h hk.1]

/-- The properties that every plain object inherits from `Object.prototype`, in the order of
`Object.getOwnPropertyNames`, with the `length` of their value where it has one. -/
def objectPrototype : List (JsString × Option Nat) :=
  [(js "constructor", some 1), (js "__defineGetter__", some 2), (js "__defineSetter__", some 2),
    (js "hasOwnProperty", some 1), (js "__lookupGetter__", some 1), (js "__lookupSetter__", some 1),
    (js "isPrototypeOf", some 1), (js "propertyIsEnumerable", some 1), (js "toString", some 0),
    (js "valueOf", some 0), (protoKey, none), (js "toLocaleString", some 0)]

/-- The key is inherited by every plain object. -/
def Inherited (k : JsString) : Prop := k ∈ objectPrototype.map Prod.fst

instance (k : JsString) : Decidable (Inherited k) := inferInstanceAs (Decidable (_ ∈ _))

/-- The operator `k in o`, which also finds inherited properties. -/
def isIn (k : JsString) (o : JsObject V) : Bool := o.hasOwn k || decide (Inherited k)

/-- `Object.fromEntries(l)` -/
def fromEntries (l : List (JsString × V)) : JsObject V :=
  l.foldl (fun o p => o.define p.1 p.2) empty

theorem mem_entries_foldl_define (l : List (JsString × V)) (hl : Distinct Prod.fst l)
    (o : JsObject V) (p : JsString × V) :
    p ∈ (l.foldl (fun o p => o.define p.1 p.2) o).entries ↔
      p ∈ l ∨ p ∈ o.entries ∧ ∀ q ∈ l, q.1 ≠ p.1 := by
  induction l generalizing o with
  | nil => simp
  | cons q l ih =>
      obtain ⟨hq, hl⟩ := distinct_cons.mp hl
      rw [List.foldl_cons, ih hl, define, mem_defineEntry, List.mem_cons]
      constructor
      · rintro (hp | ⟨rfl | ⟨hne, hp⟩, hall⟩)
        · exact Or.inl (Or.inr hp)
        · exact Or.inl (Or.inl rfl)
        · refine Or.inr ⟨hp, fun r hr => ?_⟩
          rcases List.mem_cons.mp hr with rfl | hr
          · exact hne.symm
          · exact hall r hr
      · rintro ((rfl | hp) | ⟨hp, hall⟩)
        · exact Or.inr ⟨Or.inl rfl, hq⟩
        · exact Or.inl hp
        · exact Or.inr ⟨Or.inr ⟨(hall q (List.mem_cons_self ..)).symm, hp⟩,
            fun r hr => hall r (List.mem_cons_of_mem _ hr)⟩

theorem mem_entries_fromEntries {l : List (JsString × V)} (hl : Distinct Prod.fst l)
    (p : JsString × V) : p ∈ (fromEntries l).entries ↔ p ∈ l := by
  rw [fromEntries, mem_entries_foldl_define l hl]
  simp [empty]

/-! ## Objects as maps -/

/-- Two objects with the same own properties list them in some order each. -/
theorem perm_entries_iff {a b : JsObject V} :
    a.entries.Perm b.entries ↔ ∀ k, a.get? k = b.get? k := by
  have ha : a.entries.Nodup := List.Nodup.of_map _ a.distinct
  have hb : b.entries.Nodup := List.Nodup.of_map _ b.distinct
  rw [List.perm_ext_iff_of_nodup ha hb]
  constructor
  · intro h k
    apply Option.ext
    intro v
    rw [get?_eq_some_iff, get?_eq_some_iff, h]
  · rintro h ⟨k, v⟩
    rw [← get?_eq_some_iff, ← get?_eq_some_iff, h]

/-- The properties in the order of their keys. -/
def sortedEntries (o : JsObject V) : List (JsString × V) := sortBy Prod.fst o.entries

theorem mem_sortedEntries {o : JsObject V} {k : JsString} {v : V} :
    (k, v) ∈ o.sortedEntries ↔ o.get? k = some v := by
  rw [sortedEntries, mem_sortBy, get?_eq_some_iff]

theorem sortedEntries_pairwise (o : JsObject V) :
    o.sortedEntries.Pairwise fun p q => p.1 < q.1 :=
  o.distinct.pairwise_sortBy

theorem distinct_sortedEntries (o : JsObject V) : Distinct Prod.fst o.sortedEntries :=
  o.distinct.perm (sortBy_perm _ _).symm

theorem sortedEntries_eq_iff {a b : JsObject V} :
    a.sortedEntries = b.sortedEntries ↔ ∀ k, a.get? k = b.get? k := by
  rw [← perm_entries_iff]
  exact ⟨perm_of_sortBy_eq, a.distinct.sortBy_eq_of_perm⟩

end JsObject

end SecretsManager
