import SecretsManager.Secrets.SecretsDiff

/-!
# What the diff reveals

A preview reaches clients that may not see a value. In two runs of `computeSecretsDiff` over the same names
and keys, with values of the same lengths, the first place where the values themselves come in is the
comparison of a key that both sides have (`reportedKey_eq_of_sameOutline`). When that comparison comes out
the same, so does the whole diff (`computeSecretsDiff_noninterference`).
-/

namespace SecretsManager

open Js SortedBy JsObject

/-! ## Two runs -/

/-- The keys with the lengths of their values. -/
def SecretData.lengths (data : SecretData) : List (JsString × Nat) :=
  data.entries.map fun p => (p.1, p.2.length)

/-- The same secret in two runs: the name, the keys and the lengths agree. -/
structure SameOutline (s t : SecretContent) : Prop where
  name : s.name = t.name
  lengths : (SecretData.lengths s.data).Perm (SecretData.lengths t.data)

/-- A key that both sides of a secret have has equal values in one run when it has in the other. -/
def SamePattern (current current' incoming incoming' : List SecretContent) : Prop :=
  ∀ p ∈ current.zip current', ∀ q ∈ incoming.zip incoming', p.1.name = q.1.name →
    ∀ k ∈ p.1.data.keys, k ∈ q.1.data.keys →
      (p.1.data.get? k = q.1.data.get? k ↔ p.2.data.get? k = q.2.data.get? k)

instance (s t : SecretContent) : Decidable (SameOutline s t) :=
  decidable_of_iff (s.name = t.name ∧ (SecretData.lengths s.data).Perm (SecretData.lengths t.data))
    ⟨fun h => ⟨h.1, h.2⟩, fun h => ⟨h.name, h.lengths⟩⟩

instance (current current' incoming incoming' : List SecretContent) :
    Decidable (SamePattern current current' incoming incoming') :=
  inferInstanceAs (Decidable (∀ p ∈ _, ∀ q ∈ _, _ → ∀ k ∈ _, _ → _))

/-! ## One secret -/

theorem mem_lengths {data : SecretData} {k : JsString} {n : Nat} :
    (k, n) ∈ data.lengths ↔ (data.get? k).map List.length = some n := by
  unfold SecretData.lengths
  rw [List.mem_map, Option.map_eq_some_iff]
  constructor
  · rintro ⟨⟨k', v⟩, hp, heq⟩
    cases heq
    exact ⟨v, get?_eq_some_iff.mpr hp, rfl⟩
  · rintro ⟨v, hv, rfl⟩
    exact ⟨(k, v), get?_eq_some_iff.mp hv, rfl⟩

theorem access_eq_own_iff {data : SecretData} {k v : JsString} :
    data.access k = some (.own v) ↔ data.get? k = some v := by
  unfold access
  cases data.get? k with
  | none => simp
  | some w => simp

section Outline
variable {s t : SecretContent} (h : SameOutline s t)
include h

theorem SameOutline.length_get? (k : JsString) :
    (s.data.get? k).map List.length = (t.data.get? k).map List.length := by
  ext n
  rw [← mem_lengths, ← mem_lengths]
  exact h.lengths.mem_iff

theorem SameOutline.get?_eq_none_iff {k : JsString} : s.data.get? k = none ↔ t.data.get? k = none := by
  rw [← Option.map_eq_none_iff (f := List.length), h.length_get? k, Option.map_eq_none_iff]

theorem SameOutline.get?_eq_some {k v : JsString} (hv : s.data.get? k = some v) :
    ∃ v', t.data.get? k = some v' ∧ v.length = v'.length := by
  have hlength := h.length_get? k
  rw [hv, Option.map_some, eq_comm, Option.map_eq_some_iff] at hlength
  obtain ⟨v', hv', hlength⟩ := hlength
  exact ⟨v', hv', hlength.symm⟩

theorem SameOutline.isIn (k : JsString) : isIn k s.data = isIn k t.data := by
  have hown : s.data.hasOwn k = t.data.hasOwn k := by
    unfold hasOwn
    rw [← Option.isSome_map (f := List.length), h.length_get? k, Option.isSome_map]
  rw [JsObject.isIn, JsObject.isIn, hown]

/-- Of a property of the other side only the length is shown. -/
theorem SameOutline.length_access (k : JsString) :
    (s.data.access k).bind Property.length = (t.data.access k).bind Property.length := by
  unfold access
  cases hv : s.data.get? k with
  | none => rw [h.get?_eq_none_iff.mp hv]
  | some v =>
      obtain ⟨v', hv', hlength⟩ := h.get?_eq_some hv
      rw [hv']
      exact congrArg some hlength

/-- A secret that one side has is shown with its keys and the lengths of its values. -/
theorem SameOutline.wholeSecretKeys (status : SecretDiffStatus) (summary : SecretsDiffSummary) :
    (wholeSecretKeys status s.data summary).1 = (wholeSecretKeys status t.data summary).1 := by
  refine (lists_wholeSecretKeys status s.data summary).unique
    ((lists_wholeSecretKeys status t.data summary).congr fun d => ?_)
  have hlength : ∀ data : SecretData, ((data.get? d.key).map fun v => oneSided status (d.key, v)) =
      ((data.get? d.key).map List.length).map fun n => ⟨d.key, status, some n, none, none⟩ := by
    intro data
    rw [Option.map_map]
    rfl
  rw [hlength, hlength, h.length_get?]

theorem SameOutline.beforeEntry {k v v' : JsString} (hv : v.length = v'.length) :
    beforeEntry s.data (k, v) = beforeEntry t.data (k, v') := by
  unfold SecretsManager.beforeEntry oneSided
  rw [h.isIn, hv]

theorem SameOutline.afterEntry {k w w' : JsString} (hw : w.length = w'.length)
    (heq : s.data.get? k = some w ↔ t.data.get? k = some w') :
    afterEntry s.data (k, w) = afterEntry t.data (k, w') := by
  unfold SecretsManager.afterEntry oneSided
  simp only [h.isIn, h.length_access, hw, ne_eq, access_eq_own_iff, heq]

end Outline

/-! ## A secret that both sides have -/

section Keys
variable {s s' t t' : SecretContent} (hs : SameOutline s s') (ht : SameOutline t t')
include hs ht

/-- The values count only where both sides have the key, and there only whether they are equal. -/
theorem reportedKey_eq_of_sameOutline {k : JsString}
    (hvalues : k ∈ s.data.keys → k ∈ t.data.keys →
      (s.data.get? k = t.data.get? k ↔ s'.data.get? k = t'.data.get? k)) :
    reportedKey s.data t.data k = reportedKey s'.data t'.data k := by
  unfold reportedKey
  cases hw : t.data.get? k with
  | none =>
      rw [ht.get?_eq_none_iff.mp hw]
      cases hv : s.data.get? k with
      | none => rw [hs.get?_eq_none_iff.mp hv]
      | some v =>
          obtain ⟨v', hv', hlength⟩ := hs.get?_eq_some hv
          rw [hv']
          exact ht.beforeEntry hlength
  | some w =>
      obtain ⟨w', hw', hlength⟩ := ht.get?_eq_some hw
      rw [hw']
      refine hs.afterEntry hlength ?_
      rw [← hw, ← hw']
      cases hv : s.data.get? k with
      | none =>
          rw [hs.get?_eq_none_iff.mp hv, hw, hw']
          exact iff_of_false (Option.some_ne_none w).symm (Option.some_ne_none w').symm
      | some v =>
          rw [← hv]
          refine hvalues (hasOwn_iff.mp ?_) (hasOwn_iff.mp ?_)
          · rw [hasOwn, hv, Option.isSome_some]
          · rw [hasOwn, hw, Option.isSome_some]

theorem diffSecretKeys_eq_of_sameOutline (summary : SecretsDiffSummary)
    (hvalues : ∀ k ∈ s.data.keys, k ∈ t.data.keys →
      (s.data.get? k = t.data.get? k ↔ s'.data.get? k = t'.data.get? k)) :
    (diffSecretKeys s.data t.data summary).1 = (diffSecretKeys s'.data t'.data summary).1 := by
  refine (lists_diffSecretKeys s.data t.data summary).unique
    ((lists_diffSecretKeys s'.data t'.data summary).congr fun d => ?_)
  rw [reportedKey_eq_of_sameOutline hs ht (hvalues d.key)]

end Keys

/-! ## The diff -/

theorem byName_cons (s : SecretContent) (a : List SecretContent) (name : JsString) :
    byName (s :: a) name = (byName a name).or (if s.name = name then some s else none) := by
  unfold byName
  rw [List.reverse_cons, List.find?_append, List.find?_singleton]
  simp only [decide_eq_true_eq]

/-- The last secret of a name is found in both runs at one place. -/
theorem byName_zip {a a' : List SecretContent} (h : List.Forall₂ SameOutline a a') (name : JsString) :
    (byName a name = none ∧ byName a' name = none) ∨
      ∃ p ∈ a.zip a', p.1.name = name ∧ byName a name = some p.1 ∧ byName a' name = some p.2 := by
  induction h with
  | nil => exact Or.inl ⟨rfl, rfl⟩
  | @cons s s' a a' hs _ ih =>
      rw [byName_cons, byName_cons, List.zip_cons_cons]
      rcases ih with ⟨h₁, h₂⟩ | ⟨p, hp, hname, h₁, h₂⟩
      · rw [h₁, h₂, Option.none_or, Option.none_or, ← hs.name]
        by_cases hname : s.name = name
        · rw [if_pos hname, if_pos hname]
          exact Or.inr ⟨(s, s'), List.mem_cons_self .., hname, rfl, rfl⟩
        · rw [if_neg hname, if_neg hname]
          exact Or.inl ⟨rfl, rfl⟩
      · rw [h₁, h₂, Option.some_or, Option.some_or]
        exact Or.inr ⟨p, List.mem_cons_of_mem _ hp, hname, rfl, rfl⟩

/-- What a loop over a list collects is what it collects in the other run, when each turn gives the same. -/
theorem filterMap_eq_of_zip {A B : Type} {a a' : List A} (hlength : a.length = a'.length) {f g : A → Option B}
    (h : ∀ p ∈ a.zip a', f p.1 = g p.2) : a.filterMap f = a'.filterMap g := by
  calc a.filterMap f
      = ((a.zip a').map Prod.fst).filterMap f := by rw [List.map_fst_zip hlength.le]
    _ = ((a.zip a').map Prod.snd).filterMap g := by
        rw [List.filterMap_map, List.filterMap_map]
        exact List.filterMap_congr h
    _ = a'.filterMap g := by rw [List.map_snd_zip hlength.ge]

section Diff
variable {current current' incoming incoming' : List SecretContent}
  (hc : List.Forall₂ SameOutline current current') (hi : List.Forall₂ SameOutline incoming incoming')
  (hvalues : SamePattern current current' incoming incoming')
include hc hi

theorem currentDiff_eq_of_sameOutline {p : SecretContent × SecretContent} (hp : p ∈ current.zip current') :
    currentDiff incoming p.1 = currentDiff incoming' p.2 := by
  have houtline := List.forall₂_zip hc hp
  unfold currentDiff
  rcases byName_zip hi p.1.name with ⟨h₁, h₂⟩ | ⟨q, -, -, h₁, h₂⟩
  · rw [← houtline.name, h₁, h₂, houtline.wholeSecretKeys]
  · rw [← houtline.name, h₁, h₂]
    rfl

include hvalues

theorem incomingDiff_eq_of_sameOutline {q : SecretContent × SecretContent} (hq : q ∈ incoming.zip incoming') :
    incomingDiff current q.1 = incomingDiff current' q.2 := by
  have houtline := List.forall₂_zip hi hq
  unfold incomingDiff
  rcases byName_zip hc q.1.name with ⟨h₁, h₂⟩ | ⟨p, hp, hname, h₁, h₂⟩
  · rw [← houtline.name, h₁, h₂, houtline.wholeSecretKeys]
  · rw [← houtline.name, h₁, h₂]
    simp only [diffSecretKeys_eq_of_sameOutline (List.forall₂_zip hc hp) houtline .zero (hvalues p hp q hq hname)]

/-- **The diff reveals only equality and lengths.** Two runs over secrets with the same names and keys, values of
the same lengths and the same pattern of equal and different values give one result; secrets with distinct names
may also stand in another order. -/
theorem computeSecretsDiff_noninterference :
    computeSecretsDiff current incoming = computeSecretsDiff current' incoming' ∧
      ∀ c i, UniqueNames c → UniqueNames i → c.Perm current' → i.Perm incoming' →
        computeSecretsDiff current incoming = computeSecretsDiff c i := by
  have hentries : secretEntries current incoming = secretEntries current' incoming' := by
    unfold secretEntries
    rw [filterMap_eq_of_zip hi.length_eq fun q => incomingDiff_eq_of_sameOutline hc hi hvalues,
      filterMap_eq_of_zip hc.length_eq fun p => currentDiff_eq_of_sameOutline hc hi]
  have hdiff : computeSecretsDiff current incoming = computeSecretsDiff current' incoming' := by
    rw [computeSecretsDiff_eq, computeSecretsDiff_eq, hentries]
  refine ⟨hdiff, fun c i huc hui hcurrent hincoming => ?_⟩
  rw [hdiff]
  exact computeSecretsDiff_congr (huc.perm hcurrent) huc (hui.perm hincoming) hui
    (contentMap_eq_of_perm huc hcurrent).symm (contentMap_eq_of_perm hui hincoming).symm

end Diff

section Example

/-- A secret with one key that the other side changes. -/
def withToken (token : JsString) : SecretContent := ⟨js "api", ⟨[(js "token", token)], List.nodup_singleton _⟩⟩

theorem computeSecretsDiff_noninterference_token :
    computeSecretsDiff [withToken (js "old")] [withToken (js "newer")] =
        computeSecretsDiff [withToken (js "abc")] [withToken (js "vwxyz")] ∧
      (computeSecretsDiff [withToken (js "old")] [withToken (js "newer")]).secrets =
        [⟨js "api", .changed, [⟨js "token", .changed, none, some 3, some 5⟩]⟩] := by
  refine ⟨(computeSecretsDiff_noninterference ?_ ?_ (by decide)).1, by decide⟩
  · exact .cons (by decide) .nil
  · exact .cons (by decide) .nil

end Example

end SecretsManager
