import Mathlib.Data.List.Dedup
import SecretsManager.Secrets.SecretsHash

/-!
# The secrets diff

A preview shows which secrets and keys an incoming content would add, remove or change. The comparison
of two data objects asks `key in data`, which also finds the properties that every object inherits. The
listing is exact for every key that is not inherited, and for an inherited one when it is an own key of
both sides or of neither (`computeSecretsDiff_exact_iff`).
-/

namespace SecretsManager

open Js SortedBy JsObject

inductive SecretDiffStatus where
  | added
  | removed
  | changed
  deriving DecidableEq

/-- A length is `none` when its field is `undefined`. -/
structure SecretKeyDiff where
  key : JsString
  status : SecretDiffStatus
  valueLength : Option Nat
  valueLengthBefore : Option Nat
  valueLengthAfter : Option Nat
  deriving DecidableEq

structure SecretDiff where
  name : JsString
  status : SecretDiffStatus
  keys : List SecretKeyDiff
  deriving DecidableEq

@[ext] structure SecretsDiffSummary where
  secretsAdded : Nat
  secretsRemoved : Nat
  secretsChanged : Nat
  keysAdded : Nat
  keysRemoved : Nat
  keysChanged : Nat
  deriving DecidableEq

structure SecretsDiffResult where
  summary : SecretsDiffSummary
  secrets : List SecretDiff
  deriving DecidableEq

/-! ## Property access -/

/-- What `o[k]` is for a plain object of strings: an own value, or an inherited one, of which only the
`length` is read. -/
inductive Property where
  | own (v : JsString)
  | inherited (length : Option Nat)
  deriving DecidableEq

/-- `o[k]` -/
def JsObject.access (o : SecretData) (k : JsString) : Option Property :=
  match o.get? k with
  | some v => some (.own v)
  | none => (objectPrototype.find? fun p => p.1 = k).map fun p => .inherited p.2

/-- `v.length` -/
def Property.length : Property → Option Nat
  | own v => some v.length
  | inherited length => length

/-! ## The algorithm -/

namespace SecretsDiffSummary

def zero : SecretsDiffSummary := ⟨0, 0, 0, 0, 0, 0⟩

/-- `summary.keysAdded += 1` and its siblings. -/
def countKey (summary : SecretsDiffSummary) (d : SecretKeyDiff) : SecretsDiffSummary :=
  match d.status with
  | .added => { summary with keysAdded := summary.keysAdded + 1 }
  | .removed => { summary with keysRemoved := summary.keysRemoved + 1 }
  | .changed => { summary with keysChanged := summary.keysChanged + 1 }

/-- `summary.secretsAdded += 1` and its siblings. -/
def countSecret (summary : SecretsDiffSummary) (status : SecretDiffStatus) : SecretsDiffSummary :=
  match status with
  | .added => { summary with secretsAdded := summary.secretsAdded + 1 }
  | .removed => { summary with secretsRemoved := summary.secretsRemoved + 1 }
  | .changed => { summary with secretsChanged := summary.secretsChanged + 1 }

end SecretsDiffSummary

/-- Pushes the entry, if there is one, and counts it. -/
def pushKey (acc : List SecretKeyDiff × SecretsDiffSummary) :
    Option SecretKeyDiff → List SecretKeyDiff × SecretsDiffSummary
  | none => acc
  | some d => (acc.1 ++ [d], acc.2.countKey d)

/-- The entry of a key that one side has. -/
def oneSided (status : SecretDiffStatus) (p : JsString × JsString) : SecretKeyDiff :=
  ⟨p.1, status, some p.2.length, none, none⟩

/-- The entry that the loop over the sorted entries of `after.data` pushes. -/
def afterEntry (before : SecretData) (p : JsString × JsString) : Option SecretKeyDiff :=
  if isIn p.1 before = false then some (oneSided .added p)
  else if before.access p.1 ≠ some (.own p.2) then
    some ⟨p.1, .changed, none, (before.access p.1).bind Property.length, some p.2.length⟩
  else none

/-- The entry that the loop over the sorted entries of `before.data` pushes. -/
def beforeEntry (after : SecretData) (p : JsString × JsString) : Option SecretKeyDiff :=
  if isIn p.1 after = false then some (oneSided .removed p) else none

def diffSecretKeys (before after : SecretData) (summary : SecretsDiffSummary) :
    List SecretKeyDiff × SecretsDiffSummary :=
  let acc := after.sortedEntries.foldl (fun acc p => pushKey acc (afterEntry before p)) ([], summary)
  let acc := before.sortedEntries.foldl (fun acc p => pushKey acc (beforeEntry after p)) acc
  (sortBy SecretKeyDiff.key acc.1, acc.2)

/-- The keys of a secret that one side has. -/
def wholeSecretKeys (status : SecretDiffStatus) (data : SecretData) (summary : SecretsDiffSummary) :
    List SecretKeyDiff × SecretsDiffSummary :=
  data.sortedEntries.foldl (fun acc p => pushKey acc (some (oneSided status p))) ([], summary)

/-- `new Map(secrets.map((secret) => [secret.name, secret])).get(name)`: of secrets with one name the
last is kept. -/
def byName (secrets : List SecretContent) (name : JsString) : Option SecretContent :=
  secrets.reverse.find? fun s => s.name = name

/-- One turn of the loop over `incoming`. -/
def diffIncoming (current : List SecretContent) (acc : List SecretDiff × SecretsDiffSummary)
    (secret : SecretContent) : List SecretDiff × SecretsDiffSummary :=
  match byName current secret.name with
  | none =>
      let (keys, summary) := wholeSecretKeys .added secret.data (acc.2.countSecret .added)
      (acc.1 ++ [⟨secret.name, .added, keys⟩], summary)
  | some before =>
      let (keys, summary) := diffSecretKeys before.data secret.data acc.2
      if 0 < keys.length then
        (acc.1 ++ [⟨secret.name, .changed, keys⟩], summary.countSecret .changed)
      else (acc.1, summary)

/-- One turn of the loop over `current`. -/
def diffCurrent (incoming : List SecretContent) (acc : List SecretDiff × SecretsDiffSummary)
    (secret : SecretContent) : List SecretDiff × SecretsDiffSummary :=
  if (byName incoming secret.name).isSome then acc
  else
    let (keys, summary) := wholeSecretKeys .removed secret.data (acc.2.countSecret .removed)
    (acc.1 ++ [⟨secret.name, .removed, keys⟩], summary)

def computeSecretsDiff (current incoming : List SecretContent) : SecretsDiffResult :=
  let acc := incoming.foldl (diffIncoming current) ([], .zero)
  let acc := current.foldl (diffCurrent incoming) acc
  ⟨acc.2, sortBy SecretDiff.name acc.1⟩

/-! ## What an exact diff is -/

/-- The entry of a key, from its value on either side. -/
def keyChange (key : JsString) : Option JsString → Option JsString → Option SecretKeyDiff
  | none, none => none
  | none, some after => some (oneSided .added (key, after))
  | some before, none => some (oneSided .removed (key, before))
  | some before, some after =>
      if before = after then none
      else some ⟨key, .changed, none, some before.length, some after.length⟩

/-- The list has exactly the changes between two maps, in key order. -/
def KeyChanges (before after : JsString → Option JsString) (keys : List SecretKeyDiff) : Prop :=
  Lists SecretKeyDiff.key (fun d => keyChange d.key (before d.key) (after d.key) = some d) keys

/-- The entry of a secret that differs between two contents. -/
inductive SecretChange (current incoming : JsString → Option (JsString → Option JsString)) :
    SecretDiff → Prop where
  | added {name data keys} : current name = none → incoming name = some data →
      KeyChanges (fun _ => none) data keys → SecretChange current incoming ⟨name, .added, keys⟩
  | removed {name data keys} : current name = some data → incoming name = none →
      KeyChanges data (fun _ => none) keys → SecretChange current incoming ⟨name, .removed, keys⟩
  | changed {name before after keys} : current name = some before → incoming name = some after →
      before ≠ after → KeyChanges before after keys →
      SecretChange current incoming ⟨name, .changed, keys⟩

/-- The numbers of listed entries. -/
def summaryOf (secrets : List SecretDiff) : SecretsDiffSummary where
  secretsAdded := secrets.countP (·.status = .added)
  secretsRemoved := secrets.countP (·.status = .removed)
  secretsChanged := secrets.countP (·.status = .changed)
  keysAdded := (secrets.flatMap SecretDiff.keys).countP (·.status = .added)
  keysRemoved := (secrets.flatMap SecretDiff.keys).countP (·.status = .removed)
  keysChanged := (secrets.flatMap SecretDiff.keys).countP (·.status = .changed)

/-- The diff lists exactly the changes, counts what it lists, and is empty exactly when there is
nothing to change, which is when the hashes agree. -/
structure DiffExact (P : Platform) (current incoming : List SecretContent) (diff : SecretsDiffResult) :
    Prop where
  secrets : Lists SecretDiff.name (SecretChange (contentMap current) (contentMap incoming)) diff.secrets
  summary : diff.summary = summaryOf diff.secrets
  empty_iff : diff.secrets = [] ↔ contentMap current = contentMap incoming
  empty_iff_hash : diff.secrets = [] ↔ computeSecretsHash P current = computeSecretsHash P incoming

/-- Every inherited name that is a key on one side of a common secret is one on the other. -/
def SameInherited (current incoming : List SecretContent) : Prop :=
  ∀ s ∈ current, ∀ t ∈ incoming, s.name = t.name →
    ∀ k, Inherited k → (k ∈ s.data.keys ↔ k ∈ t.data.keys)

/-! ## The loops as lists of entries -/

/-- A loop that pushes and counts what `f` gives lists what `f` gives. -/
theorem foldl_push {A D S : Type} {turn : List D × S → A → List D × S} {f : A → Option D}
    {count : S → D → S}
    (hturn : ∀ acc a, turn acc a = (f a).elim acc fun d => (acc.1 ++ [d], count acc.2 d))
    (l : List A) (acc : List D × S) :
    l.foldl turn acc = (acc.1 ++ l.filterMap f, (l.filterMap f).foldl count acc.2) := by
  induction l generalizing acc with
  | nil => simp
  | cons a l ih =>
      rw [List.foldl_cons, ih, hturn, List.filterMap_cons]
      cases f a <;> simp

theorem foldl_pushKey (f : JsString × JsString → Option SecretKeyDiff) (l : List (JsString × JsString))
    (acc : List SecretKeyDiff × SecretsDiffSummary) :
    l.foldl (fun acc p => pushKey acc (f p)) acc =
      (acc.1 ++ l.filterMap f, (l.filterMap f).foldl SecretsDiffSummary.countKey acc.2) := by
  refine foldl_push (fun acc p => ?_) l acc
  cases f p <;> rfl

theorem foldl_countKey (keys : List SecretKeyDiff) (s : SecretsDiffSummary) :
    keys.foldl SecretsDiffSummary.countKey s =
      { s with
        keysAdded := s.keysAdded + keys.countP (·.status = .added)
        keysRemoved := s.keysRemoved + keys.countP (·.status = .removed)
        keysChanged := s.keysChanged + keys.countP (·.status = .changed) } := by
  induction keys generalizing s with
  | nil => rfl
  | cons d keys ih =>
      rw [List.foldl_cons, ih]
      cases hd : d.status <;>
        simp only [SecretsDiffSummary.countKey, hd, List.countP_cons, SecretsDiffSummary.mk.injEq] <;>
        simp <;> omega

theorem foldl_countKey_perm {keys keys' : List SecretKeyDiff} (h : keys.Perm keys')
    (s : SecretsDiffSummary) :
    keys.foldl SecretsDiffSummary.countKey s = keys'.foldl SecretsDiffSummary.countKey s := by
  simp only [foldl_countKey, h.countP_eq]

theorem foldl_countKey_countSecret (keys : List SecretKeyDiff) (s : SecretsDiffSummary)
    (status : SecretDiffStatus) :
    keys.foldl SecretsDiffSummary.countKey (s.countSecret status) =
      (keys.foldl SecretsDiffSummary.countKey s).countSecret status := by
  simp only [foldl_countKey]
  cases status <;> rfl

/-! ## The keys of one secret -/

/-- The entries that `diffSecretKeys` sorts. -/
def keyEntries (before after : SecretData) : List SecretKeyDiff :=
  after.sortedEntries.filterMap (afterEntry before) ++ before.sortedEntries.filterMap (beforeEntry after)

theorem diffSecretKeys_eq (before after : SecretData) (summary : SecretsDiffSummary) :
    diffSecretKeys before after summary =
      (sortBy SecretKeyDiff.key (keyEntries before after),
        (keyEntries before after).foldl SecretsDiffSummary.countKey summary) := by
  simp only [diffSecretKeys, foldl_pushKey, keyEntries, List.nil_append, List.foldl_append]

theorem wholeSecretKeys_eq (status : SecretDiffStatus) (data : SecretData)
    (summary : SecretsDiffSummary) :
    wholeSecretKeys status data summary =
      (data.sortedEntries.map (oneSided status),
        (data.sortedEntries.map (oneSided status)).foldl SecretsDiffSummary.countKey summary) := by
  rw [wholeSecretKeys, foldl_pushKey, ← List.filterMap_eq_map]
  rfl

/-- The entry of a key as `diffSecretKeys` reports it. -/
def reportedKey (before after : SecretData) (key : JsString) : Option SecretKeyDiff :=
  match after.get? key, before.get? key with
  | some value, _ => afterEntry before (key, value)
  | none, some value => beforeEntry after (key, value)
  | none, none => none

theorem afterEntry_key {before : SecretData} {p : JsString × JsString} {d : SecretKeyDiff}
    (h : afterEntry before p = some d) : d.key = p.1 := by
  unfold afterEntry at h
  split_ifs at h <;> · cases h; rfl

theorem beforeEntry_key {after : SecretData} {p : JsString × JsString} {d : SecretKeyDiff}
    (h : beforeEntry after p = some d) : d.key = p.1 ∧ p.1 ∉ after.keys := by
  unfold beforeEntry at h
  split_ifs at h with hin
  cases h
  refine ⟨rfl, fun hmem => ?_⟩
  rw [isIn, hasOwn_iff.mpr hmem] at hin
  exact absurd hin (by simp)

theorem mem_keyEntries {before after : SecretData} {d : SecretKeyDiff} :
    d ∈ keyEntries before after ↔ reportedKey before after d.key = some d := by
  rw [keyEntries, List.mem_append, List.mem_filterMap, List.mem_filterMap]
  constructor
  · rintro (⟨⟨k, v⟩, hp, hd⟩ | ⟨⟨k, v⟩, hp, hd⟩)
    · have hk : d.key = k := afterEntry_key hd
      simp only [reportedKey, hk, mem_sortedEntries.mp hp, hd]
    · obtain ⟨hk, hnot⟩ := beforeEntry_key hd
      have hk : d.key = k := hk
      simp only [reportedKey, hk, get?_eq_none_iff.mpr hnot, mem_sortedEntries.mp hp, hd]
  · intro h
    unfold reportedKey at h
    split at h
    · rename_i value hafter
      exact Or.inl ⟨(d.key, value), mem_sortedEntries.mpr hafter, h⟩
    · rename_i value _ hbefore
      exact Or.inr ⟨(d.key, value), mem_sortedEntries.mpr hbefore, h⟩
    · cases h

theorem distinct_keyEntries (before after : SecretData) :
    Distinct SecretKeyDiff.key (keyEntries before after) := by
  refine distinct_append.mpr ⟨?_, ?_, fun a ha b hb hab => ?_⟩
  · exact after.distinct_sortedEntries.filterMap fun p d hd => afterEntry_key hd
  · exact before.distinct_sortedEntries.filterMap fun p d hd => (beforeEntry_key hd).1
  · obtain ⟨⟨k, v⟩, hp, ha⟩ := List.mem_filterMap.mp ha
    obtain ⟨⟨k', v'⟩, -, hb⟩ := List.mem_filterMap.mp hb
    obtain ⟨hbk, hnot⟩ := beforeEntry_key hb
    have hkk : k = k' := (afterEntry_key ha).symm.trans (hab.trans hbk)
    refine hnot (get?_eq_none_iff.not.mp ?_ |> not_not.mp)
    rw [← hkk, mem_sortedEntries.mp hp]
    exact Option.some_ne_none v

theorem lists_diffSecretKeys (before after : SecretData) (summary : SecretsDiffSummary) :
    Lists SecretKeyDiff.key (fun d => reportedKey before after d.key = some d)
      (diffSecretKeys before after summary).1 := by
  rw [diffSecretKeys_eq]
  exact (distinct_keyEntries before after).lists_sortBy fun d => mem_keyEntries

theorem reportedKey_key {before after : SecretData} {key : JsString} {d : SecretKeyDiff}
    (h : reportedKey before after key = some d) : d.key = key := by
  unfold reportedKey at h
  split at h
  · exact afterEntry_key h
  · exact (beforeEntry_key h).1
  · cases h

theorem keyChange_key {key : JsString} {before after : Option JsString} {d : SecretKeyDiff}
    (h : keyChange key before after = some d) : d.key = key := by
  unfold keyChange at h
  split at h
  · cases h
  · cases h
    rfl
  · cases h
    rfl
  · split_ifs at h
    cases h
    rfl

/-- What is reported of a key is right, unless the key is inherited and own on one side only. -/
theorem reportedKey_eq_iff (before after : SecretData) (key : JsString) :
    reportedKey before after key = keyChange key (before.get? key) (after.get? key) ↔
      (Inherited key → (key ∈ before.keys ↔ key ∈ after.keys)) := by
  rw [← hasOwn_iff, ← hasOwn_iff]
  by_cases hinh : Inherited key <;> cases hb : before.get? key <;> cases ha : after.get? key <;>
    simp [reportedKey, keyChange, afterEntry, beforeEntry, isIn, hasOwn, access, ha, hb, hinh,
      oneSided, Property.length]

/-- `diffSecretKeys` lists exactly the changes when it is right about every key. -/
theorem keyChanges_diffSecretKeys_iff (before after : SecretData) (summary : SecretsDiffSummary) :
    KeyChanges before.get? after.get? (diffSecretKeys before after summary).1 ↔
      ∀ key, Inherited key → (key ∈ before.keys ↔ key ∈ after.keys) := by
  constructor
  · intro h key
    rw [← reportedKey_eq_iff]
    apply Option.ext
    intro d
    have hd := (lists_diffSecretKeys before after summary).iff h d
    constructor
    · intro hrep
      have hk : d.key = key := reportedKey_key hrep
      rw [← hk] at hrep ⊢
      exact hd.mp hrep
    · intro hch
      have hk : d.key = key := keyChange_key hch
      rw [← hk] at hch ⊢
      exact hd.mpr hch
  · intro h
    refine (lists_diffSecretKeys before after summary).congr fun d => ?_
    rw [(reportedKey_eq_iff before after d.key).mpr (h d.key)]

/-- The changes between two objects can be listed. -/
theorem exists_keyChanges (before after : SecretData) :
    ∃ keys, KeyChanges before.get? after.get? keys := by
  let keys := (before.keys ++ after.keys).dedup
  have hkeys : Distinct id keys := by
    rw [Distinct, List.map_id]
    exact List.nodup_dedup _
  have hdistinct : Distinct SecretKeyDiff.key
      (keys.filterMap fun k => keyChange k (before.get? k) (after.get? k)) :=
    hkeys.filterMap fun k d hd => keyChange_key hd
  refine ⟨_, hdistinct.lists_sortBy fun d => ?_⟩
  rw [List.mem_filterMap]
  constructor
  · rintro ⟨k, -, hd⟩
    rw [keyChange_key hd]
    exact hd
  · intro hd
    refine ⟨d.key, ?_, hd⟩
    rw [List.mem_dedup, List.mem_append]
    by_contra hnot
    rw [not_or, ← get?_eq_none_iff, ← get?_eq_none_iff] at hnot
    rw [hnot.1, hnot.2] at hd
    cases hd

theorem keyChange_self (key : JsString) (value : Option JsString) : keyChange key value value = none := by
  cases value with
  | none => rfl
  | some v => exact if_pos rfl

theorem keyChange_eq_none_iff (key : JsString) {before after : Option JsString} :
    keyChange key before after = none ↔ before = after := by
  constructor
  · intro h
    unfold keyChange at h
    split at h
    · rfl
    · cases h
    · cases h
    · split_ifs at h with heq
      rw [heq]
  · rintro rfl
    exact keyChange_self key before

/-- Nothing is listed exactly when the maps are the same. -/
theorem KeyChanges.eq_nil_iff {before after : JsString → Option JsString} {keys : List SecretKeyDiff}
    (h : KeyChanges before after keys) : keys = [] ↔ before = after := by
  rw [Lists.eq_nil_iff h]
  constructor
  · intro hnone
    funext k
    rw [← keyChange_eq_none_iff k, Option.eq_none_iff_forall_ne_some]
    intro d hd
    exact hnone d (by rw [keyChange_key hd]; exact hd)
  · rintro rfl d hd
    rw [keyChange_self] at hd
    cases hd

theorem lists_wholeSecretKeys (status : SecretDiffStatus) (data : SecretData)
    (summary : SecretsDiffSummary) :
    Lists SecretKeyDiff.key
      (fun d => ((data.get? d.key).map fun v => oneSided status (d.key, v)) = some d)
      (wholeSecretKeys status data summary).1 := by
  rw [wholeSecretKeys_eq]
  refine ⟨List.pairwise_map.mpr data.sortedEntries_pairwise, fun d => ?_⟩
  change _ ↔ (data.get? d.key).map _ = some d
  rw [List.mem_map, Option.map_eq_some_iff]
  constructor
  · rintro ⟨⟨k, v⟩, hp, rfl⟩
    exact ⟨v, mem_sortedEntries.mp hp, rfl⟩
  · rintro ⟨v, hv, hd⟩
    exact ⟨(d.key, v), mem_sortedEntries.mpr hv, hd⟩

theorem keyChanges_added (data : SecretData) (summary : SecretsDiffSummary) :
    KeyChanges (fun _ => none) data.get? (wholeSecretKeys .added data summary).1 := by
  refine (lists_wholeSecretKeys .added data summary).congr fun d => ?_
  cases data.get? d.key <;> rfl

theorem keyChanges_removed (data : SecretData) (summary : SecretsDiffSummary) :
    KeyChanges data.get? (fun _ => none) (wholeSecretKeys .removed data summary).1 := by
  refine (lists_wholeSecretKeys .removed data summary).congr fun d => ?_
  cases data.get? d.key <;> rfl

/-! ## The secrets -/

theorem byName_eq_find? {secrets : List SecretContent} (h : UniqueNames secrets) (name : JsString) :
    byName secrets name = secrets.find? fun s => s.name = name := by
  have hrev : UniqueNames secrets.reverse := h.perm (List.reverse_perm secrets).symm
  cases hf : secrets.find? (fun s => s.name = name) with
  | none =>
      rw [byName, List.find?_eq_none]
      intro s hs
      exact List.find?_eq_none.mp hf s (List.mem_reverse.mp hs)
  | some s =>
      have hs : s ∈ secrets.reverse := List.mem_reverse.mpr (List.mem_of_find?_eq_some hf)
      cases hb : byName secrets name with
      | none =>
          have := List.find?_eq_none.mp hb s hs
          exact absurd (List.find?_some hf) this
      | some t =>
          have ht : t.name = name := by simpa using List.find?_some hb
          have hn : s.name = name := by simpa using List.find?_some hf
          rw [hrev.inj (List.mem_of_find?_eq_some hb) hs (ht.trans hn.symm)]

theorem byName_eq_some_iff {secrets : List SecretContent} (h : UniqueNames secrets) {name : JsString}
    {s : SecretContent} : byName secrets name = some s ↔ s ∈ secrets ∧ s.name = name := by
  rw [byName_eq_find? h]
  constructor
  · intro hs
    exact ⟨List.mem_of_find?_eq_some hs, by simpa using List.find?_some hs⟩
  · rintro ⟨hs, rfl⟩
    cases hf : secrets.find? (fun t => t.name = s.name) with
    | none =>
        have := List.find?_eq_none.mp hf s hs
        simp at this
    | some t =>
        have ht : t.name = s.name := by simpa using List.find?_some hf
        rw [h.inj (List.mem_of_find?_eq_some hf) hs ht]

theorem contentMap_eq_map_byName {secrets : List SecretContent} (h : UniqueNames secrets)
    (name : JsString) : contentMap secrets name = (byName secrets name).map fun s => s.data.get? := by
  rw [contentMap, byName_eq_find? h]

/-- The entry that a turn of the loop over `incoming` pushes. -/
def incomingDiff (current : List SecretContent) (secret : SecretContent) : Option SecretDiff :=
  match byName current secret.name with
  | none => some ⟨secret.name, .added, (wholeSecretKeys .added secret.data .zero).1⟩
  | some before =>
      let keys := (diffSecretKeys before.data secret.data .zero).1
      if 0 < keys.length then some ⟨secret.name, .changed, keys⟩ else none

/-- The entry that a turn of the loop over `current` pushes. -/
def currentDiff (incoming : List SecretContent) (secret : SecretContent) : Option SecretDiff :=
  if (byName incoming secret.name).isSome then none
  else some ⟨secret.name, .removed, (wholeSecretKeys .removed secret.data .zero).1⟩

/-- The summary after an entry and its keys. -/
def countDiff (summary : SecretsDiffSummary) (d : SecretDiff) : SecretsDiffSummary :=
  (d.keys.foldl SecretsDiffSummary.countKey summary).countSecret d.status

theorem diffIncoming_eq (current : List SecretContent) (acc : List SecretDiff × SecretsDiffSummary)
    (secret : SecretContent) :
    diffIncoming current acc secret =
      (incomingDiff current secret).elim acc fun d => (acc.1 ++ [d], countDiff acc.2 d) := by
  unfold diffIncoming incomingDiff
  split
  · simp only [wholeSecretKeys_eq, Option.elim_some, countDiff, foldl_countKey_countSecret]
  · rename_i before _
    have hcount := foldl_countKey_perm
      (sortBy_perm SecretKeyDiff.key (keyEntries before.data secret.data)) acc.2
    simp only [diffSecretKeys_eq]
    split_ifs with h
    · simp only [Option.elim_some, countDiff, hcount]
    · have hnil : keyEntries before.data secret.data = [] :=
        sortBy_eq_nil_iff.mp (List.length_eq_zero_iff.mp (Nat.eq_zero_of_not_pos h))
      simp only [hnil, List.foldl_nil, Option.elim_none]

theorem diffCurrent_eq (incoming : List SecretContent) (acc : List SecretDiff × SecretsDiffSummary)
    (secret : SecretContent) :
    diffCurrent incoming acc secret =
      (currentDiff incoming secret).elim acc fun d => (acc.1 ++ [d], countDiff acc.2 d) := by
  unfold diffCurrent currentDiff
  split_ifs
  · rfl
  · simp only [wholeSecretKeys_eq, Option.elim_some, countDiff, foldl_countKey_countSecret]

/-- The entries that `computeSecretsDiff` sorts. -/
def secretEntries (current incoming : List SecretContent) : List SecretDiff :=
  incoming.filterMap (incomingDiff current) ++ current.filterMap (currentDiff incoming)

theorem computeSecretsDiff_eq (current incoming : List SecretContent) :
    computeSecretsDiff current incoming =
      ⟨(secretEntries current incoming).foldl countDiff .zero,
        sortBy SecretDiff.name (secretEntries current incoming)⟩ := by
  simp only [computeSecretsDiff, foldl_push (diffIncoming_eq current),
    foldl_push (diffCurrent_eq incoming), secretEntries, List.nil_append, List.foldl_append]

/-- The summary of entries that are listed one after the other. -/
theorem foldl_countDiff (ds : List SecretDiff) (s : SecretsDiffSummary) :
    ds.foldl countDiff s =
      { secretsAdded := s.secretsAdded + (summaryOf ds).secretsAdded
        secretsRemoved := s.secretsRemoved + (summaryOf ds).secretsRemoved
        secretsChanged := s.secretsChanged + (summaryOf ds).secretsChanged
        keysAdded := s.keysAdded + (summaryOf ds).keysAdded
        keysRemoved := s.keysRemoved + (summaryOf ds).keysRemoved
        keysChanged := s.keysChanged + (summaryOf ds).keysChanged } := by
  induction ds generalizing s with
  | nil => rfl
  | cons d ds ih =>
      rw [List.foldl_cons, ih, countDiff, foldl_countKey]
      cases hd : d.status <;>
        simp only [SecretsDiffSummary.countSecret, summaryOf, List.countP_cons, hd,
          List.flatMap_cons, List.countP_append, SecretsDiffSummary.mk.injEq] <;>
        simp <;> omega

theorem summaryOf_perm {ds ds' : List SecretDiff} (h : ds.Perm ds') : summaryOf ds = summaryOf ds' := by
  have hkeys := h.flatMap_right SecretDiff.keys
  simp only [summaryOf, h.countP_eq, hkeys.countP_eq]

theorem computeSecretsDiff_summary (current incoming : List SecretContent) :
    (computeSecretsDiff current incoming).summary =
      summaryOf (computeSecretsDiff current incoming).secrets := by
  rw [computeSecretsDiff_eq, summaryOf_perm (sortBy_perm _ _), foldl_countDiff]
  simp [SecretsDiffSummary.zero]

theorem incomingDiff_name {current : List SecretContent} {secret : SecretContent} {d : SecretDiff}
    (h : incomingDiff current secret = some d) : d.name = secret.name := by
  unfold incomingDiff at h
  split at h
  · cases h
    rfl
  · dsimp only at h
    split_ifs at h
    cases h
    rfl

theorem currentDiff_name {incoming : List SecretContent} {secret : SecretContent} {d : SecretDiff}
    (h : currentDiff incoming secret = some d) :
    d.name = secret.name ∧ byName incoming secret.name = none := by
  unfold currentDiff at h
  split_ifs at h with hin
  cases h
  exact ⟨rfl, Option.not_isSome_iff_eq_none.mp hin⟩

section Exact
variable {current incoming : List SecretContent} (hc : UniqueNames current) (hi : UniqueNames incoming)
include hc hi

theorem distinct_secretEntries : Distinct SecretDiff.name (secretEntries current incoming) := by
  refine distinct_append.mpr ⟨?_, ?_, fun a ha b hb hab => ?_⟩
  · exact hi.filterMap fun t d hd => incomingDiff_name hd
  · exact hc.filterMap fun s d hd => (currentDiff_name hd).1
  · obtain ⟨t, ht, ha⟩ := List.mem_filterMap.mp ha
    obtain ⟨s, -, hb⟩ := List.mem_filterMap.mp hb
    obtain ⟨hbn, hnone⟩ := currentDiff_name hb
    have hts : t.name = s.name := (incomingDiff_name ha).symm.trans (hab.trans hbn)
    rw [byName_eq_find? hi, List.find?_eq_none] at hnone
    exact hnone t ht (by simpa using hts)

/-- The entries are the changes between the two maps when the keys are reported right. -/
theorem mem_secretEntries_of_sameInherited (h : SameInherited current incoming) (d : SecretDiff) :
    d ∈ secretEntries current incoming ↔ SecretChange (contentMap current) (contentMap incoming) d := by
  rw [secretEntries, List.mem_append, List.mem_filterMap, List.mem_filterMap]
  constructor
  · rintro (⟨t, ht, hd⟩ | ⟨s, hs, hd⟩)
    · have hin : contentMap incoming t.name = some t.data.get? :=
        (contentMap_eq_some_iff hi).mpr ⟨t, ht, rfl, rfl⟩
      unfold incomingDiff at hd
      split at hd
      · rename_i hnone
        cases hd
        refine .added ?_ hin (keyChanges_added t.data .zero)
        rw [contentMap_eq_map_byName hc, hnone, Option.map_none]
      · rename_i before hsome
        dsimp only at hd
        split_ifs at hd with hlen
        cases hd
        obtain ⟨hmem, hname⟩ := (byName_eq_some_iff hc).mp hsome
        have hkeys := (keyChanges_diffSecretKeys_iff before.data t.data .zero).mpr (h before hmem t ht hname)
        refine .changed ?_ hin (fun heq => ?_) hkeys
        · rw [contentMap_eq_map_byName hc, hsome, Option.map_some]
        · rw [hkeys.eq_nil_iff.mpr heq, List.length_nil] at hlen
          exact lt_irrefl 0 hlen
    · obtain ⟨-, hnone⟩ := currentDiff_name hd
      unfold currentDiff at hd
      rw [hnone] at hd
      cases hd
      refine .removed ((contentMap_eq_some_iff hc).mpr ⟨s, hs, rfl, rfl⟩) ?_ (keyChanges_removed s.data .zero)
      rw [contentMap_eq_map_byName hi, hnone, Option.map_none]
  · rintro (⟨hbefore, hafter, hkeys⟩ | ⟨hbefore, hafter, hkeys⟩ | ⟨hbefore, hafter, hne, hkeys⟩)
    · obtain ⟨t, ht, rfl, rfl⟩ := (contentMap_eq_some_iff hi).mp hafter
      refine Or.inl ⟨t, ht, ?_⟩
      rw [contentMap_eq_map_byName hc, Option.map_eq_none_iff] at hbefore
      rw [incomingDiff, hbefore, hkeys.unique (keyChanges_added t.data .zero)]
    · obtain ⟨s, hs, rfl, rfl⟩ := (contentMap_eq_some_iff hc).mp hbefore
      refine Or.inr ⟨s, hs, ?_⟩
      rw [contentMap_eq_map_byName hi, Option.map_eq_none_iff] at hafter
      rw [currentDiff, hafter, hkeys.unique (keyChanges_removed s.data .zero)]
      rfl
    · obtain ⟨t, ht, rfl, rfl⟩ := (contentMap_eq_some_iff hi).mp hafter
      obtain ⟨s, hs, hname, rfl⟩ := (contentMap_eq_some_iff hc).mp hbefore
      refine Or.inl ⟨t, ht, ?_⟩
      have hdiff := (keyChanges_diffSecretKeys_iff s.data t.data .zero).mpr (h s hs t ht hname)
      have hlen : 0 < (diffSecretKeys s.data t.data .zero).1.length :=
        List.length_pos_of_ne_nil fun hnil => hne (hdiff.eq_nil_iff.mp hnil)
      rw [incomingDiff, (byName_eq_some_iff hc).mpr ⟨hs, hname⟩, hkeys.unique hdiff]
      exact if_pos hlen

/-- A diff that lists the changes between the two maps reports the keys of every common secret right. -/
theorem sameInherited_of_lists
    (h : Lists SecretDiff.name (SecretChange (contentMap current) (contentMap incoming))
      (computeSecretsDiff current incoming).secrets) : SameInherited current incoming := by
  intro s hs t ht hname
  by_cases heq : s.data.get? = t.data.get?
  · intro k _
    rw [← hasOwn_iff, ← hasOwn_iff, hasOwn, hasOwn, heq]
  · obtain ⟨keys, hkeys⟩ := exists_keyChanges s.data t.data
    have hchange : SecretChange (contentMap current) (contentMap incoming) ⟨t.name, .changed, keys⟩ :=
      .changed ((contentMap_eq_some_iff hc).mpr ⟨s, hs, hname, rfl⟩)
        ((contentMap_eq_some_iff hi).mpr ⟨t, ht, rfl, rfl⟩) heq hkeys
    have hmem := (h.2 _).mpr hchange
    rw [computeSecretsDiff_eq] at hmem
    rcases List.mem_append.mp (mem_sortBy.mp hmem) with hmem | hmem
    · obtain ⟨t', ht', hd⟩ := List.mem_filterMap.mp hmem
      obtain rfl : t' = t := hi.inj ht' ht (incomingDiff_name hd).symm
      rw [incomingDiff, (byName_eq_some_iff hc).mpr ⟨hs, hname⟩] at hd
      dsimp only at hd
      split_ifs at hd
      cases hd
      exact (keyChanges_diffSecretKeys_iff s.data t'.data .zero).mp hkeys
    · obtain ⟨s', -, hd⟩ := List.mem_filterMap.mp hmem
      unfold currentDiff at hd
      split_ifs at hd
      simp at hd

end Exact

/-- Two contents without a change between them have one map. -/
theorem contentMap_eq_of_forall_not_secretChange {current incoming : List SecretContent}
    (hc : UniqueNames current) (hi : UniqueNames incoming)
    (h : ∀ d, ¬ SecretChange (contentMap current) (contentMap incoming) d) :
    contentMap current = contentMap incoming := by
  funext name
  cases hb : contentMap current name with
  | none =>
      cases ha : contentMap incoming name with
      | none => rfl
      | some after =>
          obtain ⟨t, -, -, rfl⟩ := (contentMap_eq_some_iff hi).mp ha
          exact absurd (.added hb ha (keyChanges_added t.data .zero)) (h _)
  | some before =>
      obtain ⟨s, -, -, rfl⟩ := (contentMap_eq_some_iff hc).mp hb
      cases ha : contentMap incoming name with
      | none => exact absurd (.removed hb ha (keyChanges_removed s.data .zero)) (h _)
      | some after =>
          obtain ⟨t, -, -, rfl⟩ := (contentMap_eq_some_iff hi).mp ha
          by_contra hne
          obtain ⟨keys, hkeys⟩ := exists_keyChanges s.data t.data
          exact h _ (.changed hb ha (fun heq => hne (congrArg some heq)) hkeys)

theorem not_secretChange_self {m : JsString → Option (JsString → Option JsString)} (d : SecretDiff) :
    ¬ SecretChange m m d := by
  rintro (⟨hb, ha, -⟩ | ⟨hb, ha, -⟩ | ⟨hb, ha, hne, -⟩)
  · cases hb.symm.trans ha
  · cases hb.symm.trans ha
  · exact hne (Option.some.inj (hb.symm.trans ha))

/-- **The diff is exact if and only if no inherited name is a key on one side only of a secret that
both sides have.** -/
theorem computeSecretsDiff_exact_iff {P : Platform} (hP : P.HashInjective)
    {current incoming : List SecretContent} (hc : UniqueNames current) (hi : UniqueNames incoming) :
    DiffExact P current incoming (computeSecretsDiff current incoming) ↔
      SameInherited current incoming := by
  constructor
  · intro h
    exact sameInherited_of_lists hc hi h.secrets
  · intro h
    have hlists : Lists SecretDiff.name (SecretChange (contentMap current) (contentMap incoming))
        (computeSecretsDiff current incoming).secrets := by
      rw [computeSecretsDiff_eq]
      exact (distinct_secretEntries hc hi).lists_sortBy (mem_secretEntries_of_sameInherited hc hi h)
    have hempty : (computeSecretsDiff current incoming).secrets = [] ↔
        contentMap current = contentMap incoming := by
      rw [hlists.eq_nil_iff]
      constructor
      · exact contentMap_eq_of_forall_not_secretChange hc hi
      · intro heq d
        rw [heq]
        exact not_secretChange_self d
    exact
      { secrets := hlists
        summary := computeSecretsDiff_summary current incoming
        empty_iff := hempty
        empty_iff_hash := hempty.trans (computeSecretsHash_eq_iff hP hc hi).symm }

/-! ## The diff of two maps -/

theorem isIn_congr {a b : SecretData} (h : a.get? = b.get?) (k : JsString) : isIn k a = isIn k b := by
  rw [isIn, isIn, hasOwn, hasOwn, h]

theorem access_congr {a b : SecretData} (h : a.get? = b.get?) (k : JsString) : a.access k = b.access k := by
  rw [JsObject.access, JsObject.access, h]

theorem diffSecretKeys_congr {a a' b b' : SecretData} (ha : a.get? = a'.get?) (hb : b.get? = b'.get?)
    (summary : SecretsDiffSummary) : diffSecretKeys a b summary = diffSecretKeys a' b' summary := by
  have hafter : afterEntry a = afterEntry a' := by
    funext p
    simp only [afterEntry, isIn_congr ha, access_congr ha]
  have hbefore : beforeEntry b = beforeEntry b' := by
    funext p
    simp only [beforeEntry, isIn_congr hb]
  simp only [diffSecretKeys_eq, keyEntries, hafter, hbefore, sortedEntries_eq_iff.mpr (congrFun ha),
    sortedEntries_eq_iff.mpr (congrFun hb)]

theorem wholeSecretKeys_congr {a a' : SecretData} (ha : a.get? = a'.get?) (status : SecretDiffStatus)
    (summary : SecretsDiffSummary) : wholeSecretKeys status a summary = wholeSecretKeys status a' summary := by
  rw [wholeSecretKeys, wholeSecretKeys, sortedEntries_eq_iff.mpr (congrFun ha)]

/-- The same secret, as a member of another list with the same map. -/
theorem exists_of_contentMap_eq {a a' : List SecretContent} (ha : UniqueNames a) (ha' : UniqueNames a')
    (h : contentMap a = contentMap a') {s : SecretContent} (hs : s ∈ a) :
    ∃ s' ∈ a', s'.name = s.name ∧ s'.data.get? = s.data.get? := by
  have hmap : contentMap a' s.name = some s.data.get? := by
    rw [← h]
    exact (contentMap_eq_some_iff ha).mpr ⟨s, hs, rfl, rfl⟩
  exact (contentMap_eq_some_iff ha').mp hmap

theorem mem_secretEntries_congr {current current' incoming incoming' : List SecretContent}
    (hc : UniqueNames current) (hc' : UniqueNames current') (hi : UniqueNames incoming)
    (hi' : UniqueNames incoming') (hcurrent : contentMap current = contentMap current')
    (hincoming : contentMap incoming = contentMap incoming') {d : SecretDiff}
    (hd : d ∈ secretEntries current incoming) : d ∈ secretEntries current' incoming' := by
  have hbyName : ∀ name, (byName current name).map (fun s => s.data.get?) =
      (byName current' name).map fun s => s.data.get? := by
    intro name
    rw [← contentMap_eq_map_byName hc, ← contentMap_eq_map_byName hc', hcurrent]
  rcases List.mem_append.mp hd with hd | hd
  · obtain ⟨t, ht, hdt⟩ := List.mem_filterMap.mp hd
    obtain ⟨t', ht', hname, hdata⟩ := exists_of_contentMap_eq hi hi' hincoming ht
    refine List.mem_append_left _ (List.mem_filterMap.mpr ⟨t', ht', ?_⟩)
    rw [← hdt, incomingDiff, incomingDiff, hname]
    have hbefore := hbyName t.name
    cases hb : byName current t.name with
    | none =>
        rw [hb, Option.map_none] at hbefore
        rw [Option.map_eq_none_iff.mp hbefore.symm, wholeSecretKeys_congr hdata]
    | some s =>
        rw [hb, Option.map_some] at hbefore
        obtain ⟨s', hs', hsdata⟩ := Option.map_eq_some_iff.mp hbefore.symm
        rw [hs']
        simp only [diffSecretKeys_congr hsdata hdata]
  · obtain ⟨s, hs, hds⟩ := List.mem_filterMap.mp hd
    obtain ⟨s', hs', hname, hdata⟩ := exists_of_contentMap_eq hc hc' hcurrent hs
    refine List.mem_append_right _ (List.mem_filterMap.mpr ⟨s', hs', ?_⟩)
    have hnone : byName incoming s.name = none := (currentDiff_name hds).2
    have hnone' : byName incoming' s.name = none := by
      have hmap := contentMap_eq_map_byName hi s.name
      rw [hincoming, contentMap_eq_map_byName hi', hnone, Option.map_none] at hmap
      exact Option.map_eq_none_iff.mp hmap
    rw [← hds, currentDiff, currentDiff, hname, hnone, hnone', wholeSecretKeys_congr hdata]

/-- The diff depends on the two name-to-data maps only. -/
theorem computeSecretsDiff_congr {current current' incoming incoming' : List SecretContent}
    (hc : UniqueNames current) (hc' : UniqueNames current') (hi : UniqueNames incoming)
    (hi' : UniqueNames incoming') (hcurrent : contentMap current = contentMap current')
    (hincoming : contentMap incoming = contentMap incoming') :
    computeSecretsDiff current incoming = computeSecretsDiff current' incoming' := by
  have hperm : (secretEntries current incoming).Perm (secretEntries current' incoming') := by
    refine (List.perm_ext_iff_of_nodup (List.Nodup.of_map _ (distinct_secretEntries hc hi))
      (List.Nodup.of_map _ (distinct_secretEntries hc' hi'))).mpr fun d => ⟨?_, ?_⟩
    · exact mem_secretEntries_congr hc hc' hi hi' hcurrent hincoming
    · exact mem_secretEntries_congr hc' hc hi' hi hcurrent.symm hincoming.symm
  rw [computeSecretsDiff_eq, computeSecretsDiff_eq, foldl_countDiff, foldl_countDiff, summaryOf_perm hperm,
    (distinct_secretEntries hc hi).sortBy_eq_of_perm hperm]

section Example

/-- A secret with a key that every object inherits. -/
def withToString : SecretContent := ⟨js "api", ⟨[(js "toString", js "x")], by decide⟩⟩

def withoutToString : SecretContent := ⟨js "api", .empty⟩

noncomputable def examplePlatform : Platform :=
  .ofDigests
    [(js "[\x7b\"name\":\"api\",\"data\":\x7b\"toString\":\"x\"\x7d\x7d]",
        js "14cd76c53e2d4bf351ca007734bcdbe1c6d6968f0fa62aef55b6e28abbd574ec"),
      (js "[\x7b\"name\":\"api\",\"data\":\x7b\x7d\x7d]",
        js "57634f93710fe848c4ee5563746f3847d8d50fe13480f47023513f6f48f3de88")]

theorem computeSecretsDiff_exact_iff_toString :
    DiffExact examplePlatform [withToString] [withoutToString]
        (computeSecretsDiff [withToString] [withoutToString]) ↔
      SameInherited [withToString] [withoutToString] :=
  computeSecretsDiff_exact_iff (Platform.hashInjective_ofDigests (by decide) (by decide)) (by decide)
    (by decide)

/-- Removing the key `toString` is shown as no change at all. -/
theorem computeSecretsDiff_misses_toString :
    UniqueNames [withToString] ∧ UniqueNames [withoutToString] ∧ withToString.data.Keyed ∧
      (computeSecretsDiff [withToString] [withoutToString]).secrets = [] ∧
      computeSecretsHash examplePlatform [withToString] ≠
        computeSecretsHash examplePlatform [withoutToString] ∧
      ¬ DiffExact examplePlatform [withToString] [withoutToString]
        (computeSecretsDiff [withToString] [withoutToString]) := by
  have hempty : (computeSecretsDiff [withToString] [withoutToString]).secrets = [] := by decide
  have hhash : computeSecretsHash examplePlatform [withToString] ≠
      computeSecretsHash examplePlatform [withoutToString] := by decide
  exact ⟨by decide, by decide, by decide, hempty, hhash, fun h => hhash (h.empty_iff_hash.mp hempty)⟩

end Example

end SecretsManager
