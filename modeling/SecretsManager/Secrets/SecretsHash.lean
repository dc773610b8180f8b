import SecretsManager.Model.Project

/-!
# The content hash

Two content hashes decide every synchronization question: the hash of the secrets now and the hash of
the secrets at the last synchronization. Each is the SHA-256 of a canonical text. The text determines
the name-to-data map of the secrets and is determined by it (`computeSecretsHash_eq_iff`), which needs
the quoting, the two sorts and the property order of JavaScript objects to work together.
-/

namespace SecretsManager

open Js SortedBy Delimited

/-! ## The name-to-data map -/

/-- The map from names to data, and in it from keys to values. -/
def contentMap (secrets : List SecretContent) (name : JsString) :
    Option (JsString → Option JsString) :=
  (secrets.find? fun s => s.name = name).map fun s => s.data.get?

/-- The names are distinct. -/
abbrev UniqueNames (secrets : List SecretContent) : Prop := Distinct SecretContent.name secrets

theorem contentMap_eq_some_iff {secrets : List SecretContent} (h : UniqueNames secrets)
    {name : JsString} {m : JsString → Option JsString} :
    contentMap secrets name = some m ↔ ∃ s ∈ secrets, s.name = name ∧ s.data.get? = m := by
  constructor
  · intro hm
    obtain ⟨s, hs, rfl⟩ := Option.map_eq_some_iff.mp hm
    exact ⟨s, List.mem_of_find?_eq_some hs, by simpa using List.find?_some hs, rfl⟩
  · rintro ⟨s, hs, rfl, rfl⟩
    cases hf : secrets.find? (fun t => t.name = s.name) with
    | none =>
        have hne := List.find?_eq_none.mp hf s hs
        simp at hne
    | some t =>
        have hname : t.name = s.name := by simpa using List.find?_some hf
        rw [contentMap, hf, h.inj (List.mem_of_find?_eq_some hf) hs hname, Option.map_some]

/-- With distinct names the map is the same for every order of the list. -/
theorem contentMap_eq_of_perm {a b : List SecretContent} (ha : UniqueNames a) (hab : a.Perm b) :
    contentMap a = contentMap b := by
  funext name
  apply Option.ext
  intro m
  rw [contentMap_eq_some_iff ha, contentMap_eq_some_iff (ha.perm hab)]
  simp only [hab.mem_iff]

/-- Lists with distinct names have one map when each has the other's secrets, property for property. -/
theorem contentMap_eq_iff {a b : List SecretContent} (ha : UniqueNames a) (hb : UniqueNames b) :
    contentMap a = contentMap b ↔
      (∀ s ∈ a, ∃ t ∈ b, t.name = s.name ∧ ∀ k, t.data.get? k = s.data.get? k) ∧
        ∀ t ∈ b, ∃ s ∈ a, s.name = t.name ∧ ∀ k, s.data.get? k = t.data.get? k := by
  constructor
  · intro h
    constructor
    · intro s hs
      obtain ⟨t, ht, hn, hd⟩ := (contentMap_eq_some_iff hb).mp
        (h ▸ (contentMap_eq_some_iff ha).mpr ⟨s, hs, rfl, rfl⟩)
      exact ⟨t, ht, hn, congrFun hd⟩
    · intro t ht
      obtain ⟨s, hs, hn, hd⟩ := (contentMap_eq_some_iff ha).mp
        (h ▸ (contentMap_eq_some_iff hb).mpr ⟨t, ht, rfl, rfl⟩)
      exact ⟨s, hs, hn, congrFun hd⟩
  · rintro ⟨hab, hba⟩
    funext name
    apply Option.ext
    intro m
    rw [contentMap_eq_some_iff ha, contentMap_eq_some_iff hb]
    constructor
    · rintro ⟨s, hs, rfl, rfl⟩
      obtain ⟨t, ht, hn, hd⟩ := hab s hs
      exact ⟨t, ht, hn, funext hd⟩
    · rintro ⟨t, ht, rfl, rfl⟩
      obtain ⟨s, hs, hn, hd⟩ := hba t ht
      exact ⟨s, hs, hn, funext hd⟩

/-! ## The canonical text -/

/-- `Object.fromEntries(Object.keys(data).sort().map((key) => [key, data[key]]))` -/
def canonicalData (data : SecretData) : SecretData :=
  JsObject.fromEntries ((sortBy id data.keys).filterMap fun key => (data.get? key).map fun v => (key, v))

/-- The pairs `{ name, data }`, sorted by name. -/
def canonical (secrets : List SecretContent) : List (JsString × SecretData) :=
  sortBy Prod.fst (secrets.map fun s => (s.name, canonicalData s.data))

/-- `JSON.stringify({ name, data })` -/
def secretText (p : JsString × SecretData) : JsString :=
  js "\x7b\"name\":" ++ (quote p.1 ++ js ",\"data\":" ++ stringify p.2) ++ js "\x7d"

/-- `JSON.stringify` of the array of pairs. -/
def secretsText (l : List (JsString × SecretData)) : JsString :=
  js "[" ++ sepBy (js ",") (unit ']') secretText l

theorem secretsText_injective : Function.Injective secretsText := by
  have hsecret : SelfDelimiting secretText :=
    ((selfDelimiting_quote.pair selfDelimiting_stringify _).lead _).trail _
  have hlist : SelfDelimiting (sepBy (js ",") (unit ']') secretText) :=
    hsecret.sepBy (by decide) fun p => ⟨unit '{', _, rfl, by decide⟩
  exact (hlist.lead _).injective

section Platform
variable (P : Platform)

def computeSecretsHash (secrets : List SecretContent) : JsString :=
  P.sha256 (secretsText (canonical secrets))

/-- The hash of earlier versions, which keeps the keys in their stored order. -/
def computeSecretsHashLegacy (secrets : List SecretContent) : JsString :=
  P.sha256 (secretsText (sortBy Prod.fst (secrets.map fun s => (s.name, s.data))))

/-- SHA-256 is injective on the canonical serialisations. -/
def Platform.HashInjective : Prop :=
  ∀ a b : List SecretContent, computeSecretsHash P a = computeSecretsHash P b →
    secretsText (canonical a) = secretsText (canonical b)

end Platform

def computeHasLocalChanges (project : Project) (secretCount : Nat) : Bool :=
  if project.lastSyncSnapshotId = [] then 0 < secretCount
  else if project.lastSyncContentHash = [] then false
  else if project.currentContentHash = [] then true
  else project.lastSyncContentHash ≠ project.currentContentHash

/-! ## The hash is the content -/

theorem canonicalData_eq (data : SecretData) :
    canonicalData data = JsObject.fromEntries data.sortedEntries := by
  have hkeys : sortBy id data.keys = data.sortedEntries.map Prod.fst :=
    (map_sortBy id Prod.fst data.entries).symm
  rw [canonicalData, hkeys, List.filterMap_map]
  congr 1
  have hself : ∀ p ∈ data.sortedEntries,
      ((fun key => (data.get? key).map fun v => (key, v)) ∘ Prod.fst) p = some p := by
    rintro ⟨k, v⟩ hp
    simp [JsObject.mem_sortedEntries.mp hp]
  rw [List.filterMap_congr hself, List.filterMap_some]

theorem canonicalData_eq_iff {a b : SecretData} :
    canonicalData a = canonicalData b ↔ ∀ k, a.get? k = b.get? k := by
  rw [canonicalData_eq, canonicalData_eq]
  constructor
  · intro h k
    apply Option.ext
    intro v
    rw [← JsObject.mem_sortedEntries, ← JsObject.mem_sortedEntries,
      ← JsObject.mem_entries_fromEntries a.distinct_sortedEntries,
      ← JsObject.mem_entries_fromEntries b.distinct_sortedEntries]
    exact Iff.of_eq (congrArg (fun o : SecretData => (k, v) ∈ o.entries) h)
  · intro h
    rw [JsObject.sortedEntries_eq_iff.mpr h]

theorem distinct_canonicalPairs {secrets : List SecretContent} (h : UniqueNames secrets) :
    Distinct Prod.fst (secrets.map fun s => (s.name, canonicalData s.data)) := by
  rw [Distinct, List.map_map]
  exact h

theorem mem_canonical {secrets : List SecretContent} {p : JsString × SecretData} :
    p ∈ canonical secrets ↔ ∃ s ∈ secrets, (s.name, canonicalData s.data) = p := by
  rw [canonical, mem_sortBy, List.mem_map]

theorem canonical_eq_iff {a b : List SecretContent} (ha : UniqueNames a) (hb : UniqueNames b) :
    canonical a = canonical b ↔ contentMap a = contentMap b := by
  have hstep : ∀ {a b : List SecretContent}, (∀ p, p ∈ canonical a → p ∈ canonical b) ↔
      ∀ s ∈ a, ∃ t ∈ b, t.name = s.name ∧ ∀ k, t.data.get? k = s.data.get? k := by
    intro a b
    simp only [mem_canonical, forall_exists_index, and_imp, forall_apply_eq_imp_iff₂, Prod.mk.injEq,
      canonicalData_eq_iff]
  rw [contentMap_eq_iff ha hb, ← hstep, ← hstep]
  constructor
  · intro h
    rw [h]
    exact ⟨fun _ hp => hp, fun _ hp => hp⟩
  · rintro ⟨hab, hba⟩
    exact eq_of_pairwise_of_mem_iff (distinct_canonicalPairs ha).pairwise_sortBy
      (distinct_canonicalPairs hb).pairwise_sortBy fun p => ⟨hab p, hba p⟩

/-- **Two lists of secrets have one hash exactly when they have one name-to-data map.** -/
theorem computeSecretsHash_eq_iff {P : Platform} (hP : P.HashInjective) {a b : List SecretContent}
    (ha : UniqueNames a) (hb : UniqueNames b) :
    computeSecretsHash P a = computeSecretsHash P b ↔ contentMap a = contentMap b := by
  rw [← canonical_eq_iff ha hb]
  constructor
  · intro h
    exact secretsText_injective (hP a b h)
  · intro h
    rw [computeSecretsHash, computeSecretsHash, h]

theorem computeSecretsHash_eq_of_contentMap_eq (P : Platform) {a b : List SecretContent}
    (ha : UniqueNames a) (hb : UniqueNames b) (h : contentMap a = contentMap b) :
    computeSecretsHash P a = computeSecretsHash P b := by
  rw [computeSecretsHash, computeSecretsHash, (canonical_eq_iff ha hb).mpr h]

/-- The secret with its keys in another order. -/
def Reordered (s t : SecretContent) : Prop := t.name = s.name ∧ t.data.entries.Perm s.data.entries

theorem names_of_reordered {a b : List SecretContent} (h : List.Forall₂ Reordered a b) :
    b.map SecretContent.name = a.map SecretContent.name := by
  induction h with
  | nil => rfl
  | cons hst _ ih => rw [List.map_cons, List.map_cons, hst.1, ih]

theorem contentMap_of_reordered {a b : List SecretContent} (h : List.Forall₂ Reordered a b) :
    contentMap b = contentMap a := by
  funext name
  induction h with
  | nil => rfl
  | @cons s t a b hst _ ih =>
      have hdata : t.data.get? = s.data.get? := funext (JsObject.perm_entries_iff.mp hst.2)
      unfold contentMap at ih ⊢
      rw [List.find?_cons, List.find?_cons, hst.1]
      cases decide (s.name = name) with
      | true => rw [Option.map_some, Option.map_some, hdata]
      | false => exact ih

/-- **The hash is canonical.** It is the same for every order of the secrets and of their keys, and when SHA-256 is
injective it is that of no other name-to-data map. -/
theorem computeSecretsHash_canonical (P : Platform) {a : List SecretContent} (ha : UniqueNames a) :
    (∀ a' b, a.Perm a' → List.Forall₂ Reordered a' b → computeSecretsHash P a = computeSecretsHash P b) ∧
      (P.HashInjective → ∀ b, UniqueNames b →
        (computeSecretsHash P a = computeSecretsHash P b ↔ contentMap a = contentMap b)) := by
  refine ⟨fun a' b hperm hreordered => ?_, fun hP b hb => computeSecretsHash_eq_iff hP ha hb⟩
  have ha' := ha.perm hperm
  have hb : UniqueNames b := by
    rw [UniqueNames, Distinct, names_of_reordered hreordered]
    exact ha'
  refine computeSecretsHash_eq_of_contentMap_eq P ha hb ?_
  rw [contentMap_of_reordered hreordered, contentMap_eq_of_perm ha hperm]

/-! ## A platform for concrete runs -/

/-- The digest of a text in the table; any other text gets a string that is no hexadecimal digest. -/
def tableDigest (digests : List (JsString × JsString)) (text : JsString) : JsString :=
  ((digests.find? fun d => d.1 = text).map Prod.snd).getD (unit 'x' :: text)

open Classical in
/-- A platform with the given digests. It parses what `stringifyIndented` writes and lowers the case of
ASCII letters. -/
noncomputable def Platform.ofDigests (digests : List (JsString × JsString)) : Platform where
  sha256 := tableDigest digests
  jsonParse text :=
    if h : ∃ data, stringifyIndented data = text then .ok h.choose.toJson
    else .error (js "Unexpected token")
  toLowerCase := List.map fun c => if 0x41 ≤ c.val ∧ c.val ≤ 0x5a then c + 0x20 else c
  dateParse _ := none

theorem tableDigest_injective {digests : List (JsString × JsString)}
    (hdistinct : (digests.map Prod.snd).Nodup)
    (hhex : ∀ d ∈ digests, d.2.head? ≠ some (unit 'x')) : Function.Injective (tableDigest digests) := by
  have hcases : ∀ text, (text, tableDigest digests text) ∈ digests ∨
      tableDigest digests text = unit 'x' :: text := by
    intro text
    cases hf : digests.find? (fun d => d.1 = text) with
    | none => exact Or.inr (by rw [tableDigest, hf]; rfl)
    | some d =>
        have hd : d.1 = text := by simpa using List.find?_some hf
        refine Or.inl ?_
        rw [tableDigest, hf, ← hd]
        exact List.mem_of_find?_eq_some hf
  intro a b hab
  rcases hcases a with ha | ha <;> rcases hcases b with hb | hb
  · exact congrArg Prod.fst (List.inj_on_of_nodup_map hdistinct ha hb hab)
  · exact absurd (by rw [hab, hb]; rfl) (hhex _ ha)
  · exact absurd (by rw [← hab, ha]; rfl) (hhex _ hb)
  · rw [ha, hb] at hab
    exact (List.cons.inj hab).2

theorem tableDigest_ne_nil {digests : List (JsString × JsString)} (h : ∀ d ∈ digests, d.2 ≠ [])
    (text : JsString) : tableDigest digests text ≠ [] := by
  rw [tableDigest]
  cases hf : digests.find? (fun d => d.1 = text) with
  | none => exact List.cons_ne_nil _ _
  | some d => exact h d (List.mem_of_find?_eq_some hf)

theorem Platform.hashInjective_ofDigests {digests : List (JsString × JsString)}
    (hdistinct : (digests.map Prod.snd).Nodup)
    (hhex : ∀ d ∈ digests, d.2.head? ≠ some (unit 'x')) : (Platform.ofDigests digests).HashInjective :=
  fun _ _ h => tableDigest_injective hdistinct hhex h

/-- The platform with the parses of some texts. -/
def Platform.withDocuments (P : Platform) (documents : List (JsString × Json)) : Platform :=
  { P with
    jsonParse := fun text =>
      match documents.find? fun d => d.1 = text with
      | some d => .ok d.2
      | none => P.jsonParse text }

theorem Platform.parsesBack_of_toJson {P : Platform} {data : SecretData}
    (h : P.jsonParse (stringifyIndented data) = .ok data.toJson) : P.ParsesBack data := by
  have hdistinct : Distinct Prod.fst (data.entries.map fun p => (p.1, JsValue.str p.2)) := by
    rw [Distinct, List.map_map]
    exact data.distinct
  refine ⟨⟨_, hdistinct⟩, h, fun k => ?_⟩
  simp only [JsObject.get?, List.find?_map, Option.map_map]
  rfl

theorem Platform.parsesBack_ofDigests (digests : List (JsString × JsString)) (data : SecretData) :
    (Platform.ofDigests digests).ParsesBack data := by
  have hex : ∃ data', stringifyIndented data' = stringifyIndented data := ⟨data, rfl⟩
  have hchoose : hex.choose = data := stringifyIndented_injective hex.choose_spec
  refine parsesBack_of_toJson ?_
  simp only [Platform.ofDigests, dif_pos hex, hchoose]

/-- The documents are files of secrets that parse back, and texts of another shape. -/
theorem Platform.parsesBack_withDocuments {P : Platform} {documents : List (JsString × Json)}
    (hP : ∀ data, P.ParsesBack data)
    (hdocuments : ∀ d ∈ documents, (∃ data : SecretData, d = (stringifyIndented data, data.toJson)) ∨
      d.1.take 2 ∉ [js "\x7b\x7d", js "\x7b\n"]) (data : SecretData) :
    (P.withDocuments documents).ParsesBack data := by
  cases hfind : documents.find? (fun d => d.1 = stringifyIndented data) with
  | none =>
      obtain ⟨props, hparse, hprops⟩ := hP data
      refine ⟨props, ?_, hprops⟩
      simp only [Platform.withDocuments, hfind]
      exact hparse
  | some d =>
      refine parsesBack_of_toJson ?_
      have htext : d.1 = stringifyIndented data := by simpa using List.find?_some hfind
      simp only [Platform.withDocuments, hfind]
      rcases hdocuments d (List.mem_of_find?_eq_some hfind) with ⟨data', rfl⟩ | hshape
      · obtain rfl : data' = data := stringifyIndented_injective htext
        rfl
      · rw [htext] at hshape
        exact absurd (take_stringifyIndented data) hshape

section Example

/-- A secret with a key that is an array index and the key `__proto__`. -/
def protoSecond : SecretContent :=
  ⟨js "api", ⟨[(js "10", js "1"), (JsObject.protoKey, js "2"), (js "b", js "3")], by decide⟩⟩

def protoLast : SecretContent :=
  ⟨js "api", ⟨[(js "10", js "1"), (js "b", js "3"), (JsObject.protoKey, js "2")], by decide⟩⟩

def withoutKeys : SecretContent := ⟨js "db", .empty⟩

noncomputable def canonicalPlatform : Platform :=
  .ofDigests
    [(js "[\x7b\"name\":\"api\",\"data\":\x7b\"10\":\"1\",\"__proto__\":\"2\",\"b\":\"3\"\x7d\x7d,\x7b\"name\":\"db\",\"data\":\x7b\x7d\x7d]",
      js "e64fce06290adbba150a85f20010f815105b45503acf4550afad24678d8d101e"),
    (js "[\x7b\"name\":\"api\",\"data\":\x7b\"10\":\"1\",\"__proto__\":\"2\",\"b\":\"3\"\x7d\x7d]",
      js "11cd17b8d2a8d5b3f6e40fcfcbc4ecd3dfe19cd6fc3113cb1f58357811848af8")]

theorem computeSecretsHash_canonical_example :
    computeSecretsHash canonicalPlatform [protoSecond, withoutKeys] =
        computeSecretsHash canonicalPlatform [withoutKeys, protoLast] ∧
      computeSecretsHash canonicalPlatform [protoSecond, withoutKeys] ≠
        computeSecretsHash canonicalPlatform [protoSecond] := by
  have hunique : UniqueNames [protoSecond, withoutKeys] := by decide
  obtain ⟨hreorder, hdistinguish⟩ := computeSecretsHash_canonical canonicalPlatform hunique
  have hreordered : List.Forall₂ Reordered [withoutKeys, protoSecond] [withoutKeys, protoLast] :=
    .cons ⟨rfl, .refl _⟩ (.cons ⟨rfl, .cons _ (.swap ..)⟩ .nil)
  refine ⟨hreorder _ _ (.swap ..) hreordered, fun heq => ?_⟩
  have hinjective : canonicalPlatform.HashInjective :=
    Platform.hashInjective_ofDigests (by decide) (by decide)
  have hmaps := (hdistinguish hinjective [protoSecond] (by decide)).mp heq
  exact absurd (congrArg Option.isSome (congrFun hmaps (js "db"))) (by decide)

end Example

end SecretsManager
