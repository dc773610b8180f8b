import SecretsManager.Js.JsonParse
import SecretsManager.Web.SecretForm
import SecretsManager.Web.SecretImport

/-!
# Copies through the clipboard

A secret that is copied as JSON can be pasted into the dialog of a new one. On the way the properties are assigned to
an object, written, parsed, and assigned again under their trimmed keys. No value changes; what becomes of a key
depends on the assignments, on the trimming, and on the import that refuses an empty key and an empty object.
-/

namespace SecretsManager

open Js Interleaving JsObject

/-! ## Copying and importing -/

/-- `secretToJsonContent(entries)` -/
def secretToJsonContent (entries : List (JsString × JsString)) : JsString :=
  stringifyIndented (entries.foldl (fun data p => data.set p.1 p.2) .empty)

/-- `importSecretRows()`: the rows that the form gets, or the error that is shown. -/
def importSecretRows (P : Platform) (importText : JsString) : Except JsString (List SecretFormRow) := do
  let result ← parseSecretImport P importText
  if result.rows.length = 0 then .error (js "Nothing to import: no entries found")
  else pure (result.rows.map fun row => ⟨row.key, row.value⟩)

/-- The data that is saved when a copy of the data as JSON is imported into a new secret. -/
def jsonCopy (P : Platform) (data : SecretData) : Except JsString SecretData := do
  let rows ← importSecretRows P (secretToJsonContent data.entries)
  buildSecretData rows

/-! ## The text -/

section Text
variable {P : Platform} {number : JsString → JsNumber} {message : JsString → JsString} {data : SecretData}

theorem trim_stringifyIndented (data : SecretData) : trim (stringifyIndented data) = objectText data := by
  obtain ⟨inner, hinner⟩ : ∃ inner, objectText data = unit '\x7b' :: (inner ++ [unit '\x7d']) := by
    unfold objectText
    split_ifs
    · exact ⟨[], rfl⟩
    · refine ⟨js "\n  " ++ Delimited.sepBy (js ",\n  ") (unit '\n') spacedPropertyText data.entries, ?_⟩
      simp [js, unitsOfChar, unit]
  have hend : trimEnd (js "\n") = [] := by decide
  rw [stringifyIndented_eq, hinner, List.cons_append, trim_cons (by decide), List.append_assoc,
    List.singleton_append, trimEnd_append_cons inner (by decide), hend]

/-- The parsed copy. -/
theorem parseSecretImport_stringifyIndented (hP : P.ParsesJson number message) (data : SecretData) :
    parseSecretImport P (stringifyIndented data) =
      ((data.entries.foldl (fun o p => o.define p.1 (.str p.2)) (empty : JsObject JsValue)).entries.foldlM
        parseJsonEntry []).map fun rows => ⟨rows, []⟩ := by
  have hparse := jsonParse_objectText number message data (show ([] : JsString).all isJsonSpace = true from rfl)
  rw [List.append_nil, ← hP] at hparse
  have hstart : startsWith (objectText data) (js "\x7b") = true := by
    unfold objectText
    split_ifs
    · decide
    · rw [startsWith_iff]
      exact ⟨_, by rw [List.append_assoc]; rfl⟩
  have hlength : (objectText data).length ≠ 0 := by
    intro hzero
    rw [List.eq_nil_of_length_eq_zero hzero] at hstart
    exact absurd hstart (by decide)
  simp only [parseSecretImport, trim_stringifyIndented, if_neg hlength, hstart, Bool.true_or, if_true, parseJsonImport,
    hparse]

/-- The object of a text without `__proto__` lists its properties in the order of the data. -/
theorem entries_foldl_define_str (hordered : data.Ordered) (hproto : protoKey ∉ data.keys) :
    (data.entries.foldl (fun o p => o.define p.1 (.str p.2)) (empty : JsObject JsValue)).entries =
      data.entries.map fun p => (p.1, .str p.2) := by
  have hne : ∀ p ∈ data.entries, p.1 ≠ protoKey := fun p hp hkey => hproto (hkey ▸ List.mem_map_of_mem hp)
  have hfold : data.entries.foldl (fun o p => o.define p.1 (.str p.2)) (empty : JsObject JsValue) =
      data.entries.foldl (fun o p => o.set p.1 (.str p.2)) empty :=
    List.foldl_ext _ _ _ fun o p hp => (set_of_ne (hne p hp)).symm
  rw [hfold]
  refine foldl_set_ordered JsValue.str ?_ ?_ hne
  · show SortedBy.Distinct Prod.fst (data.entries.map fun p => (p.1, JsValue.str p.2))
    rw [SortedBy.Distinct, List.map_map]
    exact data.distinct
  · show (data.entries.map fun p => (p.1, JsValue.str p.2)).Pairwise fun p q => Precedes p.1 q.1
    rw [List.pairwise_map]
    exact hordered

theorem foldlM_parseJsonEntry_ok {l : List (JsString × JsString)} (hl : ∀ p ∈ l, p.1 ≠ []) (rows : List SecretImportRow) :
    (l.map fun p => (p.1, JsValue.str p.2)).foldlM parseJsonEntry rows =
      .ok (rows ++ l.map fun p => ⟨p.1, p.2⟩) := by
  induction l generalizing rows with
  | nil => simp [pure, Except.pure]
  | cons p l ih =>
      obtain ⟨hp, hl⟩ := List.forall_mem_cons.mp hl
      have hlength : p.1.length ≠ 0 := fun h => hp (List.eq_nil_of_length_eq_zero h)
      have hrow : parseJsonEntry rows (p.1, JsValue.str p.2) = .ok (rows ++ [⟨p.1, p.2⟩]) := by
        rw [parseJsonEntry, if_neg hlength]
        rfl
      rw [List.map_cons, List.foldlM_cons, hrow]
      exact (ih hl _).trans (by simp)

theorem foldlM_parseJsonEntry_error {l : List (JsString × JsString)} (hl : ∃ p ∈ l, p.1 = [])
    (rows : List SecretImportRow) :
    (l.map fun p => (p.1, JsValue.str p.2)).foldlM parseJsonEntry rows =
      .error (js "Invalid JSON import: empty key") := by
  induction l generalizing rows with
  | nil =>
      obtain ⟨p, hp, -⟩ := hl
      cases hp
  | cons p l ih =>
      rw [List.map_cons, List.foldlM_cons]
      by_cases hp : p.1 = []
      · have hrow : parseJsonEntry rows (p.1, JsValue.str p.2) = .error (js "Invalid JSON import: empty key") := by
          rw [parseJsonEntry, if_pos (by rw [hp]; rfl)]
        rw [hrow]
        rfl
      · have hlength : p.1.length ≠ 0 := fun h => hp (List.eq_nil_of_length_eq_zero h)
        have hrow : parseJsonEntry rows (p.1, JsValue.str p.2) = .ok (rows ++ [⟨p.1, p.2⟩]) := by
          rw [parseJsonEntry, if_neg hlength]
          rfl
        obtain ⟨q, hq, hnil⟩ := hl
        rw [hrow]
        refine ih ⟨q, ?_, hnil⟩ _
        rcases List.mem_cons.mp hq with rfl | hq
        · exact absurd hnil hp
        · exact hq

/-- The rows of an imported copy are the properties that the copy had. -/
theorem importSecretRows_stringifyIndented (hP : P.ParsesJson number message) (hordered : data.Ordered)
    (hproto : protoKey ∉ data.keys) :
    importSecretRows P (stringifyIndented data) =
      if data.Keyed then
        (if data.entries = [] then .error (js "Nothing to import: no entries found")
          else .ok (data.entries.map formRow))
      else .error (js "Invalid JSON import: empty key") := by
  have hparse := parseSecretImport_stringifyIndented hP data
  rw [entries_foldl_define_str hordered hproto] at hparse
  split_ifs with hkeyed hempty
  · rw [importSecretRows, hparse, hempty]
    rfl
  · rw [foldlM_parseJsonEntry_ok fun p hp hnil => hkeyed (hnil ▸ List.mem_map_of_mem hp)] at hparse
    have hlength : (data.entries.map fun p => (⟨p.1, p.2⟩ : SecretImportRow)).length ≠ 0 := by
      simpa using hempty
    rw [importSecretRows, hparse]
    refine (if_neg hlength).trans ?_
    rw [List.nil_append, List.map_map]
    rfl
  · obtain ⟨p, hp, hnil⟩ := List.mem_map.mp (not_not.mp hkeyed)
    rw [foldlM_parseJsonEntry_error ⟨p, hp, hnil⟩] at hparse
    rw [importSecretRows, hparse]
    rfl

end Text

/-! ## The saved copy -/

section Copy
variable {P : Platform} {number : JsString → JsNumber} {message : JsString → JsString} {data saved : SecretData}

/-- A saved key is trimmed, not empty, and none that an assignment swallows. -/
def SavedKey (key : JsString) : Prop := key ≠ [] ∧ trim key = key ∧ key ≠ protoKey

theorem savedKey_set {key value : JsString} (hkey : key ≠ []) (htrim : trim key = key)
    (hdata : ∀ k ∈ data.keys, SavedKey k) : ∀ k ∈ (data.set key value).keys, SavedKey k := by
  intro k hk
  unfold JsObject.set at hk
  split_ifs at hk with hproto
  · exact hdata k hk
  · rcases mem_keys_define.mp hk with rfl | hold
    · refine ⟨hkey, htrim, fun h => hproto ⟨h, ?_⟩⟩
      by_contra hown
      exact (hdata _ (hasOwn_iff.mp (by simpa using hown))).2.2 h
    · exact hdata k hold

/-- The editor saves such keys only, with values of its rows. -/
theorem savedKey_of_buildSecretData {rows : List SecretFormRow} (h : buildSecretData rows = .ok saved) :
    ∀ key ∈ saved.keys, SavedKey key := by
  have hfold : ∀ (rows : List SecretFormRow) (built built' : List JsString × SecretData),
      (∀ key ∈ built.2.keys, SavedKey key) → rows.foldlM addFormRow built = .ok built' →
      ∀ key ∈ built'.2.keys, SavedKey key := by
    intro rows
    induction rows with
    | nil =>
        intro built built' hbuilt heq
        cases heq
        exact hbuilt
    | cons row rows ih =>
        intro built built' hbuilt heq
        rw [List.foldlM_cons, addFormRow] at heq
        split_ifs at heq with hblank hseen
        · exact ih built built' hbuilt heq
        · cases heq
        · refine ih _ built' (savedKey_set ?_ (trim_trim _) hbuilt) heq
          exact fun hnil => hblank (by rw [hnil]; rfl)
  unfold buildSecretData at h
  cases hrows : rows.foldlM addFormRow ([], .empty) with
  | error message =>
      rw [hrows] at h
      cases h
  | ok built =>
      rw [hrows] at h
      cases h
      exact hfold rows _ built (fun key hkey => by cases hkey) hrows

/-- What the first assignments keep. -/
theorem assigned_eq_self (hordered : data.Ordered) (hproto : protoKey ∉ data.keys) :
    secretToJsonContent data.entries = stringifyIndented data := by
  rw [secretToJsonContent, hordered.foldl_set_self hproto]

theorem ordered_foldl_set (l : List (JsString × JsString)) {o : SecretData} (ho : o.Ordered) :
    (l.foldl (fun data p => data.set p.1 p.2) o).Ordered := by
  induction l generalizing o with
  | nil => exact ho
  | cons p l ih => exact ih (ho.set p.1 p.2)

theorem protoKey_notMem_assigned (data : SecretData) :
    protoKey ∉ (data.entries.foldl (fun data p => data.set p.1 p.2) (.empty : SecretData)).keys := by
  rw [← get?_eq_none_iff, get?_set_foldl (fun v : JsString => v) data.entries data.distinct .empty rfl, if_pos rfl]

theorem get?_of_assigned {key value : JsString}
    (h : (key, value) ∈ (data.entries.foldl (fun data p => data.set p.1 p.2) (.empty : SecretData)).entries) :
    data.get? key = some value := by
  have hget := get?_set_foldl (fun v : JsString => v) data.entries data.distinct .empty rfl key
  rw [get?_eq_some_iff.mpr h, get?_empty, Option.or_none] at hget
  split_ifs at hget
  exact hget.symm

/-- A saved value is that of a property whose key trims to its key. -/
theorem value_of_jsonCopy (hP : P.ParsesJson number message) (h : jsonCopy P data = .ok saved) {key value : JsString}
    (hvalue : saved.get? key = some value) : ∃ stored, data.get? stored = some value ∧ trim stored = key := by
  have hrows := importSecretRows_stringifyIndented hP (ordered_foldl_set data.entries ordered_empty)
    (protoKey_notMem_assigned data)
  rw [jsonCopy, secretToJsonContent, hrows] at h
  generalize hassigned : data.entries.foldl (fun data p => data.set p.1 p.2) (.empty : SecretData) = assigned at h
  have hentries : ∀ {k v}, (k, v) ∈ assigned.entries → data.get? k = some v := fun hmem =>
    get?_of_assigned (hassigned ▸ hmem)
  split_ifs at h
  · cases h
  · have hbuilt : buildSecretData (assigned.entries.map formRow) = .ok saved := h
    have hnodup : (trimmedKeys assigned.entries).Nodup := by
      by_contra hnot
      obtain ⟨key, -, herror⟩ := @foldlM_addFormRow_error assigned.entries [] .empty fun h => hnot h.1
      rw [buildSecretData, herror] at hbuilt
      cases hbuilt
    obtain ⟨seen, hfold⟩ := @foldlM_addFormRow_ok assigned.entries [] .empty hnodup fun _ _ => List.not_mem_nil
    rw [buildSecretData, hfold] at hbuilt
    cases hbuilt
    have hget := get?_set_foldl (fun v : JsString => v) (trimmedEntries assigned.entries) hnodup .empty rfl key
    rw [hvalue, get?_empty, Option.or_none] at hget
    split_ifs at hget
    have hmem : (key, value) ∈ trimmedEntries assigned.entries :=
      (get?_eq_some_iff (o := ⟨trimmedEntries assigned.entries, hnodup⟩)).mp hget.symm
    obtain ⟨-, stored, hstored, htrim⟩ := mem_trimmedEntries.mp hmem
    exact ⟨stored, hentries hstored, htrim⟩
  · cases h

/-- **A copy as JSON is the secret, unless its keys stand in the way.** For every secret of the server, in any
interleaving of its operations, what is saved from a copy of it has the stored data, in its order, exactly when there
is a key at all, none is `__proto__`, and each is its own trim; and no saved value is other than a stored one under a
key that trims to its key. -/
theorem jsonCopy_stored {R : Type} {restic : Restic R} {timeouts : ResticTimeouts} {admits : Operation → Prop} {db : Db}
    {repository : R} {cfg : Config (World R) Cmd Cmd.Answer Failure Response Operation}
    (hP : P.ParsesJson number message) (hingested : ∀ s ∈ db.secrets, s.Ingested)
    (h : (server P timeouts restic admits).Reachable (.initial db repository) cfg) {s : Secret}
    (hs : s ∈ cfg.world.db.secrets) :
    (jsonCopy P s.data = .ok s.data ↔
      s.data.entries ≠ [] ∧ protoKey ∉ s.data.keys ∧ ∀ key ∈ s.data.keys, trim key = key) ∧
    ∀ saved, jsonCopy P s.data = .ok saved → ∀ key value, saved.get? key = some value →
      ∃ stored, s.data.get? stored = some value ∧ trim stored = key := by
  have hstored : s.Ingested := (ingested_throughout hingested h).1 s hs
  refine ⟨?_, fun saved hcopy key value hvalue => value_of_jsonCopy hP hcopy hvalue⟩
  constructor
  · intro hcopy
    obtain ⟨rows, hrows, hbuilt⟩ : ∃ rows, importSecretRows P (secretToJsonContent s.data.entries) = .ok rows ∧
        buildSecretData rows = .ok s.data := by
      cases hrows : importSecretRows P (secretToJsonContent s.data.entries) with
      | error message =>
          rw [jsonCopy, hrows] at hcopy
          cases hcopy
      | ok rows =>
          rw [jsonCopy, hrows] at hcopy
          exact ⟨rows, rfl, hcopy⟩
    have hkeys := savedKey_of_buildSecretData hbuilt
    refine ⟨fun hempty => ?_, fun hproto => (hkeys _ hproto).2.2 rfl, fun key hkey => (hkeys key hkey).2.1⟩
    have hnone := importSecretRows_stringifyIndented hP ordered_empty (by simp [keys, JsObject.empty])
    rw [secretToJsonContent, hempty, List.foldl_nil, hnone] at hrows
    cases hrows
  · rintro ⟨hne, hproto, htrim⟩
    have hrows := importSecretRows_stringifyIndented hP hstored.ordered hproto
    rw [if_pos hstored.storable.keyed, if_neg hne] at hrows
    rw [jsonCopy, assigned_eq_self hstored.ordered hproto, hrows]
    exact untouched_eq_self hstored hproto htrim

end Copy

section Example

/-- The number and the message that this platform makes of a text. -/
def exampleNumber (text : JsString) : JsNumber := ⟨text, none⟩

def unexpectedToken (_ : JsString) : JsString := js "Unexpected token"

/-- The platform of the examples with the `JSON.parse` of the language. -/
noncomputable def jsonPlatform : Platform := { runPlatform with jsonParse := jsonParse exampleNumber unexpectedToken }

theorem parsesJson_jsonPlatform : jsonPlatform.ParsesJson exampleNumber unexpectedToken := rfl

/-- After the update of a key, with the two keys of the secret. -/
theorem jsonCopy_stored_keyUpdate :
    ∃ cfg, (server jsonPlatform exampleTimeouts Snapshots.restic fun _ => True).Reachable
        (.initial neverSyncedDb []) cfg ∧
      ∃ s ∈ cfg.world.db.secrets, (s.data.keys, s.version) = ([js "A", js "B"], 2) ∧
        (jsonCopy jsonPlatform s.data = .ok s.data ↔
          s.data.entries ≠ [] ∧ protoKey ∉ s.data.keys ∧ ∀ key ∈ s.data.keys, trim key = key) ∧
        ∀ saved, jsonCopy jsonPlatform s.data = .ok saved → ∀ key value, saved.get? key = some value →
          ∃ stored, s.data.get? stored = some value ∧ trim stored = key := by
  obtain ⟨cfg, hplay, hstored⟩ : ∃ cfg, play (serve jsonPlatform exampleTimeouts) (fun t _ _ => act Snapshots.run t)
        (keyUpdateMoves (js "B")) ⟨.initial neverSyncedDb [], []⟩ = some cfg ∧
      (cfg.world.db.secrets.map fun s => (s.data.keys, s.version)) = [([js "A", js "B"], 2)] :=
    Option.map_eq_some_iff.mp rfl
  have hreachable : (server jsonPlatform exampleTimeouts Snapshots.restic fun _ => True).Reachable
      (.initial neverSyncedDb []) cfg := play_reachable (fun _ _ _ => rfl) (fun _ _ => trivial) hplay
  obtain ⟨s, hs, hkeys⟩ := List.mem_map.mp (hstored ▸ List.mem_singleton_self ([js "A", js "B"], 2))
  exact ⟨cfg, hreachable, s, hs, hkeys, jsonCopy_stored parsesJson_jsonPlatform ingested_neverSynced hreachable hs⟩

end Example

end SecretsManager
