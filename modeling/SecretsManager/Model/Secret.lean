import SecretsManager.Js.Json

/-!
# Secrets

A secret is a named flat map of strings, stored as a database row and as one JSON file of a snapshot.
The rules for names and data are checked when a request body is validated, when a single key is written
and when a snapshot file is read, each time by code of its own.
-/

namespace SecretsManager

open Js

/-- What the program takes from its platform: the SHA-256 hex digest of a text, `JSON.parse`, whose
error is the message of the `SyntaxError`, `toLowerCase` with the Unicode table behind it, and
`Date.parse`, which gives `NaN` (`none`) or milliseconds. -/
structure Platform where
  sha256 : JsString → JsString
  jsonParse : JsString → Except JsString Json
  toLowerCase : JsString → JsString
  dateParse : JsString → Option Int

abbrev SecretData := JsObject JsString

/-- `JSON.parse` undoes `JSON.stringify` on the object: it gives the same keys with the same strings. -/
def Platform.ParsesBack (P : Platform) (data : SecretData) : Prop :=
  ∃ props, P.jsonParse (stringifyIndented data) = .ok (.object props) ∧
    ∀ k, props.get? k = (data.get? k).map JsValue.str

/-- The part of a secret that a snapshot holds. -/
structure SecretContent where
  name : JsString
  data : SecretData
  deriving DecidableEq

/-- A row of the table `secrets`. The column `data` holds `JSON.stringify(data)`, which `JSON.parse`
gives back as an object with the same properties. -/
structure Secret extends SecretContent where
  id : JsString
  projectId : JsString
  dateCreated : JsString
  dateUpdated : JsString
  version : Nat
  deriving DecidableEq

namespace Secret

def isAsciiLetterOrDigit (c : CodeUnit) : Bool :=
  (0x41 ≤ c.val && c.val ≤ 0x5a) || (0x61 ≤ c.val && c.val ≤ 0x7a) || (0x30 ≤ c.val && c.val ≤ 0x39)

def isNameUnit (c : CodeUnit) : Bool :=
  isAsciiLetterOrDigit c || c = unit '.' || c = unit '_' || c = unit '-'

/-- `/^[A-Za-z0-9][A-Za-z0-9._-]*$/.test(name)` -/
def isValidName : JsString → Bool
  | [] => false
  | c :: rest => isAsciiLetterOrDigit c && rest.all isNameUnit

def validateName (name : JsValue) : List JsString :=
  match name with
  | .str name =>
      if trim name = [] then [js "Invalid secret: name is required"]
      else if isValidName name = false then
        [js "Invalid secret: name must start with a letter or digit and only contain letters, digits, '.', '_' or '-'"]
      else if 200 < name.length then [js "Invalid secret: name must be 200 characters or less"]
      else []
  | _ => [js "Invalid secret: name is required"]

def validateEntry (p : JsString × JsValue) : List JsString :=
  if p.1 = [] then [js "Invalid secret: empty key is not allowed"]
  else if p.2.isScalar then []
  else [js "Invalid secret: value for key '" ++ p.1 ++ js "' must be a scalar"]

/-- `data` is `undefined` when the request body has no such field. -/
def validate (name : JsValue) (data : Option Json) : List JsString :=
  match data with
  | some (.object props) => validateName name ++ props.entries.flatMap validateEntry
  | _ => validateName name ++ [js "Invalid secret: data must be a JSON object"]

/-- One turn of the loop of `normalizeData`. -/
def normalizeEntry (result : SecretData) (p : JsString × JsValue) : SecretData :=
  if p.2.isScalar then result.set p.1 p.2.toJsString else result

def normalizeData (data : JsObject JsValue) : SecretData :=
  data.entries.foldl normalizeEntry .empty

/-- One turn of the loop of `parseFileContent`. -/
def parseEntry (data : SecretData) (p : JsString × JsValue) : Except JsString SecretData :=
  if p.1 = [] then .error (js "Invalid secret file: empty key")
  else if p.2.isScalar then .ok (data.set p.1 p.2.toJsString)
  else .error (js "Invalid secret file: value for key '" ++ p.1 ++ js "' must be a scalar")

/-- The data of a snapshot file. -/
def parseFileContent (P : Platform) (raw : JsString) : Except JsString SecretData :=
  match P.jsonParse raw with
  | .error message => .error message
  | .ok (.object props) => props.entries.foldlM parseEntry .empty
  | .ok (.scalar _) | .ok (.array _) => .error (js "Invalid secret file: a JSON object is expected")

end Secret

/-! ## What is stored -/

/-- The keys are non-empty. -/
def SecretData.Keyed (data : SecretData) : Prop := [] ∉ data.keys

instance (data : SecretData) : Decidable data.Keyed := inferInstanceAs (Decidable (¬ _ ∈ _))

/-- The name can be a file name of a snapshot and the keys are non-empty. -/
structure SecretContent.Storable (s : SecretContent) : Prop where
  name : Secret.isValidName s.name = true
  keyed : s.data.Keyed

instance (s : SecretContent) : Decidable s.Storable :=
  decidable_of_iff (Secret.isValidName s.name = true ∧ s.data.Keyed)
    ⟨fun h => ⟨h.1, h.2⟩, fun h => ⟨h.name, h.keyed⟩⟩

namespace JsObject

theorem get?_set_foldl {W : Type} (f : W → JsString) (l : List (JsString × W))
    (hl : SortedBy.Distinct Prod.fst l) (o : JsObject JsString) (ho : o.get? protoKey = none)
    (k : JsString) :
    (l.foldl (fun o p => o.set p.1 (f p.2)) o).get? k =
      if k = protoKey then none
      else ((l.find? fun p => p.1 = k).map fun p => f p.2).or (o.get? k) := by
  induction l generalizing o with
  | nil =>
      by_cases hk : k = protoKey
      · rw [if_pos hk, hk]
        exact ho
      · simp [hk]
  | cons p l ih =>
      obtain ⟨hp, hl⟩ := SortedBy.distinct_cons.mp hl
      rw [List.foldl_cons]
      by_cases hpp : p.1 = protoKey
      · have hset : o.set p.1 (f p.2) = o := by
          rw [set, if_pos ⟨hpp, by rw [hasOwn, hpp, ho]; rfl⟩]
        rw [hset, ih hl o ho]
        by_cases hk : k = protoKey
        · rw [if_pos hk, if_pos hk]
        · have hpk : p.1 ≠ k := fun h => hk (h.symm.trans hpp)
          rw [if_neg hk, if_neg hk, List.find?_cons_of_neg (by simpa using hpk)]
      · rw [set_of_ne hpp, ih hl _ (by rw [get?_define, if_neg fun h => hpp h.symm]; exact ho)]
        by_cases hk : k = protoKey
        · rw [if_pos hk, if_pos hk]
        · rw [if_neg hk, if_neg hk, get?_define]
          by_cases hkp : k = p.1
          · have hfind : l.find? (fun q => q.1 = k) = none := by
              rw [List.find?_eq_none]
              intro q hq
              simpa [hkp] using hp q hq
            rw [hfind, if_pos hkp, List.find?_cons_of_pos (by simp [hkp])]
            rfl
          · rw [if_neg hkp, List.find?_cons_of_neg (by simpa using fun h => hkp h.symm)]

end JsObject

namespace Secret

open JsObject

theorem foldlM_parseEntry {l : List (JsString × JsValue)} (hkeys : ∀ p ∈ l, p.1 ≠ [])
    (hscalar : ∀ p ∈ l, p.2.isScalar = true) (data : SecretData) :
    l.foldlM parseEntry data = .ok (l.foldl (fun o p => o.set p.1 p.2.toJsString) data) := by
  induction l generalizing data with
  | nil => rfl
  | cons p l ih =>
      obtain ⟨hk, hkeys⟩ := List.forall_mem_cons.mp hkeys
      obtain ⟨hs, hscalar⟩ := List.forall_mem_cons.mp hscalar
      rw [List.foldlM_cons, parseEntry, if_neg hk, if_pos hs]
      exact ih hkeys hscalar _

/-- A file that holds the serialisation of a map reads as that map without `__proto__`. -/
theorem parseFileContent_stringifyIndented {P : Platform} {data : SecretData} (hP : P.ParsesBack data)
    (hkeyed : data.Keyed) :
    ∃ read, parseFileContent P (stringifyIndented data) = .ok read ∧
      ∀ k, read.get? k = if k = protoKey then none else data.get? k := by
  obtain ⟨props, hparse, hprops⟩ := hP
  have hstr : ∀ p ∈ props.entries, ∃ v, p.2 = .str v ∧ data.get? p.1 = some v := by
    rintro ⟨k, w⟩ hp
    obtain ⟨v, hv, rfl⟩ := Option.map_eq_some_iff.mp ((hprops k).symm.trans (get?_eq_some_iff.mpr hp))
    exact ⟨v, rfl, hv⟩
  refine ⟨props.entries.foldl (fun o p => o.set p.1 p.2.toJsString) .empty, ?_, fun k => ?_⟩
  · simp only [parseFileContent, hparse]
    apply foldlM_parseEntry
    · intro p hp hnil
      obtain ⟨v, -, hv⟩ := hstr p hp
      exact hkeyed (hnil ▸ hasOwn_iff.mp (by rw [hasOwn, hv]; rfl))
    · intro p hp
      obtain ⟨v, hv, -⟩ := hstr p hp
      rw [hv]
      rfl
  · rw [get?_set_foldl JsValue.toJsString _ props.distinct _ (get?_empty _), get?_empty, Option.or_none]
    congr 1
    have hmap : (props.entries.find? fun p => p.1 = k).map (fun p => p.2.toJsString) =
        (props.get? k).map JsValue.toJsString := by
      rw [JsObject.get?, Option.map_map]
      rfl
    rw [hmap, hprops, Option.map_map]
    cases data.get? k <;> rfl

/-- A file with an empty key is refused. -/
theorem keyed_parseFileContent {P : Platform} {raw : JsString} {data : SecretData}
    (h : parseFileContent P raw = .ok data) : data.Keyed := by
  have hfold : ∀ (l : List (JsString × JsValue)) (o : SecretData), o.Keyed → l.foldlM parseEntry o = .ok data →
      data.Keyed := by
    intro l
    induction l with
    | nil =>
        intro o ho h
        rwa [← Except.ok.inj h]
    | cons p l ih =>
        intro o ho h
        rw [List.foldlM_cons, parseEntry] at h
        split_ifs at h with hempty hscalar
        · cases h
        · refine ih _ ?_ h
          unfold JsObject.set
          split_ifs
          · exact ho
          · intro hmem
            rcases mem_keys_define.mp hmem with hk | hk
            · exact hempty hk.symm
            · exact ho hk
        · cases h
  unfold parseFileContent at h
  split at h
  · cases h
  · exact hfold _ _ (by simp [SecretData.Keyed, keys, JsObject.empty]) h
  · cases h
  · cases h

/-- What a request body stores has no `__proto__` and the keys of the body. -/
theorem mem_keys_foldl_normalizeEntry {l : List (JsString × JsValue)} {o : SecretData} {k : JsString}
    (h : k ∈ (l.foldl normalizeEntry o).keys) : k ∈ o.keys ∨ ∃ p ∈ l, p.1 = k := by
  induction l generalizing o with
  | nil => exact Or.inl h
  | cons p l ih =>
      rcases ih h with ho | ⟨q, hq, hqk⟩
      · unfold normalizeEntry JsObject.set at ho
        split_ifs at ho
        · exact Or.inl ho
        · rcases mem_keys_define.mp ho with rfl | ho
          · exact Or.inr ⟨p, List.mem_cons_self .., rfl⟩
          · exact Or.inl ho
        · exact Or.inl ho
      · exact Or.inr ⟨q, List.mem_cons_of_mem _ hq, hqk⟩

theorem keyed_normalizeData {props : JsObject JsValue} (h : ∀ p ∈ props.entries, p.1 ≠ []) :
    (normalizeData props).Keyed := by
  intro hmem
  rcases mem_keys_foldl_normalizeEntry hmem with hempty | ⟨p, hp, hk⟩
  · exact absurd hempty (by simp [keys, JsObject.empty])
  · exact h p hp hk

theorem get?_foldl_normalizeEntry_protoKey {l : List (JsString × JsValue)} {o : SecretData}
    (ho : o.get? protoKey = none) : (l.foldl normalizeEntry o).get? protoKey = none := by
  induction l generalizing o with
  | nil => exact ho
  | cons p l ih =>
      refine ih ?_
      unfold normalizeEntry JsObject.set
      split_ifs with hs hp
      · exact ho
      · rw [get?_define]
        split_ifs with hk
        · exact absurd ⟨hk.symm, by rw [hasOwn, ← hk, ho]; rfl⟩ hp
        · exact ho
      · exact ho

theorem protoKey_notMem_normalizeData (props : JsObject JsValue) :
    protoKey ∉ (normalizeData props).keys :=
  get?_eq_none_iff.mp (get?_foldl_normalizeEntry_protoKey (get?_empty _))

theorem validateName_eq_nil {name : JsValue} (h : validateName name = []) :
    ∃ s, name = .str s ∧ isValidName s = true ∧ s.length ≤ 200 := by
  unfold validateName at h
  split at h
  · rename_i s
    split_ifs at h with h₁ h₂ h₃
    exact ⟨s, rfl, by simpa using h₂, by omega⟩
  · cases h

/-- What passes `validate` can be stored. -/
theorem validate_eq_nil {name : JsValue} {data : Option Json} (h : validate name data = []) :
    ∃ s props, name = .str s ∧ isValidName s = true ∧ s.length ≤ 200 ∧ data = some (.object props) ∧
      ∀ p ∈ props.entries, p.1 ≠ [] ∧ p.2.isScalar = true := by
  unfold validate at h
  split at h
  · rename_i props
    obtain ⟨hname, hdata⟩ := List.append_eq_nil_iff.mp h
    obtain ⟨s, rfl, hs, hlen⟩ := validateName_eq_nil hname
    refine ⟨s, props, rfl, hs, hlen, rfl, fun p hp => ?_⟩
    have hp' := List.flatMap_eq_nil_iff.mp hdata p hp
    unfold validateEntry at hp'
    split_ifs at hp' with h₁ h₂
    exact ⟨h₁, h₂⟩
  · exact absurd (List.append_eq_nil_iff.mp h).2 (by simp)

end Secret

end SecretsManager
