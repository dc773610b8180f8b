import SecretsManager.Secrets.SecretsHash

/-!
# Secrets as files

A push writes one file `<name>.json` for each secret and a pull reads a restored directory back. Names
are checked to be file names and keys to be non-empty on every way into the database, so every stored
secret can be written and read. What is read is what was written, without the key `__proto__`: the
reader fills an empty object by assignments, and that one is swallowed (`readSnapshotSecrets_export`).
-/

namespace SecretsManager

open Js SortedBy JsObject

structure ResticSyncError where
  message : JsString
  statusCode : Nat
  code : Option JsString
  deriving DecidableEq

/-! ## Directories -/

/-- An entry of a directory listing. Nothing below a subdirectory is read. -/
inductive FsNode where
  | file (text : JsString)
  | directory
  | symbolicLink
  deriving DecidableEq

def FsNode.isFile : FsNode → Bool
  | file _ => true
  | directory | symbolicLink => false

/-- The entries of a directory, in the order in which they were created. -/
structure Dir where
  entries : List (JsString × FsNode)
  distinct : Distinct Prod.fst entries

/-- A listing of a directory gives its entries in any order. -/
def Dir.Listing (dir : Dir) (listing : List (JsString × FsNode)) : Prop := listing.Perm dir.entries

def Dir.empty : Dir := ⟨[], distinct_nil _⟩

/-- The longest file name, in bytes; the names written here are ASCII. -/
def nameMax : Nat := 255

/-- Creates or truncates a file; a name that is too long is refused. -/
def Dir.writeFile (dir : Dir) (name text : JsString) : Option Dir :=
  if nameMax < name.length then none
  else
    some
      { entries := dir.entries.filter (fun e => e.1 ≠ name) ++ [(name, .file text)]
        distinct := distinct_append.mpr
          ⟨dir.distinct.sublist List.filter_sublist, by simp [Distinct], by simp⟩ }

/-! ## The export of a push -/

def fileName (name : JsString) : JsString := name ++ js ".json"

/-- `writePrivateJson`; the permissions are left out. -/
def writePrivateJson (dir : Dir) (name : JsString) (data : SecretData) : Option Dir :=
  dir.writeFile name (stringifyIndented data)

/-- The loop of a push that fills the directory it backs up. -/
def exportSecrets (secrets : List SecretContent) : Option Dir :=
  secrets.foldlM (fun dir secret => writePrivateJson dir (fileName secret.name) secret.data) .empty

/-! ## Reading a restored snapshot -/

section Platform
variable (P : Platform)

/-- One turn of the loop over the directory entries: the secret that it pushes. -/
def readSnapshotEntry (entry : JsString × FsNode) : Except ResticSyncError (Option SecretContent) :=
  match entry.2 with
  | .file raw =>
      if endsWith entry.1 (js ".json") = false then .ok none
      else
        let name := entry.1.take (entry.1.length - (js ".json").length)
        if Secret.isValidName name = false then
          .error ⟨js "Invalid secret file name in repository: " ++ entry.1, 422, none⟩
        else
          match Secret.parseFileContent P raw with
          | .error message => .error ⟨js "Invalid secret file '" ++ entry.1 ++ js "': " ++ message, 422, none⟩
          | .ok data => .ok (some ⟨name, data⟩)
  | .directory | .symbolicLink => .ok none

def noSecretFile : ResticSyncError :=
  ⟨js "No JSON secret file found in the snapshot (files were present but ignored): refusing to replace the project secrets",
    422, none⟩

/-- The name and data of each secret of a restored snapshot, in the order of the directory listing. -/
def readSnapshotSecrets (entries : List (JsString × FsNode)) :
    Except ResticSyncError (List SecretContent) :=
  match entries.foldlM (fun secrets entry => (readSnapshotEntry P entry).map fun s => secrets ++ s.toList) [] with
  | .error e => .error e
  | .ok secrets =>
      if secrets = [] ∧ entries.any (fun entry => entry.2.isFile) then .error noSecretFile else .ok secrets

end Platform

/-! ## What the routes store -/

/-- The name and data of a secret after requests to the secret routes. -/
inductive RouteStored : SecretContent → Prop where
  /-- A creation, or a full update with data. -/
  | written {name props} : Secret.validate (.str name) (some (.object props)) = [] →
      RouteStored ⟨name, Secret.normalizeData props⟩
  /-- A full update without data. -/
  | renamed {s name} : RouteStored s → Secret.validate (.str name) (some s.data.toJson) = [] →
      RouteStored ⟨name, s.data⟩
  /-- The update of a single key, which spreads the old data into a new object. -/
  | keyUpdated {s key} {value : JsValue} : RouteStored s → trim key ≠ [] → value.isScalar = true →
      RouteStored ⟨s.name, s.data.define (trim key) value.toJsString⟩

theorem SecretData.Keyed.define {data : SecretData} (h : data.Keyed) {key value : JsString}
    (hkey : key ≠ []) : SecretData.Keyed (data.define key value) := by
  intro hmem
  rcases mem_keys_define.mp hmem with hk | hk
  · exact hkey hk.symm
  · exact h hk

theorem RouteStored.storable {s : SecretContent} (h : RouteStored s) :
    s.Storable ∧ s.name.length ≤ 200 := by
  induction h with
  | written hvalid =>
      obtain ⟨name, props, hname, hvalidName, hlen, hdata, hprops⟩ := Secret.validate_eq_nil hvalid
      cases hname
      cases hdata
      exact ⟨⟨hvalidName, Secret.keyed_normalizeData fun p hp => (hprops p hp).1⟩, hlen⟩
  | renamed _ hvalid ih =>
      obtain ⟨name, props, hname, hvalidName, hlen, -, -⟩ := Secret.validate_eq_nil hvalid
      cases hname
      exact ⟨⟨hvalidName, ih.1.keyed⟩, hlen⟩
  | keyUpdated _ hkey _ ih => exact ⟨⟨ih.1.name, ih.1.keyed.define hkey⟩, ih.2⟩

/-! ## The export -/

/-- The file of a secret. -/
def snapshotFile (s : SecretContent) : JsString × FsNode :=
  (fileName s.name, .file (stringifyIndented s.data))

theorem fileName_injective : Function.Injective fileName := by
  intro a b h
  exact List.append_cancel_right h

theorem length_fileName (name : JsString) : (fileName name).length = name.length + 5 := by
  rw [fileName, List.length_append]
  rfl

theorem distinct_snapshotFiles {secrets : List SecretContent} (h : UniqueNames secrets) :
    Distinct Prod.fst (secrets.map snapshotFile) := by
  have hmap : (secrets.map snapshotFile).map Prod.fst =
      (secrets.map SecretContent.name).map fileName := by
    rw [List.map_map, List.map_map]
    rfl
  rw [Distinct, hmap]
  exact List.Nodup.map fileName_injective h

/-- A file with a new name is added to the directory. -/
theorem writePrivateJson_of_notMem {dir : Dir} {s : SecretContent}
    (hnew : ∀ e ∈ dir.entries, e.1 ≠ fileName s.name) (hlen : s.name.length ≤ 250) :
    ∃ dir', writePrivateJson dir (fileName s.name) s.data = some dir' ∧
      dir'.entries = dir.entries ++ [snapshotFile s] := by
  have hmax : ¬ nameMax < (fileName s.name).length := by
    rw [length_fileName, nameMax]
    omega
  have hfilter : dir.entries.filter (fun e => e.1 ≠ fileName s.name) = dir.entries :=
    List.filter_eq_self.mpr fun e he => decide_eq_true (hnew e he)
  refine ⟨_, if_neg hmax, ?_⟩
  exact congrArg (· ++ [snapshotFile s]) hfilter

theorem foldlM_writePrivateJson {secrets : List SecretContent} (dir : Dir)
    (hdistinct : Distinct Prod.fst (dir.entries ++ secrets.map snapshotFile))
    (hlen : ∀ s ∈ secrets, s.name.length ≤ 250) :
    ∃ dir', secrets.foldlM
        (fun dir secret => writePrivateJson dir (fileName secret.name) secret.data) dir = some dir' ∧
      dir'.entries = dir.entries ++ secrets.map snapshotFile := by
  induction secrets generalizing dir with
  | nil => exact ⟨dir, rfl, by simp⟩
  | cons s secrets ih =>
      obtain ⟨hs, hlen⟩ := List.forall_mem_cons.mp hlen
      have hnew : ∀ e ∈ dir.entries, e.1 ≠ fileName s.name := by
        intro e he
        exact (distinct_append.mp hdistinct).2.2 e he (snapshotFile s) (by simp)
      obtain ⟨dir₁, hwrite, hentries₁⟩ := writePrivateJson_of_notMem hnew hs
      have hdistinct₁ : Distinct Prod.fst (dir₁.entries ++ secrets.map snapshotFile) := by
        rw [hentries₁, List.append_assoc]
        exact hdistinct
      obtain ⟨dir₂, hfold, hentries₂⟩ := ih dir₁ hdistinct₁ hlen
      refine ⟨dir₂, ?_, ?_⟩
      · rw [List.foldlM_cons, hwrite]
        exact hfold
      · rw [hentries₂, hentries₁, List.append_assoc]
        rfl

/-- The export writes one file for each secret. -/
theorem exportSecrets_eq {secrets : List SecretContent} (hunique : UniqueNames secrets)
    (hlen : ∀ s ∈ secrets, s.name.length ≤ 250) :
    ∃ dir, exportSecrets secrets = some dir ∧ dir.entries = secrets.map snapshotFile := by
  obtain ⟨dir, hdir, hentries⟩ :=
    foldlM_writePrivateJson .empty (by simpa [Dir.empty] using distinct_snapshotFiles hunique) hlen
  exact ⟨dir, hdir, by rw [hentries]; rfl⟩

/-- The export refuses a name that is too long. -/
theorem length_le_of_exportSecrets {secrets : List SecretContent} {dir : Dir}
    (h : exportSecrets secrets = some dir) : ∀ s ∈ secrets, s.name.length ≤ 250 := by
  have hfold : ∀ dir₀ : Dir, secrets.foldlM
      (fun dir secret => writePrivateJson dir (fileName secret.name) secret.data) dir₀ = some dir →
      ∀ s ∈ secrets, s.name.length ≤ 250 := by
    clear h
    induction secrets with
    | nil => exact fun _ _ s hs => by cases hs
    | cons s secrets ih =>
        intro dir₀ h
        rw [List.foldlM_cons] at h
        cases hwrite : writePrivateJson dir₀ (fileName s.name) s.data with
        | none =>
            rw [hwrite] at h
            cases h
        | some dir₁ =>
            rw [hwrite] at h
            refine List.forall_mem_cons.mpr ⟨?_, ih dir₁ h⟩
            rw [writePrivateJson, Dir.writeFile] at hwrite
            split_ifs at hwrite with hlen
            rw [length_fileName, nameMax] at hlen
            omega
  exact hfold _ h

/-! ## Reading the export back -/

section Platform
variable {P : Platform}

/-- What a file of the export reads as. -/
def restored (P : Platform) (s : SecretContent) : SecretContent :=
  ⟨s.name, (Secret.parseFileContent P (stringifyIndented s.data)).toOption.getD .empty⟩

theorem readSnapshotEntry_snapshotFile {s : SecretContent} (hs : s.Storable)
    (hP : P.ParsesBack s.data) :
    readSnapshotEntry P (snapshotFile s) = .ok (some (restored P s)) ∧
      ∀ k, (restored P s).data.get? k = if k = protoKey then none else s.data.get? k := by
  obtain ⟨read, hread, hget⟩ := Secret.parseFileContent_stringifyIndented hP hs.keyed
  have hends : endsWith (fileName s.name) (js ".json") = true :=
    (endsWith_iff _ _).mpr (List.suffix_append _ _)
  have htake : (fileName s.name).take ((fileName s.name).length - (js ".json").length) = s.name := by
    rw [fileName, List.length_append, Nat.add_sub_cancel, List.take_left]
  have hrestored : restored P s = ⟨s.name, read⟩ := by
    rw [restored, hread]
    rfl
  rw [hrestored]
  refine ⟨?_, hget⟩
  simp only [readSnapshotEntry, snapshotFile, hends, Bool.true_eq_false, if_false, htake, hs.name, hread]

theorem foldlM_readSnapshotEntry {entries : List (JsString × FsNode)}
    (h : ∀ e ∈ entries, ∃ s, readSnapshotEntry P e = .ok s) (secrets : List SecretContent) :
    entries.foldlM (fun secrets entry => (readSnapshotEntry P entry).map fun s => secrets ++ s.toList)
        secrets =
      .ok (secrets ++ entries.filterMap fun e => (readSnapshotEntry P e).toOption.join) := by
  induction entries generalizing secrets with
  | nil => simp [pure, Except.pure]
  | cons e entries ih =>
      obtain ⟨⟨s, hs⟩, h⟩ := List.forall_mem_cons.mp h
      rw [List.foldlM_cons, hs]
      refine (ih h _).trans ?_
      rw [List.filterMap_cons, hs]
      cases s <;> simp [Except.toOption]

/-- When a listing can be read, so can each of its entries. -/
theorem forall_readSnapshotEntry {entries : List (JsString × FsNode)} {secrets read : List SecretContent}
    (h : entries.foldlM (fun secrets entry => (readSnapshotEntry P entry).map fun s => secrets ++ s.toList)
      secrets = .ok read) : ∀ e ∈ entries, ∃ s, readSnapshotEntry P e = .ok s := by
  induction entries generalizing secrets with
  | nil => exact fun e he => by cases he
  | cons e entries ih =>
      rw [List.foldlM_cons] at h
      cases he : readSnapshotEntry P e with
      | error err =>
          rw [he] at h
          cases h
      | ok s =>
          rw [he] at h
          exact List.forall_mem_cons.mpr ⟨⟨s, he⟩, ih h⟩

theorem readSnapshotSecrets_ok {listing : List (JsString × FsNode)} {read : List SecretContent}
    (h : readSnapshotSecrets P listing = .ok read) :
    (∀ e ∈ listing, ∃ s, readSnapshotEntry P e = .ok s) ∧
      read = (listing.filterMap fun e => (readSnapshotEntry P e).toOption.join) ∧
      ¬ (read = [] ∧ listing.any (fun entry => entry.2.isFile) = true) := by
  unfold readSnapshotSecrets at h
  split at h
  · cases h
  · rename_i secrets hfold
    have hentries := forall_readSnapshotEntry hfold
    rw [foldlM_readSnapshotEntry hentries, List.nil_append] at hfold
    split_ifs at h with hnone
    rw [← Except.ok.inj h]
    exact ⟨hentries, (Except.ok.inj hfold).symm, hnone⟩

/-- The order of the listing only changes the order of the secrets. -/
theorem readSnapshotSecrets_perm {listing listing' : List (JsString × FsNode)} {read : List SecretContent}
    (h : readSnapshotSecrets P listing = .ok read) (hperm : listing.Perm listing') :
    ∃ read', readSnapshotSecrets P listing' = .ok read' ∧ read.Perm read' := by
  obtain ⟨hentries, hread, hsome⟩ := readSnapshotSecrets_ok h
  have hentries' : ∀ e ∈ listing', ∃ s, readSnapshotEntry P e = .ok s := fun e he =>
    hentries e (hperm.mem_iff.mpr he)
  have hperm' : read.Perm (listing'.filterMap fun e => (readSnapshotEntry P e).toOption.join) := by
    rw [hread]
    exact hperm.filterMap _
  refine ⟨_, ?_, hperm'⟩
  rw [readSnapshotSecrets, foldlM_readSnapshotEntry hentries', List.nil_append]
  refine if_neg fun ⟨hnil, hany⟩ => hsome ⟨?_, ?_⟩
  · rw [hnil] at hperm'
    exact List.Perm.eq_nil hperm'
  · rwa [hperm.any_eq]

/-- A secret is read from a file with its name, and the name and the content pass their checks. -/
theorem readSnapshotEntry_some {e : JsString × FsNode} {s : SecretContent}
    (h : readSnapshotEntry P e = .ok (some s)) : ∃ raw, e = (fileName s.name, .file raw) ∧
      Secret.isValidName s.name = true ∧ Secret.parseFileContent P raw = .ok s.data := by
  obtain ⟨entryName, node⟩ := e
  unfold readSnapshotEntry at h
  split at h
  · rename_i raw hnode
    split at h
    · cases h
    · rename_i hends
      dsimp only at h
      split at h
      · cases h
      · rename_i hvalid
        split at h
        · cases h
        · rename_i data hdata
          cases h
          obtain ⟨name, hname⟩ := (endsWith_iff _ _).mp (Bool.eq_true_of_not_eq_false hends)
          refine ⟨raw, Prod.ext ?_ hnode, Bool.eq_true_of_not_eq_false hvalid, hdata⟩
          dsimp only at hname ⊢
          rw [← hname, fileName, List.length_append, Nat.add_sub_cancel, List.take_left]
  · cases h
  · cases h

/-- A file with the suffix is read or refused. -/
theorem readSnapshotEntry_ne_none {e : JsString × FsNode} (hfile : e.2.isFile = true)
    (hends : endsWith e.1 (js ".json") = true) : readSnapshotEntry P e ≠ .ok none := by
  obtain ⟨entryName, node⟩ := e
  cases node with
  | file raw =>
      intro h
      unfold readSnapshotEntry at h
      dsimp only at h hends
      rw [if_neg (by rw [hends]; decide)] at h
      split at h
      · cases h
      · split at h <;> cases h
  | directory | symbolicLink => cases hfile

/-- The secrets that are read are those of the entries. -/
theorem mem_readSnapshotSecrets {listing : List (JsString × FsNode)} {read : List SecretContent}
    (h : readSnapshotSecrets P listing = .ok read) {s : SecretContent} :
    s ∈ read ↔ ∃ e ∈ listing, readSnapshotEntry P e = .ok (some s) := by
  obtain ⟨-, rfl, -⟩ := readSnapshotSecrets_ok h
  rw [List.mem_filterMap]
  refine exists_congr fun e => and_congr_right fun _ => ?_
  cases readSnapshotEntry P e with
  | error err => exact ⟨nofun, nofun⟩
  | ok o => exact (Except.ok.injEq o (some s)).symm.to_iff

theorem uniqueNames_readSnapshotSecrets {listing : List (JsString × FsNode)} {read : List SecretContent}
    (hdistinct : Distinct Prod.fst listing) (h : readSnapshotSecrets P listing = .ok read) :
    UniqueNames read := by
  obtain ⟨hentries, hread, -⟩ := readSnapshotSecrets_ok h
  have hnames : Distinct (fun s : SecretContent => fileName s.name) read := by
    rw [hread]
    refine hdistinct.filterMap fun e s hs => ?_
    cases he : readSnapshotEntry P e with
    | error err =>
        rw [he] at hs
        cases hs
    | ok o =>
        rw [he] at hs
        have ho : o = some s := hs
        rw [ho] at he
        obtain ⟨raw, rfl, -⟩ := readSnapshotEntry_some he
        rfl
  refine List.Nodup.of_map fileName ?_
  rw [List.map_map]
  exact hnames

/-- What a snapshot gives can be stored. -/
theorem readSnapshotSecrets_storable {listing : List (JsString × FsNode)} {read : List SecretContent}
    (h : readSnapshotSecrets P listing = .ok read) : ∀ s ∈ read, s.Storable := by
  intro s hs
  obtain ⟨e, -, he⟩ := (mem_readSnapshotSecrets h).mp hs
  obtain ⟨raw, -, hname, hdata⟩ := readSnapshotEntry_some he
  exact ⟨hname, Secret.keyed_parseFileContent hdata⟩

/-- **An exported set of secrets reads back, from a listing in any order, as the same map without the
key `__proto__`.** -/
theorem readSnapshotSecrets_export {secrets : List SecretContent}
    (hstorable : ∀ s ∈ secrets, s.Storable) (hP : ∀ s ∈ secrets, P.ParsesBack s.data)
    {listing : List (JsString × FsNode)} (hlisting : listing.Perm (secrets.map snapshotFile)) :
    ∃ read, readSnapshotSecrets P listing = .ok read ∧ read.Perm (secrets.map (restored P)) := by
  have hentry : ∀ e ∈ listing, ∃ s, readSnapshotEntry P e = .ok s := by
    intro e he
    obtain ⟨s, hs, rfl⟩ := List.mem_map.mp (hlisting.mem_iff.mp he)
    exact ⟨_, (readSnapshotEntry_snapshotFile (hstorable s hs) (hP s hs)).1⟩
  have hperm : (listing.filterMap fun e => (readSnapshotEntry P e).toOption.join).Perm
      (secrets.map (restored P)) := by
    refine (hlisting.filterMap _).trans (List.Perm.of_eq ?_)
    rw [List.filterMap_map, ← List.filterMap_eq_map]
    refine List.filterMap_congr fun s hs => ?_
    simp only [Function.comp, (readSnapshotEntry_snapshotFile (hstorable s hs) (hP s hs)).1]
    rfl
  refine ⟨_, ?_, hperm⟩
  rw [readSnapshotSecrets, foldlM_readSnapshotEntry hentry, List.nil_append]
  refine if_neg fun ⟨hnil, hany⟩ => ?_
  have hsecrets : secrets = [] := by
    rw [hnil] at hperm
    exact List.map_eq_nil_iff.mp hperm.nil_eq.symm
  rw [hsecrets] at hlisting
  rw [List.Perm.eq_nil hlisting] at hany
  cases hany

theorem uniqueNames_restored {secrets : List SecretContent} (hunique : UniqueNames secrets) :
    UniqueNames (secrets.map (restored P)) := by
  rw [UniqueNames, Distinct, List.map_map]
  exact hunique

theorem contentMap_restored_eq_iff {secrets : List SecretContent} (hunique : UniqueNames secrets)
    (hstorable : ∀ s ∈ secrets, s.Storable) (hP : ∀ s ∈ secrets, P.ParsesBack s.data) :
    contentMap (secrets.map (restored P)) = contentMap secrets ↔
      ∀ s ∈ secrets, protoKey ∉ s.data.keys := by
  have hget : ∀ s ∈ secrets, (∀ k, (restored P s).data.get? k = s.data.get? k) ↔
      protoKey ∉ s.data.keys := by
    intro s hs
    rw [← get?_eq_none_iff]
    have hr := (readSnapshotEntry_snapshotFile (hstorable s hs) (hP s hs)).2
    constructor
    · intro h
      rw [← h, hr, if_pos rfl]
    · intro h k
      rw [hr]
      split_ifs with hk
      · rw [hk, h]
      · rfl
  constructor
  · intro h s hs
    rw [← hget s hs]
    have hread := (contentMap_eq_some_iff (uniqueNames_restored hunique)).mpr
      ⟨restored P s, List.mem_map_of_mem hs, rfl, rfl⟩
    rw [h] at hread
    obtain ⟨t, ht, hname, hdata⟩ := (contentMap_eq_some_iff hunique).mp hread
    rw [hunique.inj ht hs hname] at hdata
    exact fun k => (congrFun hdata k).symm
  · intro h
    rw [contentMap_eq_iff (uniqueNames_restored hunique) hunique]
    constructor
    · rintro t ht
      obtain ⟨s, hs, rfl⟩ := List.mem_map.mp ht
      exact ⟨s, hs, rfl, fun k => ((hget s hs).mpr (h s hs) k).symm⟩
    · intro s hs
      exact ⟨restored P s, List.mem_map_of_mem hs, rfl, (hget s hs).mpr (h s hs)⟩

/-- An exported directory reads back as the same map, when no secret has a key `__proto__`. -/
theorem readSnapshotSecrets_exported {secrets : List SecretContent} (hunique : UniqueNames secrets)
    (hstorable : ∀ s ∈ secrets, s.Storable) (hP : ∀ s ∈ secrets, P.ParsesBack s.data)
    (hproto : ∀ s ∈ secrets, protoKey ∉ s.data.keys) {dir : Dir} (h : exportSecrets secrets = some dir) :
    ∃ read, readSnapshotSecrets P dir.entries = .ok read ∧ contentMap read = contentMap secrets := by
  obtain ⟨dir', hdir', hentries⟩ := exportSecrets_eq hunique (length_le_of_exportSecrets h)
  obtain rfl : dir = dir' := Option.some.inj (h.symm.trans hdir')
  obtain ⟨read, hread, hperm⟩ := readSnapshotSecrets_export hstorable hP (List.Perm.of_eq hentries)
  have hrestored : contentMap read = contentMap (secrets.map (restored P)) :=
    (contentMap_eq_of_perm (uniqueNames_restored hunique) hperm.symm).symm
  exact ⟨read, hread, hrestored.trans ((contentMap_restored_eq_iff hunique hstorable hP).mpr hproto)⟩

/-- What a push followed by a pull should do to a set of secrets. -/
def PushPullIdentity (P : Platform) (secrets : List SecretContent) : Prop :=
  ∃ dir, exportSecrets secrets = some dir ∧ ∀ listing, dir.Listing listing →
    ∃ read, readSnapshotSecrets P listing = .ok read ∧ contentMap read = contentMap secrets ∧
      computeSecretsHash P read = computeSecretsHash P secrets

theorem pushPullIdentity_iff_restored {secrets : List SecretContent} (hunique : UniqueNames secrets)
    (hstored : ∀ s ∈ secrets, RouteStored s) (hP : ∀ s ∈ secrets, P.ParsesBack s.data) :
    PushPullIdentity P secrets ↔ contentMap (secrets.map (restored P)) = contentMap secrets := by
  have hstorable : ∀ s ∈ secrets, s.Storable := fun s hs => (hstored s hs).storable.1
  have hlen : ∀ s ∈ secrets, s.name.length ≤ 250 := fun s hs =>
    (hstored s hs).storable.2.trans (by decide)
  obtain ⟨dir, hexport, hentries⟩ := exportSecrets_eq hunique hlen
  have hmap : ∀ {read : List SecretContent}, read.Perm (secrets.map (restored P)) →
      contentMap read = contentMap (secrets.map (restored P)) := by
    intro read hperm
    exact (contentMap_eq_of_perm (uniqueNames_restored hunique) hperm.symm).symm
  constructor
  · rintro ⟨dir', hexport', hall⟩
    obtain rfl : dir = dir' := Option.some.inj (hexport.symm.trans hexport')
    obtain ⟨read, hread, hcontent, -⟩ := hall dir.entries (List.Perm.refl _)
    obtain ⟨read', hread', hperm⟩ :=
      readSnapshotSecrets_export hstorable hP (List.Perm.of_eq hentries)
    obtain rfl : read = read' := Except.ok.inj (hread.symm.trans hread')
    rw [← hmap hperm]
    exact hcontent
  · intro h
    refine ⟨dir, hexport, fun listing hlisting => ?_⟩
    obtain ⟨read, hread, hperm⟩ :=
      readSnapshotSecrets_export hstorable hP (hlisting.trans (List.Perm.of_eq hentries))
    have hcontent := (hmap hperm).trans h
    exact ⟨read, hread, hcontent, computeSecretsHash_eq_of_contentMap_eq P
      ((uniqueNames_restored hunique).perm hperm.symm) hunique hcontent⟩

/-- **A push followed by a pull is the identity on what the routes store if and only if no secret has
a key `__proto__`.** -/
theorem pushPullIdentity_iff {secrets : List SecretContent} (hunique : UniqueNames secrets)
    (hstored : ∀ s ∈ secrets, RouteStored s) (hP : ∀ s ∈ secrets, P.ParsesBack s.data) :
    PushPullIdentity P secrets ↔ ∀ s ∈ secrets, protoKey ∉ s.data.keys := by
  rw [pushPullIdentity_iff_restored hunique hstored hP]
  exact contentMap_restored_eq_iff hunique (fun s hs => (hstored s hs).storable.1) hP

end Platform

section Example

/-- A secret that is created with the data `{"A": "1"}`. -/
def created : SecretContent :=
  ⟨js "api", Secret.normalizeData ⟨[(js "A", .str (js "1"))], by decide⟩⟩

/-- The same secret after an update of the single key `__proto__`. -/
def withProto : SecretContent := ⟨js "api", created.data.define (trim protoKey) (js "x")⟩

theorem routeStored_created : RouteStored created := .written (by decide)

theorem routeStored_withProto : RouteStored withProto :=
  @RouteStored.keyUpdated _ protoKey (.str (js "x")) routeStored_created (by decide) rfl

/-- The digest of the text that `created` is hashed as. -/
noncomputable def createdPlatform : Platform :=
  .ofDigests
    [(js "[\x7b\"name\":\"api\",\"data\":\x7b\"A\":\"1\"\x7d\x7d]",
      js "2c6fcd304aa3cfe1b6dbc7bc743e7b8b0f14ee45e35a4697d20dde3da032293d")]

theorem pushPullIdentity_iff_created :
    PushPullIdentity createdPlatform [created] ↔ ∀ s ∈ [created], protoKey ∉ s.data.keys :=
  pushPullIdentity_iff (by decide) (by simpa using routeStored_created)
    fun s _ => Platform.parsesBack_ofDigests _ s.data

/-- The key `__proto__` is stored by a route, written by a push and lost by a pull. -/
theorem not_pushPullIdentity_withProto :
    RouteStored withProto ∧ ¬ PushPullIdentity createdPlatform [withProto] := by
  have hstored : ∀ s ∈ [withProto], RouteStored s := by simpa using routeStored_withProto
  have hP : ∀ s ∈ [withProto], createdPlatform.ParsesBack s.data := fun s _ =>
    Platform.parsesBack_ofDigests _ s.data
  refine ⟨routeStored_withProto, ?_⟩
  rw [pushPullIdentity_iff_restored (by decide) hstored hP,
    contentMap_restored_eq_iff (by decide) (fun s hs => (hstored s hs).storable.1) hP]
  decide

end Example

end SecretsManager
