import SecretsManager.Js.KeyOrder
import SecretsManager.Secrets.SecretRequests
import SecretsManager.Secrets.LocalChanges

/-!
# Secrets that can be saved back

A stored secret that the web client sends back unchanged should be accepted and stay as it is. The ways into
the database check names and keys by code of their own: a snapshot file may have a longer name than the
routes accept, and the update of a single key stores `__proto__`, which a full update drops. Any other stored
secret can be saved back.
-/

namespace SecretsManager

open Js Interleaving SortedBy Sql JsObject

variable {R : Type} {restic : Restic R} {P : Platform} {timeouts : ResticTimeouts} {admits : Operation → Prop}

/-! ## Stored contents -/

/-- What every way into the database leaves. -/
structure Secret.Ingested (s : Secret) : Prop where
  storable : s.toSecretContent.Storable
  ordered : s.data.Ordered
  version : 1 ≤ s.version

/-- A name within the limit of the routes, and no key that an assignment swallows. -/
def SecretContent.Acceptable (s : SecretContent) : Prop := s.name.length ≤ 200 ∧ protoKey ∉ s.data.keys

instance (s : SecretContent) : Decidable s.Acceptable := inferInstanceAs (Decidable (_ ∧ _))

namespace Secret

theorem trim_ne_nil_of_isValidName {name : JsString} (h : isValidName name = true) : trim name ≠ [] := by
  intro hnil
  cases name with
  | nil => cases h
  | cons c rest =>
      have hc : isAsciiLetterOrDigit c = true := (Bool.and_eq_true_iff.mp h).1
      have hspace : isWhiteSpace c = false := by
        simp only [isAsciiLetterOrDigit, Bool.or_eq_true, Bool.and_eq_true, decide_eq_true_eq] at hc
        simp only [isWhiteSpace, Bool.or_eq_false_iff, Bool.and_eq_false_iff, decide_eq_false_iff_not,
          beq_eq_false_iff_ne]
        omega
      rw [trim_cons hspace] at hnil
      cases hnil

/-- A stored name passes the check when it is short enough. -/
theorem validateName_stored {name : JsString} (h : isValidName name = true) :
    validateName (.str name) = [] ↔ name.length ≤ 200 := by
  rw [validateName, if_neg (trim_ne_nil_of_isValidName h), if_neg (by rw [h]; decide)]
  by_cases hlen : 200 < name.length
  · rw [if_pos hlen]
    exact ⟨fun hnil => (List.cons_ne_nil _ _ hnil).elim, fun hle => absurd hlen (not_lt.mpr hle)⟩
  · rw [if_neg hlen]
    exact ⟨fun _ => not_lt.mp hlen, fun _ => rfl⟩

theorem validate_stored {s : SecretContent} (h : s.Storable) :
    validate (.str s.name) (some s.data.toJson) = [] ↔ s.name.length ≤ 200 := by
  have hentries : (s.data.entries.map fun p => (p.1, JsValue.str p.2)).flatMap validateEntry = [] := by
    refine List.flatMap_eq_nil_iff.mpr fun p hp => ?_
    obtain ⟨q, hq, rfl⟩ := List.mem_map.mp hp
    have hkey : q.1 ≠ [] := fun hnil => h.keyed (hnil ▸ List.mem_map_of_mem hq)
    have hscalar : (JsValue.str q.2).isScalar = true := rfl
    rw [validateEntry, if_neg hkey, if_pos hscalar]
  have hvalidate : validate (.str s.name) (some s.data.toJson) =
      validateName (.str s.name) ++ (s.data.entries.map fun p => (p.1, JsValue.str p.2)).flatMap validateEntry := rfl
  rw [hvalidate, hentries, List.append_nil]
  exact validateName_stored h.name

/-- The data comes out of the normalization as it is stored when no key is swallowed. -/
theorem normalizedData_stored {data : SecretData} (h : data.Ordered) :
    normalizedData (some data.toJson) = data ↔ protoKey ∉ data.keys := by
  constructor
  · intro heq
    rw [← heq]
    exact protoKey_notMem_normalizeData _
  · intro hproto
    have hfold : ∀ (l : List (JsString × JsString)) (o : SecretData),
        (l.map fun p => (p.1, JsValue.str p.2)).foldl normalizeEntry o = l.foldl (fun o p => o.set p.1 p.2) o := by
      intro l
      induction l with
      | nil => exact fun _ => rfl
      | cons p l ih => exact fun o => ih _
    have hdata : normalizedData (some data.toJson) =
        data.entries.foldl (fun o p => o.set p.1 p.2) (JsObject.empty : SecretData) :=
      hfold data.entries JsObject.empty
    rw [hdata, h.foldl_set_self hproto]

theorem ordered_normalizeData (props : JsObject JsValue) : (normalizeData props).Ordered := by
  have hfold : ∀ (l : List (JsString × JsValue)) (o : SecretData), o.Ordered → (l.foldl normalizeEntry o).Ordered := by
    intro l
    induction l with
    | nil => exact fun _ ho => ho
    | cons p l ih =>
        intro o ho
        refine ih _ ?_
        unfold normalizeEntry
        split_ifs
        · exact ho.set _ _
        · exact ho
  exact hfold _ _ ordered_empty

/-- What a snapshot file gives is in order and has no key that an assignment swallows. -/
theorem parsed_parseFileContent {raw : JsString} {data : SecretData} (h : parseFileContent P raw = .ok data) :
    data.Ordered ∧ protoKey ∉ data.keys := by
  have hfold : ∀ (l : List (JsString × JsValue)) (o : SecretData), o.Ordered ∧ protoKey ∉ o.keys →
      l.foldlM parseEntry o = .ok data → data.Ordered ∧ protoKey ∉ data.keys := by
    intro l
    induction l with
    | nil =>
        intro o ho hl
        rwa [← Except.ok.inj hl]
    | cons p l ih =>
        intro o ho hl
        rw [List.foldlM_cons, parseEntry] at hl
        split_ifs at hl with hempty hscalar
        · cases hl
        · refine ih _ ⟨ho.1.set _ _, ?_⟩ hl
          unfold JsObject.set
          split_ifs with hproto
          · exact ho.2
          · intro hmem
            rcases mem_keys_define.mp hmem with hk | hk
            · exact hproto ⟨hk.symm, Bool.eq_false_iff.mpr fun hown => ho.2 (hasOwn_iff.mp (hk ▸ hown))⟩
            · exact ho.2 hk
        · cases hl
  unfold parseFileContent at h
  split at h
  · cases h
  · exact hfold _ _ ⟨ordered_empty, by simp [keys, JsObject.empty]⟩ h
  · cases h
  · cases h

end Secret

/-! ## The update that sends a secret back -/

/-- The stored name and data, with the version that was read. -/
def Secret.saveBack (s : Secret) : SecretBody where
  name := some (.str s.name)
  data := some s.data.toJson
  version := some (.num ⟨js (toString s.version), some s.version⟩)
  key := none
  value := none

/-- The same secret with the next version and its date. -/
def Secret.stamped (s : Secret) (dateUpdated : JsString) : Secret :=
  { s with dateUpdated := dateUpdated, version := s.version + 1 }

/-- Follows the database of an operation that runs alone and meets no failure. -/
def alone : Monitor Cmd Cmd.Answer Db where
  step db c _ :=
    match c with
    | .transact tx =>
        match tx.commit db with
        | .ok (db', _) => db'
        | .error _ => db
    | _ => db
  allows _ _ := True
  expects db c a :=
    match c, a with
    | .projectsGet id, a => a = .ok (db.project? id)
    | .projectsGetByName name, a => a = .ok (db.projects.find? fun p => p.name = name)
    | .projectsList, a => ∃ rows, a = .ok rows ∧ rows.Perm db.projects
    | .secretsList projectId, a => ∃ rows, a = .ok rows ∧ rows.Perm (db.rows projectId)
    | .secretsGet id, a => a = .ok (db.secret? id)
    | .transact tx, a => a = (tx.commit db).map Prod.snd
    | .acquire _, a => a = .ok ()
    | _, _ => True

/-- The secret has its next version, and the project the hash of the same rows. -/
def StampedDb (P : Platform) (db : Db) (s : Secret) (dateUpdated : JsString) (db' : Db) : Prop :=
  db'.secrets = db.secrets.map (fun r => if r.id = s.id then s.stamped dateUpdated else r) ∧
    db'.projects = db.projects.map fun p =>
      if p.id = s.projectId then { p with currentContentHash := rowsHash P (db.rows s.projectId) } else p

/-- The secret passes the checks as it is stored, and the update that sends it back is accepted and changes
its version and the date of that only. -/
structure SavesBack (P : Platform) (db : Db) (s : Secret) : Prop where
  valid : Secret.validate (.str s.name) (some s.data.toJson) = []
  normalized : normalizedData (some s.data.toJson) = s.data
  accepted : (updateSecret P s.projectId s.id s.saveBack).Meets alone db fun r db' =>
    ∃ dateUpdated, r = .ok ⟨200, .secret (s.stamped dateUpdated)⟩ ∧ StampedDb P db s dateUpdated db'

section Accepted
variable {db : Db} {s : Secret}

theorem parseVersion_saveBack (h : 1 ≤ s.version) : parseVersion s.saveBack.version = some s.version := by
  have hpos : (1 : Int) ≤ s.version := by omega
  show (if (1 : Int) ≤ s.version then some (s.version : Int).toNat else none) = some s.version
  rw [if_pos hpos, Int.toNat_natCast]

theorem matchesVersion_self (s : Secret) : matchesVersion s.id s.projectId s.version s = true := by
  simp [matchesVersion]

/-- An update that keeps the content commits. -/
theorem commit_stamped (hs : s ∈ db.secrets) (dateUpdated hash : JsString) : ∃ db',
    (Transaction.secretsDataUpdate s.id s.projectId s.toSecretContent dateUpdated s.version hash).commit db =
        .ok (db', 1) ∧
      db'.secrets = db.secrets.map (fun r => if r.id = s.id then s.stamped dateUpdated else r) ∧
      db'.projects = db.projects.map fun p =>
        if p.id = s.projectId then { p with currentContentHash := hash } else p := by
  have hdb := db.valid
  have hcount : db.secrets.countP (matchesVersion s.id s.projectId s.version) = 1 :=
    le_antisymm (Transaction.countP_matchesVersion_le hdb.secretId _ _ _)
      (List.countP_pos_iff.mpr ⟨s, hs, matchesVersion_self s⟩)
  have hrun : (Transaction.secretsDataUpdate s.id s.projectId s.toSecretContent dateUpdated s.version hash).run
      db.toTables = (updateCurrentHash s.projectId hash
        (Sql.updateSecret s.id s.projectId s.version s.toSecretContent dateUpdated db.toTables), 1) := by
    rw [Transaction.run, hcount, if_pos rfl]
  -- only the row of the secret matches, and its name stays
  have hrow : ∀ r ∈ db.secrets, (if matchesVersion s.id s.projectId s.version r then
      updatedSecret s.toSecretContent dateUpdated r else r) = if r.id = s.id then s.stamped dateUpdated else r := by
    intro r hr
    by_cases hid : r.id = s.id
    · obtain rfl : r = s := hdb.secretId.inj hr hs hid
      rw [if_pos (matchesVersion_self r), if_pos rfl]
      rfl
    · rw [if_neg (by simp [matchesVersion, hid]), if_neg hid]
  have hsecrets : (Sql.updateSecret s.id s.projectId s.version s.toSecretContent dateUpdated db.toTables).secrets =
      db.secrets.map fun r => if r.id = s.id then s.stamped dateUpdated else r := List.map_congr_left hrow
  have hkeep : ∀ {β : Type} (f : Secret → β), f (s.stamped dateUpdated) = f s →
      (db.secrets.map fun r => if r.id = s.id then s.stamped dateUpdated else r).map f = db.secrets.map f := by
    intro β f hf
    rw [List.map_map]
    refine List.map_congr_left fun r hr => ?_
    by_cases hid : r.id = s.id
    · obtain rfl : r = s := hdb.secretId.inj hr hs hid
      simp only [Function.comp, if_pos]
      exact hf
    · simp only [Function.comp, if_neg hid]
  have hprojects : ∀ {β : Type} (f : Project → β), (∀ p : Project, f { p with currentContentHash := hash } = f p) →
      (db.projects.map fun p => if p.id = s.projectId then { p with currentContentHash := hash } else p).map f =
        db.projects.map f := by
    intro β f hf
    rw [List.map_map]
    refine List.map_congr_left fun p _ => ?_
    simp only [Function.comp]
    split_ifs
    · exact hf p
    · rfl
  have hvalid : (updateCurrentHash s.projectId hash
      (Sql.updateSecret s.id s.projectId s.version s.toSecretContent dateUpdated db.toTables)).Valid := by
    have hids := hprojects Project.id fun _ => rfl
    refine ⟨?_, ?_, ?_, ?_, fun r hr => ?_⟩
    · exact (congrArg List.Nodup hids).mpr hdb.projectId
    · exact (congrArg List.Nodup (hprojects Project.name fun _ => rfl)).mpr hdb.projectName
    · show ((Sql.updateSecret _ _ _ _ _ _).secrets.map Secret.id).Nodup
      rw [hsecrets, hkeep Secret.id rfl]
      exact hdb.secretId
    · show ((Sql.updateSecret _ _ _ _ _ _).secrets.map fun r => (r.projectId, r.name)).Nodup
      rw [hsecrets, hkeep (fun r => (r.projectId, r.name)) rfl]
      exact hdb.secretName
    · have hmem : r.projectId ∈ (Sql.updateSecret s.id s.projectId s.version s.toSecretContent dateUpdated
          db.toTables).secrets.map Secret.projectId := List.mem_map_of_mem hr
      rw [hsecrets, hkeep Secret.projectId rfl] at hmem
      obtain ⟨r', hr', hproject⟩ := List.mem_map.mp hmem
      exact hids.symm ▸ hproject ▸ hdb.foreignKey r' hr'
  refine ⟨⟨_, hvalid⟩, ?_, hsecrets, rfl⟩
  unfold Transaction.commit
  rw [dif_pos (by rw [hrun]; exact hvalid)]
  congr 2
  exact Db.ext_tables (congrArg Prod.fst hrun)

theorem alone_projectsDataGet {id : JsString} {Q : Except Failure (Option Project) → Db → Prop}
    (h : Q (.ok (db.project? id)) db) : (projectsDataGet id).Meets alone db Q := by
  rw [projectsDataGet, meets_bind, meets_lift]
  refine ⟨trivial, fun a ha => ?_⟩
  rw [show a = .ok (db.project? id) from ha, then_ok, meets_ofExcept]
  exact h

theorem alone_secretsList {projectId : JsString} {Q : Except Failure (List Secret) → Db → Prop}
    (h : ∀ rows, rows.Perm (db.rows projectId) → Q (.ok rows) db) :
    (secretsDataListForProject projectId).Meets alone db Q := by
  rw [secretsDataListForProject, meets_bind, meets_lift]
  refine ⟨trivial, fun a ha => ?_⟩
  obtain ⟨rows, rfl, hrows⟩ := ha
  rw [then_ok, meets_ofExcept]
  exact h rows hrows

theorem alone_transact {tx : Transaction} {db' : Db} {n : Nat} {Q : Except Failure Nat → Db → Prop}
    (hcommit : tx.commit db = .ok (db', n)) (h : Q (.ok n) db') : (Op.transact tx).Meets alone db Q := by
  rw [Op.transact, meets_bind, meets_lift]
  refine ⟨trivial, fun a ha => ?_⟩
  have hanswer : a = (tx.commit db).map Prod.snd := ha
  have hstep : alone.step db (.transact tx) a = db' := by
    show (match tx.commit db with | .ok (db', _) => db' | .error _ => db) = db'
    rw [hcommit]
  rw [hcommit] at hanswer
  rw [hstep, hanswer, then_ok, meets_ofExcept]
  exact h

/-- The update of a secret with the content that it has. -/
theorem saveBack_stores (hs : s ∈ db.secrets) {changed : Secret} {hash : JsString} (hchanged : changed = s)
    (hhash : hash = rowsHash P (db.rows s.projectId)) :
    (secretsDataUpdate changed s.version hash >>= fun status => pure status.outcome : Op SecretOutcome).Meets alone db
      fun r db' => ∃ dateUpdated, r = .ok (.updated (s.stamped dateUpdated)) ∧ StampedDb P db s dateUpdated db' := by
  subst hchanged hhash
  rw [meets_bind, secretsDataUpdate, meets_bind, Op.now, meets_lift]
  refine ⟨trivial, fun dateUpdated _ => ?_⟩
  obtain ⟨db', hcommit, hstamped⟩ := commit_stamped hs dateUpdated (rowsHash P (db.rows changed.projectId))
  rw [then_ok, meets_bind]
  refine alone_transact hcommit ?_
  rw [then_ok, if_pos rfl, meets_pure, then_ok, meets_pure]
  exact ⟨dateUpdated, rfl, hstamped⟩

/-- The section finds the secret, and what it stores is the content that it has read. -/
theorem saveBack_section (hs : s ∈ db.secrets)
    (hvalid : Secret.validate (.str s.name) (some s.data.toJson) = [])
    (hdata : normalizedData (some s.data.toJson) = s.data) :
    (updateSecretSection P s.projectId s.id s.version s.saveBack).Meets alone db fun r db' =>
      ∃ dateUpdated, r = .ok (.updated (s.stamped dateUpdated)) ∧ StampedDb P db s dateUpdated db' := by
  obtain ⟨p, hp, hpid⟩ := List.mem_map.mp (db.valid.foreignKey s hs)
  have hproject : db.project? s.projectId = some p := (Tables.project?_eq_some db.valid).mpr ⟨hp, hpid⟩
  rw [updateSecretSection, meets_bind]
  refine alone_projectsDataGet ?_
  rw [then_ok, hproject]
  dsimp only
  rw [meets_bind]
  refine alone_secretsList fun rows hrows => ?_
  have hrow : s ∈ rows := hrows.mem_iff.mpr (Tables.mem_rows.mpr ⟨hs, rfl⟩)
  have hunique : ∀ r ∈ rows, r.id = s.id → r = s := fun r hr hid =>
    db.valid.secretId.inj (Tables.mem_rows.mp (hrows.mem_iff.mp hr)).1 hs hid
  have hfind : rows.find? (fun candidate => candidate.id = s.id) = some s := by
    cases hf : rows.find? fun candidate => candidate.id = s.id with
    | none => exact absurd (decide_eq_true rfl) (List.find?_eq_none.mp hf s hrow)
    | some r => rw [hunique r (List.mem_of_find?_eq_some hf) (by simpa using List.find?_some hf)]
  rw [then_ok, hfind]
  refine meets_ite (fun herrors => ?_) fun _ => meets_ite (fun hname => absurd rfl hname.1) fun _ => ?_
  · have hzero : (Secret.validate (.str s.name) (some s.data.toJson)).length = 0 := by rw [hvalid]; rfl
    exact absurd hzero (Nat.ne_of_gt herrors)
  · have hchanged : ({ s with name := stringOf (.str s.name), data := normalizedData (some s.data.toJson) } : Secret) =
        s := by
      rw [hdata]
      rfl
    have hsame : changeSecret rows s = rows := by
      refine (List.map_congr_left fun r hr => ?_).trans (List.map_id rows)
      split_ifs with hid
      · exact (hunique r hr hid).symm
      · rfl
    refine saveBack_stores hs hchanged ((congrArg (fun r => rowsHash P (changeSecret rows r)) hchanged).trans ?_)
    rw [hsame]
    exact rowsHash_perm P ((db.valid.uniqueNames s.projectId).perm (hrows.map _).symm) hrows

/-- **A stored secret can be saved back exactly when its name is short enough and no key is swallowed.** -/
theorem savesBack_iff_acceptable (hs : s ∈ db.secrets) (h : s.Ingested) :
    SavesBack P db s ↔ s.toSecretContent.Acceptable := by
  constructor
  · intro hsaves
    exact ⟨(Secret.validate_stored h.storable).mp hsaves.valid, (Secret.normalizedData_stored h.ordered).mp hsaves.normalized⟩
  · intro ⟨hname, hproto⟩
    have hvalid := (Secret.validate_stored h.storable).mpr hname
    have hdata := (Secret.normalizedData_stored h.ordered).mpr hproto
    refine ⟨hvalid, hdata, ?_⟩
    have hversion := parseVersion_saveBack h.version
    unfold updateSecret
    rw [hversion]
    refine meets_ite (fun hnone => by cases hnone.1) fun _ => ?_
    rw [meets_tryCatch, meets_bind, projectWriteLocksRun, dbUtilsWithLock, meets_bind, meets_lift]
    refine ⟨trivial, fun held hheld => ?_⟩
    rw [show held = .ok () from hheld, then_ok, meets_bind, meets_ofExcept, then_ok, meets_tryFinally]
    refine (saveBack_section hs hvalid hdata).mono fun r db' hr => ?_
    obtain ⟨dateUpdated, rfl, hstamped⟩ := hr
    refine meets_lift.mpr ⟨trivial, fun _ _ => ?_⟩
    rw [then_ok, meets_ofExcept]
    exact ⟨dateUpdated, rfl, hstamped⟩

end Accepted

/-! ## Where a stored secret comes from -/

/-- A row that a transaction of an operation leaves and that was not there before, with what it is made from. -/
inductive StoredFrom (P : Platform) (op : Operation) (v : View) (db : Db) : Transaction → Secret → Prop where
  | created {secret : Secret} {hash projectId body} : op = .createSecret projectId body →
      Secret.validate (orEmpty body.name) body.data = [] →
      secret.toSecretContent = ⟨stringOf (orEmpty body.name), normalizedData body.data⟩ → secret.version = 1 →
      StoredFrom P op v db (.secretsDataAdd secret hash) secret
  | changed {s : Secret} {rows id projectId content dateUpdated version hash} : s ∈ db.secrets →
      matchesVersion id projectId version s = true → ChangedByRequest op rows s content →
      StoredFrom P op v db (.secretsDataUpdate id projectId content dateUpdated version hash)
        (updatedSecret content dateUpdated s)
  | restored {secret : Secret} {projectId secrets state id snapshotId listing read} :
      v.restored = some (id, snapshotId, listing) → readSnapshotSecrets P listing = .ok read →
      secret.toSecretContent ∈ read → secret.version = 1 →
      StoredFrom P op v db (.secretsDataReplaceForProject projectId secrets state) secret

/-- The `.json` files of a listing have names that the routes accept. -/
def ShortFileNames (listing : List (JsString × FsNode)) : Prop :=
  ∀ entry ∈ listing, entry.2.isFile = true → endsWith entry.1 (js ".json") = true →
    entry.1.length - (js ".json").length ≤ 200

/-- The transaction stores no long name of a snapshot file, and the key `__proto__` in no row. -/
def SavableTransaction (op : Operation) (v : View) (db : Db) : Transaction → Prop
  | .secretsDataReplaceForProject _ _ _ => ∀ projectId snapshotId listing,
      v.restored = some (projectId, snapshotId, listing) → ShortFileNames listing
  | .secretsDataUpdate id projectId _ _ version _ => (∃ s ∈ db.secrets, matchesVersion id projectId version s = true) →
      ∀ projectId secretId body, op = .updateSecretKey projectId secretId body → requestedKey body ≠ protoKey
  | _ => True

section StoredFrom
variable {t : Nat} {op : Operation} {v : View} {w : World R} {tx : Transaction} {s' : Secret} {db : Db}

theorem storedFrom_of_mem (hk : Knows restic t op v w) (hallows : AllowsTransaction P op v tx)
    (hrequest : ByRequest op v tx) (h : s' ∈ (tx.run w.db.toTables).1.secrets) :
    s' ∈ w.db.secrets ∨ StoredFrom P op v w.db tx s' := by
  cases tx with
  | secretsDataAdd secret hash =>
      rcases List.mem_append.mp h with h | h
      · exact Or.inl h
      · obtain ⟨-, -, projectId, body, hop, hvalid, hcontent⟩ := hrequest
        rw [List.mem_singleton.mp h]
        exact Or.inr (.created hop hvalid hcontent hallows.2.2.1)
  | secretsDataUpdate id projectId content dateUpdated version hash =>
      rw [Transaction.secrets_run_update] at h
      obtain ⟨s, hs, rfl⟩ := List.mem_map.mp h
      obtain ⟨rows, r, hlists, hr, hrid, hchange⟩ := hrequest
      split_ifs with hmatch
      · -- the row with the id is the one of the list
        have hid : s.id = id := by
          simp only [matchesVersion, Bool.and_eq_true, decide_eq_true_eq] at hmatch
          exact hmatch.1.1
        have hrow := (Tables.mem_rows.mp ((hk.list hlists).mem_iff.mp hr)).1
        obtain rfl : r = s := w.db.valid.secretId.inj hrow hs (hrid.trans hid.symm)
        exact Or.inr (.changed hrow hmatch hchange)
      · exact Or.inl hs
  | secretsDataReplaceForProject projectId secrets state =>
      rw [Transaction.secrets_run_replace] at h
      rcases List.mem_append.mp h with h | h
      · exact Or.inl (List.mem_of_mem_filter h)
      · obtain ⟨listing, hrestored, hread⟩ := hallows.content
        exact Or.inr (.restored hrestored hread (List.mem_map_of_mem h) (hallows.fresh s' h).2.1)
  | projectsDataDeleteCascade projectId | secretsDataDelete id projectId hash =>
      exact Or.inl (List.mem_of_mem_filter h)
  | _ => exact Or.inl h

theorem ordered_normalizedData (data : Option Json) : (normalizedData data).Ordered := by
  cases data with
  | none => exact ordered_empty
  | some data =>
      cases data with
      | object props => exact Secret.ordered_normalizeData props
      | _ => exact ordered_empty

/-- What a snapshot gives is in order and has no key that an assignment swallows. -/
theorem parsed_readSnapshotSecrets {listing : List (JsString × FsNode)} {read : List SecretContent}
    (h : readSnapshotSecrets P listing = .ok read) {s : SecretContent} (hs : s ∈ read) :
    s.data.Ordered ∧ protoKey ∉ s.data.keys := by
  obtain ⟨e, -, he⟩ := (mem_readSnapshotSecrets h).mp hs
  obtain ⟨raw, -, -, hdata⟩ := readSnapshotEntry_some he
  exact Secret.parsed_parseFileContent hdata

/-- Every way into the database leaves a content that can be stored, in order. -/
theorem StoredFrom.ingested (hdb : ∀ s ∈ db.secrets, s.Ingested) (h : StoredFrom P op v db tx s') : s'.Ingested := by
  cases h with
  | created hop hvalid hcontent hversion =>
      refine ⟨?_, ?_, hversion.ge⟩
      · rw [hcontent]
        exact storable_of_validate hvalid
      · rw [hcontent]
        exact ordered_normalizedData _
  | @changed s rows id projectId content dateUpdated version hash hs hmatch hchange =>
      have hold := hdb s hs
      have hnew : content.Storable ∧ content.data.Ordered := by
        cases op with
        | updateSecret projectId secretId body =>
            obtain ⟨hvalid, rfl, -⟩ := hchange
            refine ⟨storable_of_validate_update hold.storable hvalid, ?_⟩
            unfold requestedContent
            split_ifs
            · exact ordered_normalizedData _
            · exact hold.ordered
        | updateSecretKey projectId secretId body =>
            obtain ⟨hkey, value, rfl⟩ := hchange
            exact ⟨storable_define hold.storable (fun hlen => hkey (List.length_eq_zero_iff.mp hlen)) value,
              hold.ordered.define _ _⟩
        | _ => exact hchange.elim
      exact ⟨hnew.1, hnew.2, Nat.le_add_left 1 s.version⟩
  | restored hrestored hread hmem hversion =>
      exact ⟨readSnapshotSecrets_storable hread _ hmem, (parsed_readSnapshotSecrets hread hmem).1, hversion.ge⟩

theorem protoKey_notMem_normalizedData (data : Option Json) : protoKey ∉ (normalizedData data).keys := by
  have hempty : protoKey ∉ (JsObject.empty : SecretData).keys := by simp [keys, JsObject.empty]
  cases data with
  | none => exact hempty
  | some data =>
      cases data with
      | object props => exact Secret.protoKey_notMem_normalizeData props
      | _ => exact hempty

theorem length_of_validate {name : JsValue} {data : Option Json} (h : Secret.validate name data = []) :
    (stringOf name).length ≤ 200 := by
  obtain ⟨s, props, rfl, -, hlen, -⟩ := Secret.validate_eq_nil h
  exact hlen

/-- A savable transaction stores contents that can be saved back. -/
theorem StoredFrom.acceptable (hdb : ∀ s ∈ db.secrets, s.toSecretContent.Acceptable)
    (hsavable : SavableTransaction op v db tx) (h : StoredFrom P op v db tx s') : s'.toSecretContent.Acceptable := by
  cases h with
  | created hop hvalid hcontent hversion =>
      rw [hcontent]
      exact ⟨length_of_validate hvalid, protoKey_notMem_normalizedData _⟩
  | @changed s rows id projectId content dateUpdated version hash hs hmatch hchange =>
      have hold := hdb s hs
      show content.Acceptable
      cases op with
      | updateSecret projectId secretId body =>
          obtain ⟨hvalid, rfl, -⟩ := hchange
          refine ⟨length_of_validate hvalid, ?_⟩
          unfold requestedContent
          dsimp only
          split_ifs
          · exact protoKey_notMem_normalizedData _
          · exact hold.2
      | updateSecretKey projectId secretId body =>
          obtain ⟨-, value, rfl⟩ := hchange
          refine ⟨hold.1, fun hmem => ?_⟩
          rcases mem_keys_define.mp hmem with hkey | hkey
          · exact hsavable ⟨s, hs, hmatch⟩ projectId secretId body rfl hkey.symm
          · exact hold.2 hkey
      | _ => exact hchange.elim
  | restored hrestored hread hmem hversion =>
      obtain ⟨e, he, hentry⟩ := (mem_readSnapshotSecrets hread).mp hmem
      obtain ⟨raw, rfl, -⟩ := readSnapshotEntry_some hentry
      have hshort := hsavable _ _ _ hrestored _ he rfl ((endsWith_iff _ _).mpr (List.suffix_append _ _))
      refine ⟨?_, (parsed_readSnapshotSecrets hread hmem).2⟩
      rwa [fileName, List.length_append, Nat.add_sub_cancel] at hshort

/-- A transaction that leaves only contents that can be saved back was savable. -/
theorem savable_of_acceptable (hk : Knows restic t op v w) (hallows : AllowsTransaction P op v tx)
    (hrequest : ByRequest op v tx)
    (h : ∀ s ∈ (tx.run w.db.toTables).1.secrets, s.toSecretContent.Acceptable) :
    SavableTransaction op v w.db tx := by
  cases tx with
  | secretsDataUpdate id projectId content dateUpdated version hash =>
      rintro ⟨s, hs, hmatch⟩ projectId' secretId body rfl hkey
      obtain ⟨rows, r, hlists, hr, hrid, hchange⟩ := hrequest
      obtain ⟨-, value, rfl⟩ := hchange
      have hmem : updatedSecret ⟨r.name, r.data.define (requestedKey body) value⟩ dateUpdated s ∈
          ((Transaction.secretsDataUpdate id projectId ⟨r.name, r.data.define (requestedKey body) value⟩ dateUpdated
            version hash).run w.db.toTables).1.secrets := by
        rw [Transaction.secrets_run_update]
        exact List.mem_map.mpr ⟨s, hs, if_pos hmatch⟩
      exact (h _ hmem).2 (mem_keys_define.mpr (Or.inl hkey.symm))
  | secretsDataReplaceForProject projectId secrets state =>
      intro id snapshotId listing hrestored entry hentry hfile hends
      obtain ⟨listing', hrestored', hread⟩ := hallows.content
      obtain ⟨-, -, rfl⟩ : id = projectId ∧ snapshotId = state.snapshotId ∧ listing = listing' := by
        simpa using hrestored.symm.trans hrestored'
      obtain ⟨o, ho⟩ := (readSnapshotSecrets_ok hread).1 entry hentry
      cases o with
      | none => exact absurd ho (readSnapshotEntry_ne_none hfile hends)
      | some content =>
          obtain ⟨secret, hsecret, rfl⟩ := List.mem_map.mp ((mem_readSnapshotSecrets hread).mpr ⟨entry, hentry, ho⟩)
          obtain ⟨raw, rfl, -⟩ := readSnapshotEntry_some ho
          have hmem : secret ∈ ((Transaction.secretsDataReplaceForProject projectId secrets state).run
              w.db.toTables).1.secrets := by
            rw [Transaction.secrets_run_replace]
            exact List.mem_append_right _ hsecret
          rw [fileName, List.length_append, Nat.add_sub_cancel]
          exact (h secret hmem).1
  | _ => trivial

end StoredFrom

/-! ## Over runs -/

section Runs
variable {repository : R} {cfg : Config (World R) Cmd Cmd.Answer Failure Response Operation}

theorem savedOutline (P : Platform) (timeouts : ResticTimeouts) (restic : Restic R) (admits : Operation → Prop) :
    Outline (server P timeouts restic admits) (fun op => (sections P op).prod (requests op)) (.start, .start)
      (fun w => Inv w ∧ True) (fun t op x w => Knows restic t op x.1 w ∧ True)
      fun op r x => Outcome P op r x.1 ∧ True :=
  (serverOutline P timeouts restic admits).prod
    (@requestsOutline R P timeouts restic admits (fun _ => True) trivial fun _ _ => trivial)

/-- The step commits nothing that cannot be saved back. -/
def SavableStep (op : Operation) (earlier : List (ServerEvent R)) (e : ServerEvent R) : Prop :=
  ∀ tx n, committed? e = some (tx, n) → SavableTransaction op (viewAfter earlier) e.before.db tx

def AllSaveBack (P : Platform) (db : Db) : Prop := ∀ s ∈ db.secrets, SavesBack P db s

/-- Every stored secret can be saved back, now and in every state in the past of the operations. -/
def SavesBackThroughout (P : Platform) (cfg : Config (World R) Cmd Cmd.Answer Failure Response Operation) : Prop :=
  AllSaveBack P cfg.world.db ∧
    ∀ th ∈ cfg.threads, ∀ e ∈ th.trace, AllSaveBack P e.before.db ∧ AllSaveBack P e.after.db

/-- What the two disciplines say of an event that has committed. -/
theorem committed_requests {t : Nat} {op : Operation} {earlier : List (ServerEvent R)} {e : ServerEvent R}
    (h : Happened (server P timeouts restic admits) (fun op => (sections P op).prod (requests op)) (.start, .start)
      (fun w => Inv w ∧ True) (fun t op x w => Knows restic t op x.1 w ∧ True) t op earlier e)
    {tx : Transaction} {n : Nat} (hcommitted : committed? e = some (tx, n)) :
    Knows restic t op (viewAfter earlier) e.before ∧ AllowsTransaction P op (viewAfter earlier) tx ∧
      ByRequest op (viewAfter earlier) tx ∧ e.after.db.toTables = (tx.run e.before.db.toTables).1 := by
  obtain ⟨w, w', rfl⟩ := committed?_eq_some hcommitted
  have hexec : Exec restic t w (.transact tx) (.ok n) w' := h.exec
  have hassert := h.assert
  have hallowed := h.allowed
  rw [Monitor.prod_after] at hassert hallowed
  refine ⟨hassert.1, hallowed.1, hallowed.2.2 tx rfl, ?_⟩
  rw [(exec_committed hexec).1]

/-- What every stored secret of a run has, when the steps keep it for the secrets that they store. -/
theorem stored_throughout {I : Secret → Prop}
    {Cond : Nat → Operation → List (ServerEvent R) → ServerEvent R → Prop} {db : Db}
    (hnew : ∀ {t op earlier e tx n s}, Cond t op earlier e → committed? e = some (tx, n) →
      (∀ s ∈ e.before.db.secrets, I s) → StoredFrom P op (viewAfter earlier) e.before.db tx s → I s)
    (hstart : ∀ s ∈ db.secrets, I s)
    (h : (server P timeouts restic admits).Reachable (.initial db repository) cfg) (hsteps : System.Past Cond cfg) :
    (∀ s ∈ cfg.world.db.secrets, I s) ∧ ∀ th ∈ cfg.threads, ∀ e ∈ th.trace,
      (∀ s ∈ e.before.db.secrets, I s) ∧ ∀ s ∈ e.after.db.secrets, I s := by
  refine (savedOutline P timeouts restic admits).invariant (J := fun w => ∀ s ∈ w.db.secrets, I s)
    (fun {t op earlier e} hpast hcond _ hbefore => ?_) ?_ ⟨inv_initial db repository, trivial⟩ hstart h hsteps
  · have hhappened := hpast earlier e [] rfl
    cases hcommitted : committed? e with
    | none => rwa [exec_db hhappened.exec hcommitted]
    | some x =>
        obtain ⟨hk, hallows, hrequest, htables⟩ := committed_requests hhappened hcommitted
        intro s hs
        rw [htables] at hs
        rcases storedFrom_of_mem hk hallows hrequest hs with hold | hstored
        · exact hbefore s hold
        · exact hnew hcond hcommitted hbefore hstored
  · rintro w w' - ⟨r, -, rfl⟩ hw
    exact hw

/-- Every secret of a run is one that some way into the database leaves. -/
theorem ingested_throughout {db : Db} (hstart : ∀ s ∈ db.secrets, s.Ingested)
    (h : (server P timeouts restic admits).Reachable (.initial db repository) cfg) :
    (∀ s ∈ cfg.world.db.secrets, s.Ingested) ∧
      ∀ th ∈ cfg.threads, ∀ e ∈ th.trace, (∀ s ∈ e.before.db.secrets, s.Ingested) ∧ ∀ s ∈ e.after.db.secrets, s.Ingested := by
  have hcond : System.Past (fun _ _ _ _ => True) cfg := fun _ _ _ _ _ _ _ => trivial
  exact stored_throughout (fun _ _ hbefore hstored => hstored.ingested hbefore) hstart h hcond

/-- In a run whose steps store nothing else, every content can be saved back. -/
theorem acceptable_throughout {db : Db} (hstart : ∀ s ∈ db.secrets, s.toSecretContent.Acceptable)
    (h : (server P timeouts restic admits).Reachable (.initial db repository) cfg)
    (hsteps : System.Past (fun _ op earlier e => SavableStep op earlier e) cfg) :
    (∀ s ∈ cfg.world.db.secrets, s.toSecretContent.Acceptable) ∧ ∀ th ∈ cfg.threads, ∀ e ∈ th.trace,
      (∀ s ∈ e.before.db.secrets, s.toSecretContent.Acceptable) ∧
        ∀ s ∈ e.after.db.secrets, s.toSecretContent.Acceptable :=
  stored_throughout (fun hsavable hcommitted hbefore hstored =>
    hstored.acceptable hbefore (hsavable _ _ hcommitted)) hstart h hsteps

/-- **Saving back.** However the operations interleave, a stored secret can be saved back exactly when its name
has at most 200 units and `__proto__` is none of its keys. So every secret can be saved back in every state of a
run exactly when no step replaces secrets by those of a snapshot with a longer file name, or updates the key
`__proto__` of a row. -/
theorem savesBack_iff {db : Db} (hingested : ∀ s ∈ db.secrets, s.Ingested)
    (hstart : ∀ s ∈ db.secrets, s.toSecretContent.Acceptable)
    (h : (server P timeouts restic admits).Reachable (.initial db repository) cfg) :
    (System.Past (fun _ op earlier e => SavableStep op earlier e) cfg ↔ SavesBackThroughout P cfg) ∧
      ∀ s ∈ cfg.world.db.secrets,
        (SavesBack P cfg.world.db s ↔ s.name.length ≤ 200 ∧ protoKey ∉ s.data.keys) := by
  obtain ⟨hworld, hpast⟩ := ingested_throughout hingested h
  have hall : ∀ {db : Db}, (∀ s ∈ db.secrets, s.Ingested) →
      (AllSaveBack P db ↔ ∀ s ∈ db.secrets, s.toSecretContent.Acceptable) := fun hdb =>
    forall₂_congr fun s hs => savesBack_iff_acceptable hs (hdb s hs)
  refine ⟨⟨fun hsteps => ?_, fun hthroughout t th hth earlier e later hsplit tx n hcommitted => ?_⟩,
    fun s hs => savesBack_iff_acceptable hs (hworld s hs)⟩
  · obtain ⟨hnow, hevents⟩ := acceptable_throughout hstart h hsteps
    refine ⟨(hall hworld).mpr hnow, fun th hth e he => ?_⟩
    exact ⟨(hall (hpast th hth e he).1).mpr (hevents th hth e he).1, (hall (hpast th hth e he).2).mpr (hevents th hth e he).2⟩
  · have hgood := (savedOutline P timeouts restic admits).good ⟨inv_initial db repository, trivial⟩ h
    have hth' := List.mem_of_getElem? hth
    have he : e ∈ th.trace := by simp [hsplit]
    obtain ⟨hk, hallows, hrequest, htables⟩ :=
      committed_requests ((hgood.threads t th hth).past earlier e later hsplit) hcommitted
    refine savable_of_acceptable hk hallows hrequest ?_
    rw [← htables]
    exact (hall (hpast th hth' e he).2).mp (hthroughout.2 th hth' e he).2

end Runs

section Example

def keyUpdate (key : JsString) : SecretBody := { keyBody with key := some (.str key) }

/-- One update of a key of the secret `api`. -/
def keyUpdateMoves (key : JsString) : List (Move Operation JsString) :=
  .spawn (.updateSecretKey (js "p") (js "a") (keyUpdate key)) :: steps 0 6

theorem ingested_neverSynced : ∀ s ∈ neverSyncedDb.secrets, s.Ingested := by
  intro s hs
  rw [List.mem_singleton.mp hs]
  exact ⟨⟨by decide, by unfold SecretData.Keyed; decide⟩, List.pairwise_singleton _ _, by decide⟩

theorem savesBack_iff_keyUpdate : ∃ cfg, (server runPlatform exampleTimeouts Snapshots.restic fun _ => True).Reachable
      (.initial neverSyncedDb []) cfg ∧
    (cfg.world.db.secrets.map fun s => (s.data.keys, s.version)) = [([js "A", js "B"], 2)] ∧
    AllSaveBack runPlatform cfg.world.db := by
  obtain ⟨cfg, hplay, hstored⟩ : ∃ cfg, playExample (keyUpdateMoves (js "B")) (.initial neverSyncedDb []) = some cfg ∧
      (cfg.world.db.secrets.map fun s => (s.data.keys, s.version)) = [([js "A", js "B"], 2)] :=
    Option.map_eq_some_iff.mp rfl
  have hacceptable : (playExample (keyUpdateMoves (js "B")) (.initial neverSyncedDb [])).map
      (fun cfg => cfg.world.db.secrets.all fun s => decide s.toSecretContent.Acceptable) = some true := rfl
  rw [hplay, Option.map_some, Option.some.injEq] at hacceptable
  have hreachable : (server runPlatform exampleTimeouts Snapshots.restic fun _ => True).Reachable
      (.initial neverSyncedDb []) cfg := playExample_reachable (fun _ _ => trivial) hplay
  have hsaves := (savesBack_iff ingested_neverSynced (by decide) hreachable).2
  refine ⟨cfg, hreachable, hstored, fun s hs => (hsaves s hs).mpr ?_⟩
  exact of_decide_eq_true (List.all_eq_true.mp hacceptable s hs)

/-- An update of the key `__proto__` stores a secret that no full update leaves as it is. -/
theorem not_savesBack_protoKey : ∃ cfg, (server runPlatform exampleTimeouts Snapshots.restic fun _ => True).Reachable
      (.initial neverSyncedDb []) cfg ∧
    ∃ s ∈ cfg.world.db.secrets, s.data.keys = [js "A", protoKey] ∧ normalizedData (some s.data.toJson) ≠ s.data ∧
      ¬ SavesBack runPlatform cfg.world.db s := by
  obtain ⟨cfg, hplay, hstored⟩ : ∃ cfg, playExample (keyUpdateMoves protoKey) (.initial neverSyncedDb []) = some cfg ∧
      (cfg.world.db.secrets.map fun s => s.data.keys) = [[js "A", protoKey]] :=
    Option.map_eq_some_iff.mp rfl
  obtain ⟨s, rest, hsecrets, hkeys, -⟩ := List.map_eq_cons_iff.mp hstored
  have hs : s ∈ cfg.world.db.secrets := by simp [hsecrets]
  have hdata : normalizedData (some s.data.toJson) ≠ s.data := by
    intro heq
    have hproto := protoKey_notMem_normalizedData (some s.data.toJson)
    rw [heq, hkeys] at hproto
    exact hproto (by simp)
  exact ⟨cfg, playExample_reachable (fun _ _ => trivial) hplay, s, hs, hkeys, hdata, fun h => hdata h.normalized⟩

end Example

end SecretsManager
