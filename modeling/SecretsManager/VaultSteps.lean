import SecretsManager.Secrets.SecretRequests
import SecretsManager.Vault

/-!
# The vault of the database

What the database shows of its rows is a vault, and a transaction that commits is one action on it, or only stores
a hash: the checks that its operation has made under the lock still hold at that moment.
-/

namespace SecretsManager

open Js JsObject Interleaving SortedBy Sql

variable {R : Type} {restic : Restic R} {P : Platform}

/-! ## The vault of a database -/

def Secret.entry (s : Secret) : Entry := ⟨s.projectId, s.id, s.name, s.data.get?, s.version⟩

def Project.entry (p : Project) : ProjectEntry := ⟨p.id, p.name, p.lastSyncSnapshotId⟩

def Db.vault (db : Db) : Vault where
  projects := Project.entry '' {p | p ∈ db.projects}
  entries := Secret.entry '' {s | s ∈ db.secrets}
  uniqueProjects := by
    rintro _ ⟨p, hp, rfl⟩ _ ⟨p', hp', rfl⟩ h
    rw [db.valid.projectId.inj hp hp' h]
  uniqueProjectNames := by
    rintro _ ⟨p, hp, rfl⟩ _ ⟨p', hp', rfl⟩ h
    rw [db.valid.projectName.inj hp hp' h]
  uniqueIds := by
    rintro _ ⟨s, hs, rfl⟩ _ ⟨s', hs', rfl⟩ h
    rw [db.valid.secretId.inj hs hs' h]
  uniqueNames := by
    rintro _ ⟨s, hs, rfl⟩ _ ⟨s', hs', rfl⟩ h
    rw [db.valid.secretName.inj hs hs' h]
  owned := by
    rintro _ ⟨s, hs, rfl⟩
    obtain ⟨p, hp, hid⟩ := List.mem_map.mp (db.valid.foreignKey s hs)
    exact ⟨p.entry, ⟨p, hp, rfl⟩, hid⟩

theorem mem_vault_entries {db : Db} {e : Entry} : e ∈ db.vault.entries ↔ ∃ s ∈ db.secrets, s.entry = e := Iff.rfl

theorem mem_vault_projects {db : Db} {x : ProjectEntry} :
    x ∈ db.vault.projects ↔ ∃ p ∈ db.projects, p.entry = x := Iff.rfl

/-- The rows of a database have the entries that their ids tell apart. -/
theorem entry_eq_iff {db : Db} {s s' : Secret} (hs : s ∈ db.secrets) (hs' : s' ∈ db.secrets) :
    s.entry = s'.entry ↔ s.id = s'.id := by
  refine ⟨fun h => congrArg Entry.id h, fun h => ?_⟩
  rw [db.valid.secretId.inj hs hs' h]

/-! ## The action of a transaction -/

/-- What a committed transaction of an operation does to the vault, by the number of rows that it changed. -/
def Operation.action? (op : Operation) : Transaction → Nat → Option Vault.Action
  | .projectsDataAdd project, _ => some (.addProject project.entry)
  | .projectsDataDeleteCascade projectId, _ => some (.removeProject projectId)
  | .projectsDataUpdateSyncState id snapshotId _ _ _, _ => some (.mark id snapshotId)
  | .projectsDataUpdateCurrentContentHash _ _, _ | .projectsDataUpdateLastSyncContentHash _ _, _ => none
  | .secretsDataAdd secret _, _ => some (.add secret.entry)
  | .secretsDataUpdate id projectId content _ version _, n =>
      if n = 1 then
        match op with
        | .updateSecretKey _ _ body =>
            some (.setKey projectId id (requestedKey body) ((content.data.get? (requestedKey body)).getD []))
        | .updateSecret _ _ body =>
            some (.change projectId id version (if body.name.isSome then some content.name else none)
              (if body.data.isSome then some content.data.get? else none))
        | _ => none
      else none
  | .secretsDataDelete id projectId _, _ => some (.remove projectId id)
  | .secretsDataReplaceForProject projectId secrets state, _ =>
      some (.load projectId state.snapshotId (Secret.entry '' {s | s ∈ secrets}))

/-- What an event of an operation does to the vault. -/
def point (op : Operation) (e : ServerEvent R) : Option Vault.Action :=
  (committed? e).bind fun x => op.action? x.1 x.2

section Transaction
variable {t : Nat} {op : Operation} {v : View} {w : World R} {db : Db} {tx : Transaction} {n : Nat}

theorem entries_kept (hsecrets : db.secrets = w.db.secrets) : db.vault.entries = w.db.vault.entries := by
  ext e
  rw [mem_vault_entries, mem_vault_entries, hsecrets]

/-- An update of project rows that leaves what the vault shows of them. -/
theorem projects_kept {f : Project → Project} (hf : ∀ p, (f p).entry = p.entry)
    (hprojects : db.projects = w.db.projects.map f) : db.vault.projects = w.db.vault.projects := by
  ext x
  rw [mem_vault_projects, mem_vault_projects, hprojects]
  constructor
  · rintro ⟨p', hp', rfl⟩
    obtain ⟨p, hp, rfl⟩ := List.mem_map.mp hp'
    exact ⟨p, hp, (hf p).symm⟩
  · rintro ⟨p, hp, rfl⟩
    exact ⟨f p, List.mem_map_of_mem hp, hf p⟩

theorem projects_marked {projectId snapshotId : JsString} {f : Project → Project}
    (hf : ∀ p, (f p).entry = if p.id = projectId then { p.entry with snapshotId := snapshotId } else p.entry)
    (hprojects : db.projects = w.db.projects.map f) :
    db.vault.projects = Vault.marked w.db.vault.projects projectId snapshotId := by
  ext x
  rw [mem_vault_projects, hprojects]
  constructor
  · rintro ⟨p', hp', rfl⟩
    obtain ⟨p, hp, rfl⟩ := List.mem_map.mp hp'
    exact ⟨p.entry, ⟨p, hp, rfl⟩, (hf p).symm⟩
  · rintro ⟨_, ⟨p, hp, rfl⟩, rfl⟩
    exact ⟨f p, List.mem_map_of_mem hp, hf p⟩

/-- The hash of a project row is not seen in the vault. -/
theorem projects_updateCurrentHash {id hash : JsString} {tables : Tables} (hsame : tables.projects = w.db.projects)
    (hprojects : db.projects = (Sql.updateCurrentHash id hash tables).projects) :
    db.vault.projects = w.db.vault.projects := by
  refine projects_kept (f := fun p => if p.id = id then { p with currentContentHash := hash } else p) (fun p => ?_)
    (hprojects.trans ?_)
  · split_ifs <;> rfl
  · exact congrArg _ hsame

theorem projects_updateSyncState {id snapshotId time lastSync current : JsString} {tables : Tables}
    (hsame : tables.projects = w.db.projects)
    (hprojects : db.projects = (Sql.updateSyncState id snapshotId time lastSync current tables).projects) :
    db.vault.projects = Vault.marked w.db.vault.projects id snapshotId := by
  refine projects_marked (f := fun p =>
    if p.id = id then
      { p with
        lastSyncSnapshotId := snapshotId
        lastSyncSnapshotTime := time
        lastSyncContentHash := lastSync
        currentContentHash := current }
    else p) (fun p => ?_) (hprojects.trans ?_)
  · split_ifs <;> rfl
  · exact congrArg _ hsame

/-- A row is replaced by its next version. -/
theorem entries_revised {s s' : Secret} (hs : s ∈ w.db.secrets)
    (hsecrets : db.secrets = w.db.secrets.map fun r => if r.id = s.id then s' else r) :
    db.vault.entries = insert s'.entry (w.db.vault.entries \ {s.entry}) := by
  ext e
  rw [mem_vault_entries, hsecrets, Set.mem_insert_iff, Set.mem_sdiff, Set.mem_singleton_iff, mem_vault_entries]
  constructor
  · rintro ⟨r', hr', rfl⟩
    obtain ⟨r, hr, rfl⟩ := List.mem_map.mp hr'
    split_ifs with hid
    · exact Or.inl rfl
    · exact Or.inr ⟨⟨r, hr, rfl⟩, fun h => hid ((entry_eq_iff hr hs).mp h)⟩
  · rintro (rfl | ⟨⟨r, hr, rfl⟩, hne⟩)
    · exact ⟨s', List.mem_map.mpr ⟨s, hs, if_pos rfl⟩, rfl⟩
    · exact ⟨r, List.mem_map.mpr ⟨r, hr, if_neg fun hid => hne ((entry_eq_iff hr hs).mpr hid)⟩, rfl⟩

theorem step_addProject {project : Project}
    (hrun : (Transaction.projectsDataAdd project).run w.db.toTables = (db.toTables, n)) :
    Vault.Step (.addProject project.entry) w.db.vault db.vault := by
  have hprojects : db.projects = w.db.projects ++ [project] := (congrArg (fun x => x.1.projects) hrun).symm
  have hnew : ∀ f : Project → JsString, Distinct f db.projects → ∀ p ∈ w.db.projects, f p ≠ f project := by
    intro f hdistinct p hp
    rw [Distinct, hprojects, List.map_append, List.nodup_append] at hdistinct
    exact hdistinct.2.2 _ (List.mem_map_of_mem hp) _ (List.mem_singleton.mpr rfl)
  refine ⟨?_, ?_, entries_kept (congrArg (fun x => x.1.secrets) hrun).symm⟩
  · rintro _ ⟨p, hp, rfl⟩
    exact ⟨hnew _ db.valid.projectId p hp, hnew _ db.valid.projectName p hp⟩
  · ext x
    rw [mem_vault_projects, hprojects, Set.mem_insert_iff, mem_vault_projects]
    simp only [List.mem_append, List.mem_singleton, or_and_right, exists_or, exists_eq_left]
    rw [or_comm, eq_comm]

theorem step_removeProject {projectId : JsString}
    (hrun : (Transaction.projectsDataDeleteCascade projectId).run w.db.toTables = (db.toTables, n)) :
    Vault.Step (.removeProject projectId) w.db.vault db.vault := by
  have hprojects : db.projects = w.db.projects.filter fun p => p.id ≠ projectId :=
    (congrArg (fun x => x.1.projects) hrun).symm
  have hsecrets : db.secrets = w.db.secrets.filter fun s => s.projectId ≠ projectId :=
    (congrArg (fun x => x.1.secrets) hrun).symm
  constructor
  · ext x
    rw [mem_vault_projects, hprojects]
    constructor
    · rintro ⟨p, hp, rfl⟩
      obtain ⟨hp, hne⟩ := List.mem_filter.mp hp
      exact ⟨⟨p, hp, rfl⟩, of_decide_eq_true hne⟩
    · rintro ⟨⟨p, hp, rfl⟩, hne⟩
      exact ⟨p, List.mem_filter.mpr ⟨hp, decide_eq_true hne⟩, rfl⟩
  · ext e
    rw [mem_vault_entries, hsecrets]
    constructor
    · rintro ⟨s, hs, rfl⟩
      obtain ⟨hs, hne⟩ := List.mem_filter.mp hs
      exact ⟨⟨s, hs, rfl⟩, of_decide_eq_true hne⟩
    · rintro ⟨⟨s, hs, rfl⟩, hne⟩
      exact ⟨s, List.mem_filter.mpr ⟨hs, decide_eq_true hne⟩, rfl⟩

theorem step_mark {id snapshotId time lastSync current : JsString}
    (hrun : (Transaction.projectsDataUpdateSyncState id snapshotId time lastSync current).run w.db.toTables =
      (db.toTables, n)) : Vault.Step (.mark id snapshotId) w.db.vault db.vault :=
  ⟨projects_updateSyncState rfl (congrArg (fun x => x.1.projects) hrun).symm,
    entries_kept (congrArg (fun x => x.1.secrets) hrun).symm⟩

theorem step_add {secret : Secret} {hash : JsString} (hinv : Inv w) (hk : Knows restic t op v w)
    (hallows : AllowsTransaction P op v (.secretsDataAdd secret hash))
    (hrun : (Transaction.secretsDataAdd secret hash).run w.db.toTables = (db.toTables, n)) :
    Vault.Step (.add secret.entry) w.db.vault db.vault := by
  have hsecrets : db.secrets = w.db.secrets ++ [secret] := (congrArg (fun x => x.1.secrets) hrun).symm
  refine ⟨?_, hallows.2.2.1, projects_updateCurrentHash rfl (congrArg (fun x => x.1.projects) hrun).symm, ?_⟩
  · rintro _ ⟨s, hs, rfl⟩ hid
    have hid : s.id = secret.id := hid
    exact (hk.ids secret.id hallows.2.2.2.1).2 (hid ▸ hinv.stored s hs)
  · ext e
    rw [mem_vault_entries, hsecrets, Set.mem_insert_iff, mem_vault_entries]
    simp only [List.mem_append, List.mem_singleton, or_and_right, exists_or, exists_eq_left]
    rw [or_comm, eq_comm]

theorem step_remove {id projectId hash : JsString} (hk : Knows restic t op v w)
    (hallows : AllowsTransaction P op v (.secretsDataDelete id projectId hash))
    (hrun : (Transaction.secretsDataDelete id projectId hash).run w.db.toTables = (db.toTables, n)) :
    Vault.Step (.remove projectId id) w.db.vault db.vault := by
  obtain ⟨-, rows, hlists, ⟨s, hs, rfl⟩, -⟩ := hallows
  obtain ⟨hs, hproject⟩ := Tables.mem_rows.mp ((hk.list hlists).mem_iff.mp hs)
  have hsecrets : db.secrets = w.db.secrets.filter fun r => r.id ≠ s.id := (congrArg (fun x => x.1.secrets) hrun).symm
  refine ⟨s.entry, ⟨s, hs, rfl⟩, hproject, rfl,
    projects_updateCurrentHash rfl (congrArg (fun x => x.1.projects) hrun).symm, ?_⟩
  ext e
  rw [mem_vault_entries, hsecrets, Set.mem_sdiff, Set.mem_singleton_iff, mem_vault_entries]
  constructor
  · rintro ⟨r, hr, rfl⟩
    obtain ⟨hr, hne⟩ := List.mem_filter.mp hr
    exact ⟨⟨r, hr, rfl⟩, fun h => of_decide_eq_true hne ((entry_eq_iff hr hs).mp h)⟩
  · rintro ⟨⟨r, hr, rfl⟩, hne⟩
    exact ⟨r, List.mem_filter.mpr ⟨hr, decide_eq_true fun hid => hne ((entry_eq_iff hr hs).mpr hid)⟩, rfl⟩

theorem step_load {projectId : JsString} {secrets : List Secret} {state : ProjectSyncState} (hinv : Inv w)
    (hk : Knows restic t op v w) (hallows : AllowsTransaction P op v (.secretsDataReplaceForProject projectId secrets state))
    (hrun : (Transaction.secretsDataReplaceForProject projectId secrets state).run w.db.toTables = (db.toTables, n)) :
    Vault.Step (.load projectId state.snapshotId (Secret.entry '' {s | s ∈ secrets})) w.db.vault db.vault := by
  have hsecrets : db.secrets = (w.db.secrets.filter fun s => s.projectId ≠ projectId) ++ secrets := by
    rw [← Transaction.secrets_run_replace projectId secrets state w.db.toTables, hrun]
  refine ⟨?_, ?_, ?_, ?_⟩
  · obtain ⟨p, hp, hid⟩ := hk.found hallows.found
    exact ⟨p.entry, ⟨p, hp, rfl⟩, hid⟩
  · rintro _ ⟨s, hs, rfl⟩
    obtain ⟨hproject, hversion, hid⟩ := hallows.fresh s hs
    refine ⟨hproject, hversion, ?_⟩
    rintro _ ⟨r, hr, rfl⟩ hrid
    have hrid : r.id = s.id := hrid
    exact (hk.ids s.id hid).2 (hrid ▸ hinv.stored r hr)
  · exact projects_updateSyncState (Sql.projects_foldl_insertSecret secrets (Sql.deleteByProject projectId w.db.toTables))
      (congrArg (fun x => x.1.projects) hrun).symm
  · ext e
    rw [mem_vault_entries, hsecrets]
    constructor
    · rintro ⟨s, hs, rfl⟩
      rcases List.mem_append.mp hs with hs | hs
      · obtain ⟨hs, hne⟩ := List.mem_filter.mp hs
        exact Or.inl ⟨⟨s, hs, rfl⟩, of_decide_eq_true hne⟩
      · exact Or.inr ⟨s, hs, rfl⟩
    · rintro (⟨⟨s, hs, rfl⟩, hne⟩ | ⟨s, hs, rfl⟩)
      · exact ⟨s, List.mem_append_left _ (List.mem_filter.mpr ⟨hs, decide_eq_true hne⟩), rfl⟩
      · exact ⟨s, List.mem_append_right _ hs, rfl⟩

/-- The one row that an update changes is the listed one, in the version that the update goes by. -/
theorem revised_of_update {id projectId : JsString} {content : SecretContent} {date : JsString} {version : Nat}
    {hash : JsString} {s : Secret} (hs : s ∈ w.db.secrets) (hid : s.id = id)
    (hrun : (Transaction.secretsDataUpdate id projectId content date version hash).run w.db.toTables =
      (db.toTables, 1)) :
    s.projectId = projectId ∧ s.version = version ∧ db.vault.projects = w.db.vault.projects ∧
      db.vault.entries = Vault.revised w.db.vault.entries s.entry content.name content.data.get? := by
  have hcount : w.db.secrets.countP (matchesVersion id projectId version) = 1 := congrArg Prod.snd hrun
  obtain ⟨r, hr, hmatch⟩ := List.countP_pos_iff.mp (hcount ▸ Nat.one_pos)
  have hrow := hmatch
  simp only [matchesVersion, Bool.and_eq_true, decide_eq_true_eq] at hrow
  obtain rfl : r = s := w.db.valid.secretId.inj hr hs (hrow.1.1.trans hid.symm)
  have hsecrets : db.secrets =
      w.db.secrets.map fun x => if x.id = r.id then Sql.updatedSecret content date r else x := by
    have hmap := Transaction.secrets_run_update id projectId content date version hash w.db.toTables
    rw [hrun] at hmap
    refine hmap.trans (List.map_congr_left fun x hx => ?_)
    by_cases hxid : x.id = r.id
    · obtain rfl : x = r := w.db.valid.secretId.inj hx hr hxid
      rw [if_pos hmatch, if_pos rfl]
    · rw [if_neg hxid, if_neg]
      simp [matchesVersion, ← hid, hxid]
  refine ⟨hrow.1.2, hrow.2, ?_, entries_revised hr hsecrets⟩
  have hprojects : db.projects = (Sql.updateCurrentHash projectId hash
      (Sql.updateSecret id projectId version content date w.db.toTables)).projects := by
    have hrun' := congrArg (fun x => x.1.projects) hrun
    rw [Transaction.run, if_pos hcount] at hrun'
    exact hrun'.symm
  exact projects_updateCurrentHash rfl hprojects

theorem step_update {id projectId : JsString} {content : SecretContent} {date : JsString} {version : Nat}
    {hash : JsString} {action : Vault.Action} (hk : Knows restic t op v w)
    (hrequest : ByRequest op v (.secretsDataUpdate id projectId content date version hash))
    (hrun : (Transaction.secretsDataUpdate id projectId content date version hash).run w.db.toTables =
      (db.toTables, n))
    (haction : op.action? (.secretsDataUpdate id projectId content date version hash) n = some action) :
    Vault.Step action w.db.vault db.vault := by
  obtain ⟨rows, s, hlists, hs, hid, hchange⟩ := hrequest
  obtain ⟨hs, -⟩ := Tables.mem_rows.mp ((hk.list hlists).mem_iff.mp hs)
  have hn : n = 1 := by
    by_contra hne
    rw [show op.action? (.secretsDataUpdate id projectId content date version hash) n = none from if_neg hne] at haction
    cases haction
  subst hn
  obtain ⟨hproject, hversion, hprojects, hentries⟩ := revised_of_update hs hid hrun
  cases op with
  | updateSecret projectId' secretId body =>
      obtain ⟨-, rfl, -⟩ := hchange
      obtain rfl := Option.some.inj haction
      refine ⟨s.entry, ⟨s, hs, rfl⟩, hproject, hid, hversion, hprojects, hentries.trans ?_⟩
      unfold requestedContent requestedName
      cases body.name.isSome <;> cases body.data.isSome <;> rfl
  | updateSecretKey projectId' secretId body =>
      obtain ⟨-, value, rfl⟩ := hchange
      obtain rfl := Option.some.inj haction
      refine ⟨s.entry, ⟨s, hs, rfl⟩, hproject, hid, hprojects, hentries.trans ?_⟩
      have hvalues : (s.data.define (requestedKey body) value).get? =
          Function.update s.data.get? (requestedKey body) (some value) := by
        funext k
        rw [get?_define, Function.update_apply]
      dsimp only
      rw [hvalues, Function.update_self]
      rfl
  | _ => cases haction

/-- **A committed transaction takes its action.** -/
theorem step_of_action {action : Vault.Action} (hinv : Inv w) (hk : Knows restic t op v w)
    (hallows : AllowsTransaction P op v tx) (hrequest : ByRequest op v tx)
    (hrun : tx.run w.db.toTables = (db.toTables, n)) (haction : op.action? tx n = some action) :
    Vault.Step action w.db.vault db.vault := by
  cases tx with
  | projectsDataAdd project =>
      obtain rfl := Option.some.inj haction
      exact step_addProject hrun
  | projectsDataDeleteCascade projectId =>
      obtain rfl := Option.some.inj haction
      exact step_removeProject hrun
  | projectsDataUpdateSyncState id snapshotId time lastSync current =>
      obtain rfl := Option.some.inj haction
      exact step_mark hrun
  | projectsDataUpdateCurrentContentHash id hash => cases haction
  | projectsDataUpdateLastSyncContentHash id hash => cases haction
  | secretsDataAdd secret hash =>
      obtain rfl := Option.some.inj haction
      exact step_add hinv hk hallows hrun
  | secretsDataUpdate id projectId content date version hash => exact step_update hk hrequest hrun haction
  | secretsDataDelete id projectId hash =>
      obtain rfl := Option.some.inj haction
      exact step_remove hk hallows hrun
  | secretsDataReplaceForProject projectId secrets state =>
      obtain rfl := Option.some.inj haction
      exact step_load hinv hk hallows hrun

/-- The others store a hash, or miss the version of their row. -/
theorem vault_of_no_action (hrequest : ByRequest op v tx) (hrun : tx.run w.db.toTables = (db.toTables, n))
    (haction : op.action? tx n = none) : db.vault = w.db.vault := by
  have hvault : db.vault.projects = w.db.vault.projects → db.vault.entries = w.db.vault.entries →
      db.vault = w.db.vault := Vault.ext
  cases tx with
  | projectsDataUpdateCurrentContentHash id hash =>
      exact hvault (projects_updateCurrentHash rfl (congrArg (fun x => x.1.projects) hrun).symm)
        (entries_kept (congrArg (fun x => x.1.secrets) hrun).symm)
  | projectsDataUpdateLastSyncContentHash id hash =>
      refine hvault (projects_kept (f := fun p => if p.id = id then { p with lastSyncContentHash := hash } else p)
        (fun p => ?_) (congrArg (fun x => x.1.projects) hrun).symm)
        (entries_kept (congrArg (fun x => x.1.secrets) hrun).symm)
      split_ifs <;> rfl
  | secretsDataUpdate id projectId content date version hash =>
      have hn : n ≠ 1 := by
        rintro rfl
        obtain ⟨rows, s, -, -, -, hchange⟩ := hrequest
        cases op with
        | updateSecret projectId' secretId body => cases haction
        | updateSecretKey projectId' secretId body => cases haction
        | _ => exact hchange.elim
      have hdb : db = w.db := by
        refine Db.ext_tables ?_
        rw [← Transaction.rows_run_of_missed w.db.valid.secretId (by rw [hrun]; exact hn), hrun]
      rw [hdb]
  | _ => cases haction

end Transaction

end SecretsManager
