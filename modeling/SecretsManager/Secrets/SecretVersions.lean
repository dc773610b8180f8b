import SecretsManager.History
import SecretsManager.Runs

/-!
# Versions of secrets

A row that changes gets a larger version, and a row that is deleted or replaced never comes back: the ids
of inserted rows are new. So an id with a version names one content for ever, and an update that finds the
version of its request finds the row that its user has seen, however often the rows were replaced in
between.
-/

namespace SecretsManager

open Js Interleaving

variable {R : Type} {restic : Restic R} {P : Platform} {timeouts : ResticTimeouts}
  {admits : Operation → Prop} {t : Nat} {projectId secretId : JsString}

/-! ## How the rows evolve -/

/-- A row whose id was stored before is the row with that id from then, or a version of it that is newer. -/
structure Evolves (w w' : World R) : Prop where
  stored : ∀ id ∈ w.stored, id ∈ w'.stored
  rows : ∀ s' ∈ w'.db.secrets, s'.id ∈ w.stored →
    ∃ s ∈ w.db.secrets, s.id = s'.id ∧ (s' = s ∨ s.version < s'.version)

theorem Evolves.refl (w : World R) : Evolves w w := ⟨fun _ h => h, fun s hs _ => ⟨s, hs, rfl, Or.inl rfl⟩⟩

theorem Evolves.trans {a b c : World R} (hab : Evolves a b) (hbc : Evolves b c) : Evolves a c where
  stored id h := hbc.stored id (hab.stored id h)
  rows s'' hs'' h := by
    obtain ⟨s', hs', hid', hnewer'⟩ := hbc.rows s'' hs'' (hab.stored _ h)
    rw [← hid'] at h
    obtain ⟨s, hs, hid, hnewer⟩ := hab.rows s' hs' h
    refine ⟨s, hs, hid.trans hid', ?_⟩
    rcases hnewer' with rfl | hlt'
    · exact hnewer
    · rcases hnewer with rfl | hlt
      · exact Or.inr hlt'
      · exact Or.inr (hlt.trans hlt')

theorem Evolves.of_db {w w' : World R} (hdb : w'.db = w.db) (hstored : w'.stored = w.stored) : Evolves w w' where
  stored id h := by rwa [hstored]
  rows s hs _ := ⟨s, by rwa [hdb] at hs, rfl, Or.inl rfl⟩

/-- One row for an id and a version, at any two moments. -/
theorem Evolves.same {w w' : World R} (h : Evolves w w') (hinv : Inv w) {s s' : Secret}
    (hs : s ∈ w.db.secrets) (hs' : s' ∈ w'.db.secrets) (hid : s'.id = s.id)
    (hversion : s'.version ≤ s.version) : s' = s := by
  obtain ⟨r, hr, hrid, hnewer⟩ := h.rows s' hs' (by rw [hid]; exact hinv.stored s hs)
  obtain rfl : r = s := Tables.secret_unique w.db.valid hr hs (hrid.trans hid)
  rcases hnewer with rfl | hlt
  · rfl
  · omega

/-- A row that is there at two moments is there in between. -/
theorem Evolves.between {a b c : World R} (hab : Evolves a b) (hbc : Evolves b c) (hinv : Inv a) {s : Secret}
    (hs : s ∈ a.db.secrets) (hs' : s ∈ c.db.secrets) : s ∈ b.db.secrets := by
  obtain ⟨r, hr, hrid, hnewer⟩ := hbc.rows s hs' (hab.stored _ (hinv.stored s hs))
  have hversion : r.version ≤ s.version := by
    rcases hnewer with rfl | hlt
    · exact le_rfl
    · exact hlt.le
  rwa [← hab.same hinv hs hr hrid hversion]

/-- The secret was a row, and its row is newer by now or still the same. -/
def Known (w : World R) (x : Secret) : Prop :=
  x.id ∈ w.stored ∧ ∀ row ∈ w.db.secrets, row.id = x.id → row = x ∨ x.version < row.version

theorem known_row {w : World R} (hinv : Inv w) {x : Secret} (hx : x ∈ w.db.secrets) : Known w x :=
  ⟨hinv.stored x hx, fun _ hrow hid => Or.inl (Tables.secret_unique w.db.valid hrow hx hid)⟩

theorem Known.evolves {w w' : World R} {x : Secret} (h : Known w x) (hw : Evolves w w') : Known w' x := by
  refine ⟨hw.stored _ h.1, fun row' hrow' hid => ?_⟩
  obtain ⟨row, hrow, hrid, hnewer⟩ := hw.rows row' hrow' (by rw [hid]; exact h.1)
  have hold := h.2 row hrow (hrid.trans hid)
  rcases hnewer with rfl | hlt
  · exact hold
  · rcases hold with rfl | hlt'
    · exact Or.inr hlt
    · exact Or.inr (hlt'.trans hlt)

/-! ## Every step -/

theorem evolves_of_exec {op : Operation} {v : View} {e : ServerEvent R} (howns : Owns t v e.before)
    (hallows : Allows P op v e.cmd) (h : Exec restic t e.before e.cmd e.answer e.after) : Evolves e.before e.after := by
  cases hcommitted : committed? e with
  | none => exact .of_db (exec_keeps h hcommitted).1 (exec_keeps h hcommitted).2
  | some x =>
      obtain ⟨tx, n⟩ := x
      obtain ⟨w, w', rfl⟩ := committed?_eq_some hcommitted
      have hallows : AllowsTransaction P op v tx := hallows
      obtain ⟨hrun, hstored⟩ := exec_committed (show Exec restic t w (.transact tx) (.ok n) w' from h)
      refine ⟨fun id hid => ?_, fun s' hs' hid => ?_⟩
      · rw [show w'.stored = _ from hstored]
        exact List.mem_append_right _ hid
      · have hs' : s' ∈ (tx.run w.db.toTables).1.secrets := by
          rw [hrun]
          exact hs'
        rcases Transaction.mem_secrets_run hs' with (hs | hs) | ⟨s, hs, hsid, -, hlt⟩
        · exact ⟨s', hs, rfl, Or.inl rfl⟩
        · exact absurd hid (howns _ (allows_insertedIds hallows _ hs)).2
        · exact ⟨s, hs, hsid, Or.inr hlt⟩

theorem evolves_exec {op : Operation} {earlier : List (ServerEvent R)} {e : ServerEvent R}
    (h : Happened (server P timeouts restic admits) (sections P) .start Inv (Knows restic) t op earlier e) :
    Evolves e.before e.after := evolves_of_exec h.assert.ids h.allowed h.exec

theorem evolves_outside {w w' : World R} (h : Outside restic w w') : Evolves w w' := by
  obtain ⟨r, -, rfl⟩ := h
  exact .of_db rfl rfl

/-! ## Full updates -/

/-- The event has changed the row of the secret, which had the version and has the next one. -/
structure UpdatesRow (projectId secretId : JsString) (version : Nat) (e : ServerEvent R) : Prop where
  found : ∃ s ∈ e.before.db.secrets, s.id = secretId ∧ s.projectId = projectId ∧ s.version = version
  changed : ∃ s ∈ e.after.db.secrets, s.id = secretId ∧ s.projectId = projectId ∧ s.version = version + 1

/-- The rows after an update that has changed one. -/
theorem secrets_of_committed {w w' : World R} {content : SecretContent} {date hash : JsString} {version : Nat}
    (h : Exec restic t w (.transact (.secretsDataUpdate secretId projectId content date version hash)) (.ok 1) w') :
    w'.db.secrets = (Sql.updateSecret secretId projectId version content date w.db.toTables).secrets := by
  have hrun := (exec_committed h).1
  have hcount : w.db.secrets.countP (Sql.matchesVersion secretId projectId version) = 1 := congrArg Prod.snd hrun
  rw [show w'.db.toTables = _ from (congrArg Prod.fst hrun).symm, Transaction.run]
  dsimp only
  rw [if_pos hcount]
  rfl

theorem updatesRow_of_committed {w w' : World R} {content : SecretContent} {date hash : JsString} {version : Nat}
    (h : Exec restic t w (.transact (.secretsDataUpdate secretId projectId content date version hash)) (.ok 1) w') :
    UpdatesRow projectId secretId version
      (⟨w, .transact (.secretsDataUpdate secretId projectId content date version hash), .ok 1, w'⟩ : ServerEvent R) := by
  have hrun := (exec_committed h).1
  have hcount : w.db.secrets.countP (Sql.matchesVersion secretId projectId version) = 1 := congrArg Prod.snd hrun
  obtain ⟨s, hs, hmatch⟩ := List.countP_pos_iff.mp (by rw [hcount]; exact Nat.one_pos)
  have hfields : (s.id = secretId ∧ s.projectId = projectId) ∧ s.version = version := by
    simpa [Sql.matchesVersion] using hmatch
  refine ⟨⟨s, hs, hfields.1.1, hfields.1.2, hfields.2⟩, Sql.updatedSecret content date s, ?_, hfields.1.1,
    hfields.1.2, by rw [← hfields.2]; rfl⟩
  show _ ∈ w'.db.secrets
  rw [secrets_of_committed h]
  exact List.mem_map.mpr ⟨s, hs, if_pos hmatch⟩

/-- An update that changes no row leaves the database. -/
theorem db_of_missed {w w' : World R} {content : SecretContent} {date hash : JsString} {version n : Nat}
    (h : Exec restic t w (.transact (.secretsDataUpdate secretId projectId content date version hash)) (.ok n) w')
    (hn : n ≠ 1) : w'.db = w.db := by
  have hrun := (exec_committed h).1
  refine Db.ext_tables ?_
  rw [show w'.db.toTables = _ from (congrArg Prod.fst hrun).symm]
  refine Transaction.rows_run_of_missed w.db.valid.secretId ?_
  rw [hrun]
  exact hn

/-! ## Over runs -/

section Runs
variable {cfg cfg' : Config (World R) Cmd Cmd.Answer Failure Response Operation} {db : Db} {repository : R}

theorem evolves_steps (h : (server P timeouts restic admits).Reachable (.initial db repository) cfg)
    (hsteps : (server P timeouts restic admits).Steps cfg cfg') : Evolves cfg.world cfg'.world :=
  (serverOutline P timeouts restic admits).steps_rel .refl .trans evolves_exec (fun _ => evolves_outside)
    ((serverOutline P timeouts restic admits).good (inv_initial db repository) h) hsteps

end Runs

section Example

/-- The secret `api` has the value `1` and the version 1. -/
def firstDb : Db where
  projects := [exampleProject]
  secrets := [exampleSecret "a" "1" 1]
  valid := by decide

def versionOne : Option JsValue := some (.num ⟨js "1", some 1⟩)

/-- A full update of the data with the version 1. -/
def putData : Operation :=
  .updateSecret (js "p") (js "a") ⟨none, some (exampleData "2").toJson, versionOne, none, none⟩

def putMoves : List (Move Operation JsString) := .spawn putData :: steps 0 6

def putResponse : Response :=
  ⟨200, .secret { exampleSecret "a" "2" 2 with dateUpdated := exampleNow }⟩

end Example

end SecretsManager
