import Mathlib.Data.List.Duplicate
import SecretsManager.Secrets.SavedBack
import SecretsManager.Web.SecretEditor

/-!
# The form of a stored secret

The server stores any key that is not empty. The editor trims the keys of its rows, leaves out those that are
blank and refuses two that are equal after that. So a secret that is opened and saved comes out as it is stored
exactly when each of its keys is its own trim; otherwise keys are renamed or dropped, or the save stops with the
error of a duplicate key.
-/

namespace SecretsManager

open Js Interleaving SortedBy JsObject

variable {R : Type} {restic : Restic R} {P : Platform} {timeouts : ResticTimeouts} {admits : Operation → Prop}

/-! ## Trimmed entries -/

/-- The entries under the keys that the editor saves. -/
def trimmedEntries (entries : List (JsString × JsString)) : List (JsString × JsString) :=
  (entries.map fun p => (trim p.1, p.2)).filter fun p => p.1 ≠ []

def trimmedKeys (entries : List (JsString × JsString)) : List JsString := (trimmedEntries entries).map Prod.fst

/-- The row of an entry. -/
def formRow (p : JsString × JsString) : SecretFormRow := ⟨p.1, p.2⟩

def duplicateKeyError (key : JsString) : JsString :=
  js "Duplicate key '" ++ key ++ js "': each key must appear only once"

theorem trimmedEntries_cons_blank {p : JsString × JsString} (h : trim p.1 = []) (l : List (JsString × JsString)) :
    trimmedEntries (p :: l) = trimmedEntries l := by
  simp [trimmedEntries, h]

theorem trimmedEntries_cons {p : JsString × JsString} (h : trim p.1 ≠ []) (l : List (JsString × JsString)) :
    trimmedEntries (p :: l) = (trim p.1, p.2) :: trimmedEntries l := by
  simp [trimmedEntries, h]

theorem mem_trimmedEntries {entries : List (JsString × JsString)} {key value : JsString} :
    (key, value) ∈ trimmedEntries entries ↔ key ≠ [] ∧ ∃ stored, (stored, value) ∈ entries ∧ trim stored = key := by
  simp only [trimmedEntries, List.mem_filter, List.mem_map, decide_eq_true_eq, Prod.mk.injEq, Prod.exists]
  constructor
  · rintro ⟨⟨stored, value', hmem, hkey, rfl⟩, hne⟩
    exact ⟨hne, stored, hmem, hkey⟩
  · rintro ⟨hne, stored, hmem, hkey⟩
    exact ⟨⟨stored, value, hmem, hkey, rfl⟩, hne⟩

theorem trimmedEntries_eq_self {entries : List (JsString × JsString)}
    (h : ∀ p ∈ entries, p.1 ≠ [] ∧ trim p.1 = p.1) : trimmedEntries entries = entries := by
  induction entries with
  | nil => rfl
  | cons p l ih =>
      obtain ⟨⟨hne, htrim⟩, hl⟩ := List.forall_mem_cons.mp h
      rw [trimmedEntries_cons (by rwa [htrim]), ih hl, htrim]

/-! ## The loop over the rows -/

/-- Keys that are new and differ are set one after the other. -/
theorem foldlM_addFormRow_ok {l : List (JsString × JsString)} {seen : List JsString} {data : SecretData}
    (hnodup : (trimmedKeys l).Nodup) (hnew : ∀ key ∈ trimmedKeys l, key ∉ seen) :
    ∃ seen', (l.map formRow).foldlM addFormRow (seen, data) =
      .ok (seen', (trimmedEntries l).foldl (fun o p => o.set p.1 p.2) data) := by
  induction l generalizing seen data with
  | nil => exact ⟨seen, rfl⟩
  | cons p l ih =>
      rw [List.map_cons, List.foldlM_cons]
      by_cases hblank : trim p.1 = []
      · rw [trimmedKeys, trimmedEntries_cons_blank hblank] at hnodup hnew
        rw [trimmedEntries_cons_blank hblank]
        have hrow : addFormRow (seen, data) (formRow p) = .ok (seen, data) :=
          if_pos (show (trim p.1).length = 0 by rw [hblank]; rfl)
        rw [hrow]
        exact ih hnodup hnew
      · rw [trimmedKeys, trimmedEntries_cons hblank, List.map_cons] at hnodup hnew
        rw [trimmedEntries_cons hblank, List.foldl_cons]
        obtain ⟨hp, hnodup⟩ := List.nodup_cons.mp hnodup
        obtain ⟨hpnew, hnew⟩ := List.forall_mem_cons.mp hnew
        have hrow : addFormRow (seen, data) (formRow p) = .ok (trim p.1 :: seen, data.set (trim p.1) p.2) := by
          have hlen : (trim p.1).length ≠ 0 := fun h => hblank (List.length_eq_zero_iff.mp h)
          simp only [addFormRow, formRow, if_neg hlen, List.contains_iff_mem, if_neg hpnew]
        rw [hrow]
        refine ih hnodup fun key hkey hmem => ?_
        rcases List.mem_cons.mp hmem with rfl | hmem
        · exact hp hkey
        · exact hnew key hkey hmem

/-- Otherwise the loop stops at a key that it has seen. -/
theorem foldlM_addFormRow_error {l : List (JsString × JsString)} {seen : List JsString} {data : SecretData}
    (h : ¬ ((trimmedKeys l).Nodup ∧ ∀ key ∈ trimmedKeys l, key ∉ seen)) :
    ∃ key, (key ∈ trimmedKeys l ∧ key ∈ seen ∨ List.Duplicate key (trimmedKeys l)) ∧
      (l.map formRow).foldlM addFormRow (seen, data) = .error (duplicateKeyError key) := by
  induction l generalizing seen data with
  | nil => exact absurd ⟨List.nodup_nil, by simp [trimmedKeys, trimmedEntries]⟩ h
  | cons p l ih =>
      rw [List.map_cons, List.foldlM_cons]
      by_cases hblank : trim p.1 = []
      · rw [trimmedKeys, trimmedEntries_cons_blank hblank] at h
        have hrow : addFormRow (seen, data) (formRow p) = .ok (seen, data) :=
          if_pos (show (trim p.1).length = 0 by rw [hblank]; rfl)
        rw [hrow, trimmedKeys, trimmedEntries_cons_blank hblank]
        exact ih h
      · have hlen : (trim p.1).length ≠ 0 := fun h => hblank (List.length_eq_zero_iff.mp h)
        have hkeys : trimmedKeys (p :: l) = trim p.1 :: trimmedKeys l := by
          rw [trimmedKeys, trimmedEntries_cons hblank]
          rfl
        by_cases hseen : trim p.1 ∈ seen
        · refine ⟨trim p.1, Or.inl ⟨by rw [hkeys]; exact List.mem_cons_self .., hseen⟩, ?_⟩
          have hrow : addFormRow (seen, data) (formRow p) = .error (duplicateKeyError (trim p.1)) := by
            simp only [addFormRow, formRow, if_neg hlen, List.contains_iff_mem, if_pos hseen, duplicateKeyError]
          rw [hrow]
          rfl
        · have hrow : addFormRow (seen, data) (formRow p) = .ok (trim p.1 :: seen, data.set (trim p.1) p.2) := by
            simp only [addFormRow, formRow, if_neg hlen, List.contains_iff_mem, if_neg hseen]
          rw [hkeys] at h ⊢
          rw [hrow]
          have hrest : ¬ ((trimmedKeys l).Nodup ∧ ∀ key ∈ trimmedKeys l, key ∉ trim p.1 :: seen) := by
            rintro ⟨hnodup, hnew⟩
            refine h ⟨List.nodup_cons.mpr ⟨fun hp => hnew _ hp (List.mem_cons_self ..), hnodup⟩, ?_⟩
            refine List.forall_mem_cons.mpr ⟨hseen, fun key hkey hmem => ?_⟩
            exact hnew key hkey (List.mem_cons_of_mem _ hmem)
          obtain ⟨key, hkey, herror⟩ := @ih (trim p.1 :: seen) (data.set (trim p.1) p.2) hrest
          refine ⟨key, ?_, herror⟩
          rcases hkey with ⟨hmem, hmemSeen⟩ | hdup
          · rcases List.mem_cons.mp hmemSeen with rfl | hmemSeen
            · exact Or.inr (List.Duplicate.cons_mem hmem)
            · exact Or.inl ⟨List.mem_cons_of_mem _ hmem, hmemSeen⟩
          · exact Or.inr (List.Duplicate.cons_duplicate hdup)

/-! ## Opening and saving -/

/-- The same values under the trimmed keys, without those that are blank. -/
def TrimmedCopy (data saved : SecretData) : Prop :=
  ∀ key value, saved.get? key = some value ↔ key ≠ [] ∧ ∃ stored, (stored, value) ∈ data.entries ∧ trim stored = key

/-- What the editor would send for the secret that it was opened with. -/
def untouched (s : Secret) : Except JsString SecretData := buildSecretData (secretToForm s).rows

/-- The untouched rows give the stored data, key for key and value for value. -/
def SavesUnchanged (s : Secret) : Prop := ∃ saved, untouched s = .ok saved ∧ ∀ key, saved.get? key = s.data.get? key

/-- The keys are trimmed, and the error is that two are equal then. -/
def SavesTrimmed (s : Secret) : Except JsString SecretData → Prop
  | .ok saved => (trimmedKeys s.data.entries).Nodup ∧ TrimmedCopy s.data saved
  | .error message => ∃ key, List.Duplicate key (trimmedKeys s.data.entries) ∧ message = duplicateKeyError key

theorem untouched_ok {s : Secret} (hnodup : (trimmedKeys s.data.entries).Nodup) :
    untouched s = .ok ((trimmedEntries s.data.entries).foldl (fun o p => o.set p.1 p.2) .empty) := by
  obtain ⟨seen, hfold⟩ := @foldlM_addFormRow_ok s.data.entries [] .empty hnodup fun _ _ => List.not_mem_nil
  show ((s.data.entries.map formRow).foldlM addFormRow ([], .empty)).map Prod.snd = _
  rw [hfold]
  rfl

theorem untouched_error {s : Secret} (hnodup : ¬ (trimmedKeys s.data.entries).Nodup) :
    ∃ key, List.Duplicate key (trimmedKeys s.data.entries) ∧ untouched s = .error (duplicateKeyError key) := by
  obtain ⟨key, hkey, herror⟩ := @foldlM_addFormRow_error s.data.entries [] .empty fun h => hnodup h.1
  refine ⟨key, hkey.resolve_left fun h => List.not_mem_nil h.2, ?_⟩
  show ((s.data.entries.map formRow).foldlM addFormRow ([], .empty)).map Prod.snd = _
  rw [herror]
  rfl

theorem trimmedCopy_foldl {data : SecretData} (hnodup : (trimmedKeys data.entries).Nodup)
    (hproto : ∀ key ∈ data.keys, trim key ≠ protoKey) :
    TrimmedCopy data ((trimmedEntries data.entries).foldl (fun o p => o.set p.1 p.2) .empty) := by
  intro key value
  have hget := get?_set_foldl (fun v : JsString => v) (trimmedEntries data.entries) hnodup .empty rfl key
  rw [← mem_trimmedEntries, hget]
  by_cases hkey : key = protoKey
  · rw [if_pos hkey]
    refine iff_of_false nofun fun hmem => ?_
    obtain ⟨-, stored, hstored, htrim⟩ := mem_trimmedEntries.mp hmem
    exact hproto stored (List.mem_map_of_mem hstored) (htrim.trans hkey)
  · rw [if_neg hkey, get?_empty, Option.or_none]
    exact get?_eq_some_iff (o := ⟨trimmedEntries data.entries, hnodup⟩)

theorem savesTrimmed {s : Secret} (hproto : ∀ key ∈ s.data.keys, trim key ≠ protoKey) :
    SavesTrimmed s (untouched s) := by
  by_cases hnodup : (trimmedKeys s.data.entries).Nodup
  · rw [untouched_ok hnodup]
    exact ⟨hnodup, trimmedCopy_foldl hnodup hproto⟩
  · obtain ⟨key, hdup, herror⟩ := untouched_error hnodup
    rw [herror]
    exact ⟨key, hdup, rfl⟩

/-- Data with trimmed keys comes out of the editor as it is, in its order. -/
theorem untouched_eq_self {s : Secret} (h : s.Ingested) (hproto : protoKey ∉ s.data.keys)
    (htrim : ∀ key ∈ s.data.keys, trim key = key) : untouched s = .ok s.data := by
  have hentries : trimmedEntries s.data.entries = s.data.entries := by
    refine trimmedEntries_eq_self fun p hp => ?_
    have hkey : p.1 ∈ s.data.keys := List.mem_map_of_mem hp
    exact ⟨fun hnil => h.storable.keyed (hnil ▸ hkey), htrim p.1 hkey⟩
  rw [untouched_ok (by rw [trimmedKeys, hentries]; exact s.data.distinct), hentries,
    h.ordered.foldl_set_self hproto]

theorem trim_of_savesUnchanged {s : Secret} (hproto : ∀ key ∈ s.data.keys, trim key ≠ protoKey)
    (h : SavesUnchanged s) : ∀ key ∈ s.data.keys, trim key = key := by
  obtain ⟨saved, hsaved, hsame⟩ := h
  have hcopy := savesTrimmed hproto
  rw [hsaved] at hcopy
  intro key hkey
  obtain ⟨value, hvalue⟩ := Option.isSome_iff_exists.mp (hasOwn_iff.mpr hkey)
  obtain ⟨-, stored, -, htrim⟩ := (hcopy.2 key value).mp ((hsame key).trans hvalue)
  rw [← htrim, trim_trim]

/-- **Opening and saving a secret trims its keys.** For every secret that the server stores, in any interleaving of
its operations, with no key that trims to `__proto__`: the untouched rows give the stored values under the trimmed
keys, or the error of two keys that are equal then; and they give the data as it is stored, in its order, exactly
when each key is its own trim. -/
theorem untouched_stored {db : Db} {repository : R} {cfg : Config (World R) Cmd Cmd.Answer Failure Response Operation}
    (hingested : ∀ s ∈ db.secrets, s.Ingested)
    (h : (server P timeouts restic admits).Reachable (.initial db repository) cfg) {s : Secret}
    (hs : s ∈ cfg.world.db.secrets) (hproto : ∀ key ∈ s.data.keys, trim key ≠ protoKey) :
    SavesTrimmed s (untouched s) ∧ (SavesUnchanged s ↔ ∀ key ∈ s.data.keys, trim key = key) ∧
      ((∀ key ∈ s.data.keys, trim key = key) → untouched s = .ok s.data) := by
  have hstored : s.Ingested := (ingested_throughout hingested h).1 s hs
  have hself : (∀ key ∈ s.data.keys, trim key = key) → untouched s = .ok s.data := fun htrim =>
    untouched_eq_self hstored (fun hmem => hproto _ hmem (htrim _ hmem)) htrim
  exact ⟨savesTrimmed hproto, ⟨trim_of_savesUnchanged hproto, fun htrim => ⟨_, hself htrim, fun _ => rfl⟩⟩, hself⟩

section Example

/-- A full update of the secret `api` to the only key ` B`. -/
def spacedKeyMoves : List (Move Operation JsString) :=
  .spawn (.updateSecret (js "p") (js "a")
    ⟨none, some (.object ⟨[(js " B", .str (js "2"))], by decide⟩), keyBody.version, none, none⟩) :: steps 0 6

/-- The secret after an update of the key `B` has trimmed keys. -/
theorem untouched_stored_keyUpdate : ∃ cfg, (server runPlatform exampleTimeouts Snapshots.restic fun _ => True).Reachable
      (.initial neverSyncedDb []) cfg ∧
    ∃ s ∈ cfg.world.db.secrets, s.data.keys = [js "A", js "B"] ∧ SavesTrimmed s (untouched s) ∧
      (SavesUnchanged s ↔ ∀ key ∈ s.data.keys, trim key = key) ∧
      ((∀ key ∈ s.data.keys, trim key = key) → untouched s = .ok s.data) := by
  obtain ⟨cfg, hplay, hstored⟩ : ∃ cfg, playExample (keyUpdateMoves (js "B")) (.initial neverSyncedDb []) = some cfg ∧
      (cfg.world.db.secrets.map fun s => s.data.keys) = [[js "A", js "B"]] :=
    Option.map_eq_some_iff.mp rfl
  obtain ⟨s, rest, hsecrets, hkeys, -⟩ := List.map_eq_cons_iff.mp hstored
  have hs : s ∈ cfg.world.db.secrets := by simp [hsecrets]
  have hreachable : (server runPlatform exampleTimeouts Snapshots.restic fun _ => True).Reachable
      (.initial neverSyncedDb []) cfg := playExample_reachable (fun _ _ => trivial) hplay
  have hproto : ∀ key ∈ s.data.keys, trim key ≠ protoKey := by
    rw [hkeys]
    decide
  exact ⟨cfg, hreachable, s, hs, hkeys, untouched_stored ingested_neverSynced hreachable hs hproto⟩

/-- The server stores the key ` B`, and the editor saves it as `B`. -/
theorem not_savesUnchanged_spacedKey :
    ∃ cfg, (server runPlatform exampleTimeouts Snapshots.restic fun _ => True).Reachable
      (.initial neverSyncedDb []) cfg ∧
    ∃ s ∈ cfg.world.db.secrets, s.data.keys = [js " B"] ∧ ¬ SavesUnchanged s := by
  obtain ⟨cfg, hplay, hstored⟩ : ∃ cfg, playExample spacedKeyMoves (.initial neverSyncedDb []) = some cfg ∧
      (cfg.world.db.secrets.map fun s => s.data.keys) = [[js " B"]] :=
    Option.map_eq_some_iff.mp rfl
  obtain ⟨s, rest, hsecrets, hkeys, -⟩ := List.map_eq_cons_iff.mp hstored
  refine ⟨cfg, playExample_reachable (fun _ _ => trivial) hplay, s, by simp [hsecrets], hkeys, fun hsaves => ?_⟩
  have hproto : ∀ key ∈ s.data.keys, trim key ≠ protoKey := by
    rw [hkeys]
    decide
  have htrim := trim_of_savesUnchanged hproto hsaves (js " B") (by simp [hkeys])
  exact absurd htrim (by decide)

end Example

end SecretsManager
