import SecretsManager.History
import SecretsManager.Restic.PushHistory

/-!
# Computed runs

A schedule names the operations that come and the operation of each step; `act` computes what a command
answers when nothing fails, so a schedule can be played and its end looked at. The example repository
behaves like restic: a backup appends a snapshot, and a restore gives the files of the snapshot.
-/

namespace SecretsManager

open Js Interleaving

variable {R : Type}

/-- The answer of a command and the next world. Fresh values are given; a lock that is held blocks. -/
def act (run : R → ResticOp → ResticAnswer × R) (t : Nat) (w : World R) :
    (c : Cmd) → JsString → Option (c.Answer × World R)
  | .projectsGet id, _ => some (.ok (w.db.project? id), w)
  | .projectsGetByName name, _ => some (.ok (w.db.projects.find? fun p => p.name = name), w)
  | .projectsList, _ => some (.ok w.db.projects, w)
  | .secretsList projectId, _ => some (.ok (w.db.rows projectId), w)
  | .secretsGet id, _ => some (.ok (w.db.secret? id), w)
  | .transact tx, _ =>
      match tx.commit w.db with
      | .error e => some (.error e, w)
      | .ok (db, n) => some (.ok n, { w with db := db, stored := tx.insertedIds ++ w.stored })
  | .acquire lock, _ =>
      if ∀ l ∈ w.locks, l.1 ≠ lock then some (.ok (), { w with locks := (lock, t) :: w.locks }) else none
  | .release lock, _ => some ((), { w with locks := w.locks.filter fun l => l ≠ (lock, t) })
  | .uuid, id =>
      if ∀ i ∈ w.issued, i.1 ≠ id then some (id, { w with issued := (id, t) :: w.issued }) else none
  | .now, now => some (now, w)
  | .restic _ op, _ => some ((run w.repository op).1, { w with repository := (run w.repository op).2 })
  | .fs _, _ => some (.ok (), w)

theorem act_exec {restic : Restic R} {run : R → ResticOp → ResticAnswer × R}
    (hrun : ∀ r projectId op, restic.run r projectId op (run r op).1 (run r op).2) {t : Nat} {w w' : World R}
    {c : Cmd} {fresh : JsString} {a : c.Answer} (h : act run t w c fresh = some (a, w')) :
    Exec restic t w c a w' := by
  cases c with
  | projectsGet id | projectsGetByName name | secretsGet id | fs op =>
      cases h
      exact ⟨rfl, Or.inl rfl⟩
  | projectsList | secretsList projectId =>
      cases h
      exact ⟨rfl, Or.inl ⟨_, rfl, .refl _⟩⟩
  | transact tx =>
      rw [act] at h
      split at h
      · rename_i e hcommit
        cases h
        exact Or.inr (Or.inl ⟨e, hcommit, rfl, rfl⟩)
      · rename_i db n hcommit
        cases h
        exact Or.inr (Or.inr ⟨db, n, hcommit, rfl, rfl⟩)
  | acquire lock =>
      rw [act] at h
      split_ifs at h with hfree
      cases h
      exact Or.inr ⟨rfl, fun t' hmem => hfree _ hmem rfl, rfl⟩
  | release lock =>
      cases h
      rfl
  | uuid =>
      rw [act] at h
      split_ifs at h with hnew
      cases h
      exact ⟨fun t' hmem => hnew _ hmem rfl, rfl⟩
  | now =>
      cases h
      rfl
  | restic projectId op =>
      cases h
      exact ⟨_, hrun _ _ _, rfl⟩

theorem play_server {P : Platform} {timeouts : ResticTimeouts} {restic : Restic R}
    {admits : Operation → Prop} {run : R → ResticOp → ResticAnswer × R}
    (hrun : ∀ r projectId op, restic.run r projectId op (run r op).1 (run r op).2)
    {moves : List (Move Operation JsString)} (hadmits : ∀ op, Move.spawn op ∈ moves → admits op)
    {cfg cfg' : Config (World R) Cmd Cmd.Answer Failure Response Operation}
    (h : play (serve P timeouts) (fun t _ _ => act run t) moves cfg = some cfg') :
    (server P timeouts restic admits).Steps cfg cfg' := by
  have hact : ∀ (t : Nat) (op : Operation) (trace : List (Event (World R) Cmd Cmd.Answer)) (w : World R) (c : Cmd)
      (fresh : JsString) (a : c.Answer) (w' : World R), act run t w c fresh = some (a, w') →
      (server P timeouts restic admits).exec t op trace w c a w' :=
    fun _ _ _ _ _ _ _ _ h => act_exec hrun h
  exact play_steps hact hadmits h

theorem play_reachable {P : Platform} {timeouts : ResticTimeouts} {restic : Restic R}
    {admits : Operation → Prop} {run : R → ResticOp → ResticAnswer × R}
    (hrun : ∀ r projectId op, restic.run r projectId op (run r op).1 (run r op).2)
    {moves : List (Move Operation JsString)} (hadmits : ∀ op, Move.spawn op ∈ moves → admits op)
    {w : World R} {cfg : Config (World R) Cmd Cmd.Answer Failure Response Operation}
    (h : play (serve P timeouts) (fun t _ _ => act run t) moves ⟨w, []⟩ = some cfg) :
    (server P timeouts restic admits).Reachable w cfg := play_server hrun hadmits h

/-- The operations of a configuration with their results. -/
def ends (cfg : Config (World R) Cmd Cmd.Answer Failure Response Operation) :
    List (Operation × Option (Except Failure Response)) :=
  cfg.threads.map fun th => (th.req, th.prog.result?)

theorem thread_of_ends {cfg : Config (World R) Cmd Cmd.Answer Failure Response Operation}
    {l : List (Operation × Option (Except Failure Response))} (h : ends cfg = l) {t : Nat} {op : Operation}
    {r : Option (Except Failure Response)} (ht : l[t]? = some (op, r)) :
    ∃ th, cfg.threads[t]? = some th ∧ th.req = op ∧ th.prog.result? = r := by
  rw [← h, ends, List.getElem?_map] at ht
  obtain ⟨th, hth, hends⟩ := Option.map_eq_some_iff.mp ht
  exact ⟨th, hth, (Prod.mk.inj hends).1, (Prod.mk.inj hends).2⟩

/-- Checks every event of a trace, with the view before it. -/
def checkEvents (check : View → ServerEvent R → Bool) (v : View) : List (ServerEvent R) → Bool
  | [] => true
  | e :: rest => check v e && checkEvents check (v.step e.cmd e.answer) rest

theorem check_of_checkEvents {check : View → ServerEvent R → Bool} {start rest : List (ServerEvent R)}
    (h : checkEvents check (viewAfter start) rest = true) :
    ∀ earlier e later, rest = earlier ++ e :: later → check (viewAfter (start ++ earlier)) e = true := by
  induction rest generalizing start with
  | nil => exact fun earlier e later hsplit => by simp at hsplit
  | cons x rest ih =>
      rw [checkEvents, Bool.and_eq_true] at h
      intro earlier e later hsplit
      cases earlier with
      | nil =>
          obtain ⟨rfl, rfl⟩ := List.cons.inj hsplit
          rw [List.append_nil]
          exact h.1
      | cons y earlier =>
          obtain ⟨rfl, hrest⟩ := List.cons.inj hsplit
          rw [← viewAfter_append] at h
          rw [List.append_cons]
          exact ih h.2 earlier e later hrest

/-- A check that all threads pass holds of every event of a configuration. -/
theorem past_of_checkEvents {check : View → ServerEvent R → Bool}
    {cfg : Config (World R) Cmd Cmd.Answer Failure Response Operation}
    (h : (cfg.threads.all fun th => checkEvents check .start th.trace) = true)
    {Cond : List (ServerEvent R) → ServerEvent R → Prop}
    (hcheck : ∀ earlier e, check (viewAfter earlier) e = true → Cond earlier e) :
    System.Past (fun _ _ earlier e => Cond earlier e) cfg := by
  intro t th hth earlier e later hsplit
  have hthread : checkEvents check (viewAfter ([] : List (ServerEvent R))) th.trace = true :=
    List.all_eq_true.mp h th (List.mem_of_getElem? hth)
  exact hcheck earlier e (check_of_checkEvents hthread earlier e later hsplit)

/-! ## The initial world -/

/-- No operation runs yet; the ids of the rows were generated before. -/
def World.initial (db : Db) (repository : R) : World R where
  db := db
  locks := []
  issued := db.secrets.map fun s => (s.id, 0)
  stored := db.secrets.map Secret.id
  repository := repository

theorem inv_initial (db : Db) (repository : R) : Inv (World.initial db repository) where
  exclusive h := by cases h
  owner h h' := by
    obtain ⟨_, -, h⟩ := List.mem_map.mp h
    obtain ⟨_, -, h'⟩ := List.mem_map.mp h'
    exact (Prod.mk.inj h).2.symm.trans (Prod.mk.inj h').2
  issued id h := by
    obtain ⟨s, hs, rfl⟩ := List.mem_map.mp h
    exact ⟨0, List.mem_map_of_mem hs⟩
  stored s hs := List.mem_map_of_mem hs

/-! ## The example repository -/

/-- The snapshots of a repository with their files. -/
abbrev Snapshots := List (JsString × Dir)

namespace Snapshots

def files? (r : Snapshots) (id : JsString) : Option Dir :=
  (r.find? fun snapshot => snapshot.1 = id).map Prod.snd

def snapshotTime : JsString := js "2024-01-03T00:00:00Z"

def entryText (id : JsString) : JsString :=
  js "\x7b\"id\":\"" ++ id ++ js "\",\"time\":\"" ++ snapshotTime ++ js "\"\x7d"

def listingText (ids : List JsString) : JsString := js "[" ++ (js ",").intercalate (ids.map entryText) ++ js "]"

def summaryText (id : JsString) : JsString :=
  js "\x7b\"message_type\":\"summary\",\"snapshot_id\":\"" ++ id ++ js "\"\x7d"

/-- The next id: `s1`, `s2` and so on. -/
def nextId (r : Snapshots) : JsString := js "s" ++ js (toString (r.length + 1))

def run (r : Snapshots) : ResticOp → ResticAnswer × Snapshots
  | .repositoryCheck | .snapshots => (⟨exited 0 (listingText (r.map Prod.fst)) [], []⟩, r)
  | .init => (⟨exited 1 [] (js "Fatal: create repository failed: config file already exists"), []⟩, r)
  | .snapshot id =>
      match r.files? id with
      | some _ => (⟨exited 0 (listingText [id]) [], []⟩, r)
      | none => (⟨exited 1 [] (js "no matching ID found for prefix"), []⟩, r)
  | .backup dir _ => (⟨exited 0 (summaryText r.nextId) [], []⟩, r ++ [(r.nextId, dir)])
  | .restore id =>
      match r.files? id with
      | some dir => (⟨exited 0 [] [], dir.entries⟩, r)
      | none => (⟨exited 1 [] (js "no matching ID found for prefix"), []⟩, r)

/-- Other writers append snapshots. -/
def restic : Restic Snapshots where
  run r _ op a r' := (a, r') = run r op
  outside r r' := ∃ more, r' = r ++ more
  snapshot? r _ id := r.files? id

theorem files?_append {r : Snapshots} {id : JsString} {dir : Dir} (h : r.files? id = some dir)
    (more : Snapshots) : (r ++ more).files? id = some dir := by
  unfold files? at h ⊢
  obtain ⟨snapshot, hfind, rfl⟩ := Option.map_eq_some_iff.mp h
  rw [List.find?_append, hfind]
  rfl

theorem faithful_restic : restic.Faithful where
  restore {r projectId id a r'} h hcode := by
    have hrun : (a, r') = run r (.restore id) := h
    rw [run] at hrun
    split at hrun
    · rename_i dir hdir
      cases hrun
      exact ⟨dir, hdir, .refl _⟩
    · cases hrun
      exact absurd hcode (by decide)
  keeps {r projectId op a r'} h projectId' id dir hdir := by
    have hrun : (a, r') = run r op := h
    cases op with
    | repositoryCheck | init | snapshots =>
        cases hrun
        exact hdir
    | snapshot id' =>
        rw [run] at hrun
        split at hrun <;> cases hrun <;> exact hdir
    | backup files pushedBy =>
        cases hrun
        exact files?_append hdir _
    | restore id' =>
        rw [run] at hrun
        split at hrun <;> cases hrun <;> exact hdir
  outside {r r'} h projectId id dir hdir := by
    obtain ⟨more, rfl⟩ := h
    exact files?_append hdir more

end Snapshots

/-! ## The example runs -/

section Example

def exampleData (value : String) : SecretData := ⟨[(js "A", js value)], List.nodup_singleton _⟩

/-- The secret `api` of the example project, with one key. -/
def exampleSecret (id value : String) (version : Nat) : Secret where
  name := js "api"
  data := exampleData value
  id := js id
  projectId := js "p"
  dateCreated := js "2024-01-01T00:00:00.000Z"
  dateUpdated := js "2024-01-01T00:00:00.000Z"
  version := version

/-- The files of a snapshot with the secret `api`. -/
def exampleFiles (value : String) : Dir where
  entries := [(js "api.json", .file (stringifyIndented (exampleData value)))]
  distinct := List.nodup_singleton _

def listingItem (id : String) : Option (JsObject JsValue) :=
  some
    { entries := [(js "id", .str (js id)), (js "time", .str Snapshots.snapshotTime)]
      distinct := by
        show [js "id", js "time"].Nodup
        decide }

/-- The summary of a backup. -/
def summary (id : String) : JsObject JsValue where
  entries := [(js "message_type", .str (js "summary")), (js "snapshot_id", .str (js id))]
  distinct := by
    show [js "message_type", js "snapshot_id"].Nodup
    decide

def emptyHash : JsString := js "4f53cda18c2baa0c0354bb5f9a3ecbe5ed12ab4d8e11ba873c2f11161202b945"

/-- The hash of the secret `api` with the value `1`, and with the value `2`. -/
def hash1 : JsString := js "2c6fcd304aa3cfe1b6dbc7bc743e7b8b0f14ee45e35a4697d20dde3da032293d"

def hash2 : JsString := js "57c40a89b3f21b6d7e8ae5031f1ea91980619970dc7be05089ed52584da49c75"

def exampleDigests : List (JsString × JsString) :=
  [(js "[]", emptyHash), (js "[\x7b\"name\":\"api\",\"data\":\x7b\"A\":\"1\"\x7d\x7d]", hash1),
    (js "[\x7b\"name\":\"api\",\"data\":\x7b\"A\":\"2\"\x7d\x7d]", hash2)]

/-- What `JSON.parse` makes of the texts of the runs. -/
def exampleDocuments : List (JsString × Json) :=
  [(Snapshots.listingText [], .array []), (Snapshots.listingText [js "s1"], .array [listingItem "s1"]),
    (Snapshots.listingText [js "s2"], .array [listingItem "s2"]),
    (Snapshots.listingText [js "s1", js "s2"], .array [listingItem "s1", listingItem "s2"]),
    (Snapshots.summaryText (js "s1"), .object (summary "s1")), (Snapshots.summaryText (js "s2"), .object (summary "s2")),
    (stringifyIndented (exampleData "1"), (exampleData "1").toJson),
    (stringifyIndented (exampleData "2"), (exampleData "2").toJson)]

noncomputable def runPlatform : Platform :=
  { (Platform.ofDigests exampleDigests).withDocuments exampleDocuments with
    dateParse := fun time => if time = Snapshots.snapshotTime then some 1704240000000 else none }

theorem hashInjective_runPlatform : runPlatform.HashInjective :=
  fun _ _ h => tableDigest_injective (by decide) (by decide) h

theorem digest_runPlatform (text : JsString) : runPlatform.sha256 text ≠ [] :=
  tableDigest_ne_nil (by decide) text

theorem parsesBack_runPlatform (data : SecretData) : runPlatform.ParsesBack data := by
  refine Platform.parsesBack_withDocuments (Platform.parsesBack_ofDigests exampleDigests) (fun d hd => ?_) data
  have hcases : d ∈ [(stringifyIndented (exampleData "1"), (exampleData "1").toJson),
      (stringifyIndented (exampleData "2"), (exampleData "2").toJson)] ∨
      d.1.take 2 ∉ [js "\x7b\x7d", js "\x7b\n"] := by
    revert d
    decide
  rcases hcases with hfile | hshape
  · rcases List.mem_cons.mp hfile with rfl | hfile
    · exact Or.inl ⟨_, rfl⟩
    · exact Or.inl ⟨_, List.mem_singleton.mp hfile⟩
  · exact Or.inr hshape

def exampleNow : JsString := js "2024-01-05T00:00:00.000Z"

/-- The next steps of an operation. -/
def steps (t n : Nat) : List (Move Operation JsString) := List.replicate n (.run t exampleNow)

noncomputable def playExample (moves : List (Move Operation JsString)) (w : World Snapshots) :
    Option (Config (World Snapshots) Cmd Cmd.Answer Failure Response Operation) :=
  play (serve runPlatform exampleTimeouts) (fun t _ _ => act Snapshots.run t) moves ⟨w, []⟩

theorem playExample_reachable {admits : Operation → Prop} {moves : List (Move Operation JsString)}
    (hadmits : ∀ op, Move.spawn op ∈ moves → admits op) {w : World Snapshots}
    {cfg : Config (World Snapshots) Cmd Cmd.Answer Failure Response Operation}
    (h : playExample moves w = some cfg) :
    (server runPlatform exampleTimeouts Snapshots.restic admits).Reachable w cfg :=
  play_reachable (fun _ _ _ => rfl) hadmits h

end Example

end SecretsManager
