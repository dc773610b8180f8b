import Mathlib.Data.Int.ConditionallyCompleteOrder
import Mathlib.Data.Prod.Lex
import Mathlib.Order.ConditionallyCompleteLattice.Basic
import Mathlib.Order.WithBot
import SecretsManager.Library.Sequential
import SecretsManager.Library.SortedBy
import SecretsManager.Restic.SnapshotHistory
import SecretsManager.Restic.SyncPreview
import SecretsManager.Restic.SyncStatusCache
import SecretsManager.Runs

/-!
# The order of snapshots

Snapshots are compared by a rank: the instant of their time, before which a time that cannot be parsed comes, and
then the id. Whatever asks for the latest snapshot of a listing gets the one of the greatest rank.
-/

namespace SecretsManager

open Js Interleaving

section Platform
variable (P : Platform)

/-! ## The rank -/

def snapshotRank (s : ResticSnapshot) : WithBot Int ×ₗ JsString :=
  toLex (match parseSnapshotTime P s.time with | none => ⊥ | some time => ((time : Int) : WithBot Int), s.id)

theorem compareSnapshots_eq (a b : ResticSnapshot) : compareSnapshots P a b =
    if snapshotRank P a < snapshotRank P b then -1 else if snapshotRank P b < snapshotRank P a then 1 else 0 := by
  unfold compareSnapshots compareIds snapshotRank
  cases parseSnapshotTime P a.time with
  | none =>
      cases parseSnapshotTime P b.time with
      | none => simp [Prod.Lex.toLex_lt_toLex]
      | some timeB => simp [Prod.Lex.toLex_lt_toLex]
  | some timeA =>
      cases parseSnapshotTime P b.time with
      | none => simp [Prod.Lex.toLex_lt_toLex]
      | some timeB =>
          rcases lt_trichotomy timeA timeB with hlt | rfl | hgt
          · simp [Prod.Lex.toLex_lt_toLex, hlt, hlt.ne]
          · simp [Prod.Lex.toLex_lt_toLex]
          · simp [Prod.Lex.toLex_lt_toLex, hgt, hgt.ne', hgt.not_gt]

variable {P} {a b s latest : ResticSnapshot} {l m : List ResticSnapshot}

theorem compareSnapshots_pos : 0 < compareSnapshots P a b ↔ snapshotRank P b < snapshotRank P a := by
  rw [compareSnapshots_eq]
  split_ifs with hlt hgt
  · exact iff_of_false (by decide) hlt.not_gt
  · exact iff_of_true (by decide) hgt
  · exact iff_of_false (by decide) hgt

theorem compareSnapshots_neg : compareSnapshots P a b < 0 ↔ snapshotRank P a < snapshotRank P b := by
  rw [compareSnapshots_eq]
  split_ifs with hlt hgt
  · exact iff_of_true (by decide) hlt
  · exact iff_of_false (by decide) hlt
  · exact iff_of_false (by decide) hlt

theorem compareSnapshots_nonpos : compareSnapshots P a b ≤ 0 ↔ snapshotRank P a ≤ snapshotRank P b := by
  rw [← not_lt, compareSnapshots_pos, not_lt]

theorem id_of_snapshotRank (h : snapshotRank P a = snapshotRank P b) : a.id = b.id := congrArg (fun r => (ofLex r).2) h

/-- The result of the comparison changes its sign with the order of the snapshots, and it orders snapshots of
distinct ids strictly and totally. -/
structure ComparesStrictly (compare : ResticSnapshot → ResticSnapshot → Int) : Prop where
  irrefl : ∀ a, compare a a = 0
  antisymm : ∀ a b, 0 < compare a b ↔ compare b a < 0
  trans : ∀ a b c, 0 < compare a b → 0 < compare b c → 0 < compare a c
  total : ∀ a b, a.id ≠ b.id → 0 < compare a b ∨ 0 < compare b a

theorem comparesStrictly (P : Platform) : ComparesStrictly (compareSnapshots P) where
  irrefl a := by
    rw [compareSnapshots_eq, if_neg (lt_irrefl _), if_neg (lt_irrefl _)]
  antisymm a b := by
    rw [compareSnapshots_pos, compareSnapshots_neg]
  trans a b c hab hbc := by
    rw [compareSnapshots_pos] at hab hbc ⊢
    exact hbc.trans hab
  total a b hne := by
    rw [compareSnapshots_pos, compareSnapshots_pos]
    exact (lt_or_gt_of_ne fun heq => hne (id_of_snapshotRank heq)).symm

/-! ## The latest snapshot -/

def IsLatest (P : Platform) (l : List ResticSnapshot) (latest : ResticSnapshot) : Prop :=
  latest ∈ l ∧ ∀ s ∈ l, snapshotRank P s ≤ snapshotRank P latest

theorem isLatest_latestSnapshot (h : latestSnapshot P l = some latest) : IsLatest P l latest := by
  cases l with
  | nil => cases h
  | cons first rest =>
      cases h
      -- the latest of those seen so far
      have hfold : ∀ (rest seen : List ResticSnapshot) (best : ResticSnapshot), IsLatest P seen best → IsLatest P (seen ++ rest)
          (rest.foldl (fun latest current => if 0 < compareSnapshots P current latest then current else latest) best) := by
        intro rest
        induction rest with
        | nil =>
            intro seen best hbest
            rw [List.append_nil]
            exact hbest
        | cons current rest ih =>
            intro seen best hbest
            rw [List.foldl_cons, List.append_cons]
            refine ih (seen ++ [current]) _ ?_
            split_ifs with hlater
            · rw [compareSnapshots_pos] at hlater
              refine ⟨by simp, fun s hs => ?_⟩
              rcases List.mem_append.mp hs with hs | hs
              · exact (hbest.2 s hs).trans hlater.le
              · rw [List.mem_singleton.mp hs]
            · rw [compareSnapshots_pos, not_lt] at hlater
              refine ⟨List.mem_append_left _ hbest.1, fun s hs => ?_⟩
              rcases List.mem_append.mp hs with hs | hs
              · exact hbest.2 s hs
              · rw [List.mem_singleton.mp hs]
                exact hlater
      exact hfold rest [first] first ⟨List.mem_singleton_self _, fun s hs => by rw [List.mem_singleton.mp hs]⟩

theorem IsLatest.unique (h : IsLatest P l a) (h' : IsLatest P l b) (hids : SortedBy.Distinct ResticSnapshot.id l) : a = b :=
  hids.inj h.1 h'.1 (id_of_snapshotRank (le_antisymm (h'.2 a h.1) (h.2 b h'.1)))

theorem IsLatest.perm (h : IsLatest P l latest) (hlm : l.Perm m) : IsLatest P m latest :=
  ⟨hlm.mem_iff.mp h.1, fun s hs => h.2 s (hlm.mem_iff.mpr hs)⟩

theorem latestSnapshot_eq_none : latestSnapshot P l = none ↔ l = [] := by
  cases l with
  | nil => exact iff_of_true rfl rfl
  | cons first rest => exact iff_of_false nofun nofun

/-- The latest snapshot of a listing is that of its greatest rank. -/
theorem latestSnapshot_eq_some (hids : SortedBy.Distinct ResticSnapshot.id l) :
    latestSnapshot P l = some latest ↔ IsLatest P l latest := by
  refine ⟨isLatest_latestSnapshot, fun h => ?_⟩
  cases hfound : latestSnapshot P l with
  | none =>
      rw [latestSnapshot_eq_none.mp hfound] at h
      cases h.1
  | some found => rw [(isLatest_latestSnapshot hfound).unique h hids]

theorem latestSnapshot_perm (hids : SortedBy.Distinct ResticSnapshot.id l) (hml : m.Perm l) :
    latestSnapshot P m = latestSnapshot P l := by
  cases hfound : latestSnapshot P m with
  | none =>
      have hnil := latestSnapshot_eq_none.mp hfound
      rw [hnil] at hml
      rw [hml.nil_eq.symm]
      rfl
  | some found => exact ((latestSnapshot_eq_some hids).mpr ((isLatest_latestSnapshot hfound).perm hml)).symm

/-- The history goes down in rank. -/
theorem pairwise_history (P : Platform) (l : List ResticSnapshot) :
    (l.mergeSort fun a b => compareSnapshots P b a ≤ 0).Pairwise fun a b => snapshotRank P b ≤ snapshotRank P a := by
  have hsorted := @List.pairwise_mergeSort _ (fun a b => decide (compareSnapshots P b a ≤ 0))
    (fun a b c hab hbc => by
      simp only [decide_eq_true_eq, compareSnapshots_nonpos] at hab hbc ⊢
      exact hbc.trans hab)
    (fun a b => by
      simp only [Bool.or_eq_true, decide_eq_true_eq, compareSnapshots_nonpos]
      exact le_total _ _) l
  exact hsorted.imp fun hle => compareSnapshots_nonpos.mp (of_decide_eq_true hle)

/-- The history begins with the latest snapshot. -/
theorem head?_history (P : Platform) (hids : SortedBy.Distinct ResticSnapshot.id l) :
    (l.mergeSort fun a b => compareSnapshots P b a ≤ 0).head? = latestSnapshot P l := by
  have hperm := List.mergeSort_perm l fun a b => decide (compareSnapshots P b a ≤ 0)
  have hsorted := pairwise_history P l
  rw [← latestSnapshot_perm hids hperm]
  have hids' := hids.perm hperm.symm
  cases hhistory : l.mergeSort fun a b => compareSnapshots P b a ≤ 0 with
  | nil => rfl
  | cons first rest =>
      rw [hhistory] at hsorted hids'
      refine ((latestSnapshot_eq_some hids').mpr ⟨List.mem_cons_self, fun s hs => ?_⟩).symm
      rcases List.mem_cons.mp hs with rfl | hs
      · exact le_refl _
      · exact (List.pairwise_cons.mp hsorted).1 s hs

/-! ## The places that ask for the latest -/

section Sites
variable {W : Type} {timeouts : ResticTimeouts} {exec : W → (c : Cmd) → c.Answer → W → Prop} {w w' : W}

/-- Every listing of a repository that the programs get has these snapshots, in some order. -/
def AnswersListing (P : Platform) (timeouts : ResticTimeouts) (exec : W → (c : Cmd) → c.Answer → W → Prop)
    (l : List ResticSnapshot) : Prop :=
  ∀ w projectId a w' snapshots, exec w (.restic projectId .snapshots) a w' →
    snapshotsResult P timeouts a.result = .ok snapshots → snapshots.Perm l

theorem runs_snapshots {project : Project} (hlisting : AnswersListing P timeouts exec l) {snapshots : List ResticSnapshot}
    (h : (ResticClient.snapshots P ⟨project, timeouts⟩).Runs exec w (.ok snapshots) w') : snapshots.Perm l := by
  obtain ⟨a, hexec, hresult⟩ := runs_answer.mp h
  exact hlisting w _ a w' snapshots hexec hresult.symm

/-- What follows a listing goes on with these snapshots. -/
theorem runs_snapshots_bind {α : Type} (project : Project) (hlisting : AnswersListing P timeouts exec l)
    {f : List ResticSnapshot → Op α} {r : α}
    (h : (ResticClient.snapshots P ⟨project, timeouts⟩ >>= f).Runs exec w (.ok r) w') :
    ∃ snapshots w₁, snapshots.Perm l ∧ (f snapshots).Runs exec w₁ (.ok r) w' := by
  obtain ⟨snapshots, w₁, hsnapshots, hrest⟩ := runs_bind_ok.mp h
  exact ⟨snapshots, w₁, runs_snapshots hlisting hsnapshots, hrest⟩

theorem runs_prepareRepository {project : Project} (hlisting : AnswersListing P timeouts exec l)
    {snapshots : List ResticSnapshot}
    (h : (prepareRepository P ⟨project, timeouts⟩).Runs exec w (.ok snapshots) w') : snapshots.Perm l := by
  obtain ⟨initialized, w₁, -, hrest⟩ := runs_bind_ok.mp h
  dsimp only at hrest
  split_ifs at hrest
  · obtain ⟨_, w₂, -, hsnapshots⟩ := runs_bind_ok.mp hrest
    exact runs_snapshots hlisting hsnapshots
  · exact runs_snapshots hlisting hrest

theorem runs_withWorkDir {α : Type} {task : Op α} {r : α} (h : (withWorkDir task).Runs exec w (.ok r) w') :
    ∃ w₁ w₂, task.Runs exec w₁ (.ok r) w₂ := by
  obtain ⟨_, w₁, -, hrest⟩ := runs_bind_ok.mp h
  obtain ⟨y, w₂, htask, hend⟩ := runs_tryFinally hrest
  rcases hend with ⟨-, rfl⟩ | ⟨e, -, heq⟩
  · obtain ⟨_, w₃, -, htask⟩ := runs_bind_ok.mp htask
    exact ⟨w₃, w₂, htask⟩
  · cases heq

/-- For one listing, the history begins with the latest snapshot, a pull preview shows it, a pull applies it and
was asked for it, a push goes on only when it is the last synchronized one, and the status needs a pull when it
is not. -/
structure AgreeOnLatest (P : Platform) (timeouts : ResticTimeouts) (exec : W → (c : Cmd) → c.Answer → W → Prop)
    (l : List ResticSnapshot) (latest : Option ResticSnapshot) : Prop where
  history : ∀ project w w' history, (resticSyncListSnapshots P timeouts project).Runs exec w (.ok history) w' →
    history.head? = latest.map fun s => ⟨s.id, s.time⟩
  preview : ∀ project w w' preview, (resticSyncPreviewPull P timeouts project).Runs exec w (.ok preview) w' →
    ∃ s, latest = some s ∧ preview.snapshotId = s.id
  pull : ∀ project snapshotId expected w w' pulled,
    (resticSyncPull P timeouts project snapshotId expected).Runs exec w (.ok pulled) w' →
      ∃ s, latest = some s ∧ snapshotId = s.id ∧ pulled.snapshotId = s.id
  push : ∀ project w w', (prepareRepository P ⟨project, timeouts⟩ >>= checkNoConflict P project).Runs exec w (.ok ()) w' →
    ∀ s, latest = some s → s.id = project.lastSyncSnapshotId
  conflict : ∀ project snapshots, snapshots.Perm l → (checkNoConflict P project snapshots = pure () ↔
    ∀ s, latest = some s → project.lastSyncSnapshotId ≠ [] ∧ s.id = project.lastSyncSnapshotId)
  status : ∀ project snapshots secretCount, snapshots.Perm l →
    ((resticSyncStatus P project snapshots secretCount).needsPull = true ↔
      ∃ s, latest = some s ∧ s.id ≠ project.lastSyncSnapshotId)

theorem checkNoConflict_eq_pure {project : Project} {snapshots : List ResticSnapshot} :
    checkNoConflict P project snapshots = pure () ↔ ∀ s, latestSnapshot P snapshots = some s →
      project.lastSyncSnapshotId ≠ [] ∧ s.id = project.lastSyncSnapshotId := by
  unfold checkNoConflict
  cases latestSnapshot P snapshots with
  | none => exact iff_of_true rfl nofun
  | some s =>
      dsimp only
      unfold ensureNoNewerSnapshot
      split_ifs with hnever hnewer
      · exact iff_of_false nofun fun h => (h s rfl).1 hnever
      · exact iff_of_false nofun fun h => hnewer (h s rfl).2
      · refine iff_of_true rfl fun s' hs' => ?_
        cases hs'
        exact ⟨hnever, not_not.mp hnewer⟩

theorem restoreAndApply_snapshotId {client : ResticClient} {expected : JsString} {s : ResticSnapshot}
    {r : RestoreSnapshotResult} (h : (restoreAndApply P client expected s).Runs exec w (.ok r) w') :
    r.snapshotId = s.id := by
  obtain ⟨listing, w₁, -, h⟩ := runs_bind_ok.mp h
  obtain ⟨_, w₂, -, h⟩ := runs_bind_ok.mp h
  obtain ⟨secrets, w₃, -, h⟩ := runs_bind_ok.mp h
  obtain ⟨_, w₄, -, h⟩ := runs_bind_ok.mp h
  obtain ⟨heq, -⟩ := runs_pure.mp h
  cases heq
  rfl

theorem previewRestored_snapshotId {client : ResticClient} {s : ResticSnapshot} {r : SyncPreviewResult}
    (h : (previewRestored P client s).Runs exec w (.ok r) w') : r.snapshotId = s.id := by
  obtain ⟨listing, w₁, -, h⟩ := runs_bind_ok.mp h
  obtain ⟨_, w₂, -, h⟩ := runs_bind_ok.mp h
  obtain ⟨_, w₃, -, h⟩ := runs_bind_ok.mp h
  split at h
  · exact absurd h not_runs_fail
  · obtain ⟨current, w₄, -, h⟩ := runs_bind_ok.mp h
    obtain ⟨heq, -⟩ := runs_pure.mp h
    cases heq
    rfl

theorem agreeOnLatest (hids : SortedBy.Distinct ResticSnapshot.id l) (hlisting : AnswersListing P timeouts exec l) :
    AgreeOnLatest P timeouts exec l (latestSnapshot P l) where
  history project w w' history h := by
    unfold resticSyncListSnapshots at h
    obtain ⟨snapshots, w₁, hperm, hrest⟩ := runs_snapshots_bind _ hlisting h
    obtain ⟨heq, -⟩ := runs_pure.mp hrest
    rw [Except.ok.inj heq]
    rw [List.head?_map, head?_history P (hids.perm hperm.symm), latestSnapshot_perm hids hperm]
  preview project w w' preview h := by
    obtain ⟨project', w₁, -, h⟩ := runs_bind_ok.mp h
    dsimp only at h
    obtain ⟨snapshots, w₂, hperm, hrest⟩ := runs_snapshots_bind _ hlisting h
    rw [latestSnapshot_perm hids hperm] at hrest
    split at hrest
    · exact absurd hrest not_runs_fail
    · rename_i s hs
      obtain ⟨w₃, w₄, hpreview⟩ := runs_withWorkDir hrest
      exact ⟨s, hs, previewRestored_snapshotId hpreview⟩
  pull project snapshotId expected w w' pulled h := by
    unfold resticSyncPull syncQueueRun resticSyncPullUnlocked at h
    split_ifs at h
    · exact absurd h not_runs_fail
    obtain ⟨project', w₁, -, h⟩ := runs_bind_ok.mp h
    obtain ⟨expected', w₂, -, h⟩ := runs_bind_ok.mp h
    obtain ⟨w₃, w₄, hpull⟩ := runs_withWorkDir h
    obtain ⟨snapshots, w₅, hperm, hrest⟩ := runs_snapshots_bind _ hlisting hpull
    rw [latestSnapshot_perm hids hperm] at hrest
    split at hrest
    · exact absurd hrest not_runs_fail
    · rename_i s hs
      split_ifs at hrest with hsame
      · exact absurd hrest not_runs_fail
      · exact ⟨s, hs, (not_not.mp hsame).symm, restoreAndApply_snapshotId hrest⟩
  push project w w' h s hs := by
    obtain ⟨snapshots, w₁, hprepare, hcheck⟩ := runs_bind_ok.mp h
    rw [← latestSnapshot_perm hids (runs_prepareRepository hlisting hprepare)] at hs
    unfold checkNoConflict ensureNoNewerSnapshot at hcheck
    rw [hs] at hcheck
    dsimp only at hcheck
    split_ifs at hcheck with hnever hnewer
    · exact absurd hcheck not_runs_fail
    · exact absurd hcheck not_runs_fail
    · exact not_not.mp hnewer
  conflict project snapshots hperm := by
    rw [checkNoConflict_eq_pure, latestSnapshot_perm hids hperm]
  status project snapshots secretCount hperm := by
    unfold resticSyncStatus
    dsimp only
    rw [latestSnapshot_perm hids hperm]
    cases latestSnapshot P l with
    | none => simp
    | some s => simp

end Sites

/-- The order of snapshots is strict and total, the latest snapshot of a listing is its greatest for every order
of the listing, and all places agree on it. -/
theorem latest_agrees (P : Platform) {l : List ResticSnapshot} (hids : SortedBy.Distinct ResticSnapshot.id l) :
    ComparesStrictly (compareSnapshots P) ∧ (∀ m, m.Perm l → latestSnapshot P m = latestSnapshot P l) ∧
      (∀ latest, latestSnapshot P l = some latest ↔
        latest ∈ l ∧ ∀ s ∈ l, s ≠ latest → 0 < compareSnapshots P latest s) ∧
      ∀ (W : Type) (exec : W → (c : Cmd) → c.Answer → W → Prop) (timeouts : ResticTimeouts),
        AnswersListing P timeouts exec l → AgreeOnLatest P timeouts exec l (latestSnapshot P l) := by
  refine ⟨comparesStrictly P, fun m hml => latestSnapshot_perm hids hml, fun latest => ?_,
    fun W exec timeouts hlisting => agreeOnLatest hids hlisting⟩
  rw [latestSnapshot_eq_some hids]
  refine and_congr_right fun hmem => forall₂_congr fun s hs => ?_
  rw [compareSnapshots_pos]
  constructor
  · exact fun hle hne => hle.lt_of_ne fun heq => hne (hids.inj hs hmem (id_of_snapshotRank heq))
  · intro hlt
    by_cases heq : s = latest
    · rw [heq]
    · exact (hlt heq).le

end Platform

/-- Two snapshots of one instant. -/
def listedTwice : List ResticSnapshot := [⟨js "s1", Snapshots.snapshotTime⟩, ⟨js "s2", Snapshots.snapshotTime⟩]

/-- A server of which only the listings answer. -/
def onlyLists (_ : Unit) (c : Cmd) (a : c.Answer) (_ : Unit) : Prop :=
  match c, a with
  | .restic _ .snapshots, a => a.result = (Snapshots.run (listedTwice.map fun s => (s.id, Dir.empty)) .snapshots).1.result
  | _, _ => False

theorem latest_agrees_example : ComparesStrictly (compareSnapshots runPlatform) ∧
    AgreeOnLatest runPlatform exampleTimeouts onlyLists listedTwice (some ⟨js "s2", Snapshots.snapshotTime⟩) := by
  obtain ⟨hstrict, -, -, hagree⟩ := latest_agrees runPlatform (l := listedTwice) (by decide)
  refine ⟨hstrict, hagree Unit onlyLists exampleTimeouts fun w projectId a w' snapshots hexec hresult => ?_⟩
  have hlisted : a.result = (Snapshots.run (listedTwice.map fun s => (s.id, Dir.empty)) .snapshots).1.result := hexec
  rw [hlisted] at hresult
  cases hresult
  exact .refl _

end SecretsManager
