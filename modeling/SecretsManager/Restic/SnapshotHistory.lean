import SecretsManager.Js.KeyOrder
import SecretsManager.Restic.SyncService

/-!
# The snapshot history

The history of a repository, most recent first, is listed as a whole and paged afterwards: a page follows the
snapshot that its cursor names. A page is never longer than the limit that its request was read to, and that is
at most 200.
-/

namespace SecretsManager

open Js Interleaving JsObject

/-- A value of a query string, which may have been given several times. -/
inductive QueryValue where
  | one (text : JsString)
  | many (texts : List JsString)
  deriving DecidableEq

def QueryValue.first : QueryValue → Option JsString
  | one text => some text
  | many texts => texts.head?

structure SnapshotPageQuery where
  limit : Option QueryValue
  before : Option QueryValue
  deriving DecidableEq

structure SnapshotPageRequest where
  limit : Nat
  before : Option JsString
  deriving DecidableEq

/-- The attribution of a snapshot is left out. -/
structure SnapshotInfo where
  id : JsString
  time : JsString
  deriving DecidableEq

structure SnapshotPage where
  snapshots : List SnapshotInfo
  hasMore : Bool
  nextBefore : Option JsString
  deriving DecidableEq

def snapshotHistoryDefaultLimit : Nat := 50

def snapshotHistoryMaxLimit : Nat := 200

/-- `Number.MAX_SAFE_INTEGER` -/
def maxSafeInteger : Nat := 9007199254740991

def invalidLimit : Failure :=
  .sync ⟨js "limit must be a positive integer (default 50, max 200)", 400, some (js "INVALID_SNAPSHOT_LIMIT")⟩

/-- The number that a text of digits stands for, when it is a safe integer from 1. -/
def parseLimit (text : JsString) : Option Nat :=
  match text with
  | [] => none
  | _ => (text.foldl readDigit (some 0)).filter fun n => 1 ≤ n && n ≤ maxSafeInteger

def parseSnapshotPageQuery (query : SnapshotPageQuery) : Except Failure SnapshotPageRequest :=
  let before := ((query.before.bind QueryValue.first).map trim).filter fun text => text ≠ []
  match query.limit.bind QueryValue.first with
  | none => .ok ⟨snapshotHistoryDefaultLimit, before⟩
  | some rawLimit =>
      match parseLimit (trim rawLimit) with
      | none => .error invalidLimit
      | some parsed => .ok ⟨min parsed snapshotHistoryMaxLimit, before⟩

def unknownCursor : Failure :=
  .sync ⟨js "Unknown snapshot history cursor: reload the history", 400, some (js "INVALID_SNAPSHOT_CURSOR")⟩

/-- The page from the position `start`. -/
def pageFrom (snapshots : List SnapshotInfo) (limit start : Nat) : SnapshotPage :=
  let page := (snapshots.drop start).take limit
  let hasMore : Bool := start + page.length < snapshots.length
  { snapshots := page
    hasMore := hasMore
    nextBefore := if hasMore then page.getLast?.map SnapshotInfo.id else none }

def paginateSnapshotHistory (snapshots : List SnapshotInfo) (limit : Nat) (before : Option JsString) :
    Except Failure SnapshotPage :=
  match before with
  | none | some [] => .ok (pageFrom snapshots limit 0)
  | some cursor =>
      match snapshots.findIdx? fun snapshot => snapshot.id = cursor with
      | none => .error unknownCursor
      | some index => .ok (pageFrom snapshots limit (index + 1))

/-- `ResticSyncListSnapshots` -/
def resticSyncListSnapshots (P : Platform) (timeouts : ResticTimeouts) (project : Project) : Op (List SnapshotInfo) := do
  let snapshots ← ResticClient.snapshots P ⟨project, timeouts⟩
  let sorted := snapshots.mergeSort fun a b => compareSnapshots P b a ≤ 0
  pure (sorted.map fun snapshot => ⟨snapshot.id, snapshot.time⟩)

theorem parseSnapshotPageQuery_limit {query : SnapshotPageQuery} {request : SnapshotPageRequest}
    (h : parseSnapshotPageQuery query = .ok request) : 1 ≤ request.limit ∧ request.limit ≤ snapshotHistoryMaxLimit := by
  unfold parseSnapshotPageQuery at h
  dsimp only at h
  split at h
  · cases h
    show 1 ≤ snapshotHistoryDefaultLimit ∧ snapshotHistoryDefaultLimit ≤ snapshotHistoryMaxLimit
    decide
  · split at h
    · cases h
    · rename_i parsed hparsed
      cases h
      have hpos : 1 ≤ parsed := by
        unfold parseLimit at hparsed
        split at hparsed
        · cases hparsed
        · obtain ⟨-, hrange⟩ := Option.filter_eq_some_iff.mp hparsed
          exact of_decide_eq_true (Bool.and_eq_true_iff.mp hrange).1
      exact ⟨le_min hpos (by decide), min_le_right _ _⟩

theorem length_paginateSnapshotHistory {snapshots : List SnapshotInfo} {limit : Nat} {before : Option JsString}
    {page : SnapshotPage} (h : paginateSnapshotHistory snapshots limit before = .ok page) :
    page.snapshots.length ≤ limit := by
  have hfrom : ∀ start, (pageFrom snapshots limit start).snapshots.length ≤ limit := fun start => by
    rw [pageFrom, List.length_take]
    exact min_le_left _ _
  unfold paginateSnapshotHistory at h
  split at h
  · cases h
    exact hfrom 0
  · cases h
    exact hfrom 0
  · split at h
    · cases h
    · cases h
      exact hfrom _

end SecretsManager
