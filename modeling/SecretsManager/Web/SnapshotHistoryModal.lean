import SecretsManager.Library.CursorPages
import SecretsManager.Projects.ProjectsRoutes
import SecretsManager.Restic.SnapshotOrder

/-!
# The history dialog

The dialog of the web client loads the first page of the history and then, at each click, the page after the last
snapshot it has. The server lists the repository anew for each page. Snapshots that are pushed in between may come
anywhere in the history, and the pages still add up to all that the first listing has.
-/

namespace SecretsManager

open Js Interleaving CursorPages

/-! ## The client -/

def snapshotHistoryPageSize : Nat := 50

structure SnapshotPageParams where
  limit : Nat
  before : Option JsString
  deriving DecidableEq

/-- The page size is a parameter here. -/
def snapshotHistoryParams (pageSize : Nat) (before : Option JsString) : SnapshotPageParams :=
  ⟨pageSize, before.filter fun text => text ≠ []⟩

structure SnapshotHistoryPage (T : Type) where
  snapshots : List T
  hasMore : Bool
  nextBefore : Option JsString
  deriving DecidableEq

/-- `if (!seen.has(snapshot.id)) { seen.add(snapshot.id); snapshots.push(snapshot); }` -/
def pushUnseen {T : Type} (id : T → JsString) (merged : List T × List JsString) (snapshot : T) : List T × List JsString :=
  if id snapshot ∈ merged.2 then merged else (merged.1 ++ [snapshot], merged.2 ++ [id snapshot])

def mergeSnapshotPages {T : Type} (id : T → JsString) (current : List T) (incoming : Option (List T)) (hasMore : Bool)
    (nextBefore : Option JsString) : SnapshotHistoryPage T :=
  { snapshots := ((incoming.getD []).foldl (pushUnseen id) (current, current.map id)).1
    hasMore := hasMore
    nextBefore := nextBefore.filter fun text => text ≠ [] }

/-- The state of the dialog. The flag `loadingMore` lets no second request go while one is open, so a request and
its answer are one step here. -/
structure SnapshotHistoryModal where
  snapshots : List SnapshotInfo
  hasMore : Bool
  nextBefore : Option JsString
  error : JsString
  deriving DecidableEq

/-- `e.response?.data?.error || …` -/
def loadError (e : Failure) : JsString :=
  match (sendSyncError e).body with
  | .error message _ => if message = [] then js "Unable to load the snapshot history" else message
  | _ => js "Unable to load the snapshot history"

section Client
variable (pageSize : Nat) (get : SnapshotPageParams → Except Failure SnapshotPage)

def fetchPage (before : Option JsString) (append : Bool) (modal : SnapshotHistoryModal) : SnapshotHistoryModal :=
  match get (snapshotHistoryParams pageSize before) with
  | .ok data =>
      let page := mergeSnapshotPages SnapshotInfo.id (if append then modal.snapshots else []) (some data.snapshots)
        data.hasMore data.nextBefore
      { modal with snapshots := page.snapshots, hasMore := page.hasMore, nextBefore := page.nextBefore }
  | .error e =>
      if append then { modal with error := loadError e }
      else { snapshots := [], hasMore := false, nextBefore := none, error := loadError e }

def loadSnapshots (modal : SnapshotHistoryModal) : SnapshotHistoryModal :=
  fetchPage pageSize get none false { modal with error := [], hasMore := false, nextBefore := none }

def loadMore (modal : SnapshotHistoryModal) : SnapshotHistoryModal :=
  if modal.hasMore then fetchPage pageSize get modal.nextBefore true { modal with error := [] } else modal

end Client

/-- The answer of the route to the page that it reads from the query, for the history of the moment. -/
def getSnapshots (history : List SnapshotInfo) (params : SnapshotPageParams) : Except Failure SnapshotPage :=
  paginateSnapshotHistory history params.limit params.before

/-- The dialog after the first page and `n` more, each from the history of its own moment. -/
def openedModal (pageSize : Nat) (histories : Nat → List SnapshotInfo) (modal : SnapshotHistoryModal) :
    Nat → SnapshotHistoryModal
  | 0 => loadSnapshots pageSize (getSnapshots (histories 0)) modal
  | n + 1 => loadMore pageSize (getSnapshots (histories (n + 1))) (openedModal pageSize histories modal n)

/-- The route reads the parameters of the client as the page they ask for, when the id has no white space around
it. -/
theorem parse_snapshotHistoryParams {before : Option JsString} (h : ∀ id ∈ before, id ≠ [] ∧ trim id = id) :
    parseSnapshotPageQuery ⟨some (.one (js "50")), (snapshotHistoryParams snapshotHistoryPageSize before).before.map .one⟩ =
      .ok ⟨snapshotHistoryPageSize, before⟩ := by
  have hlimit : parseLimit (trim (js "50")) = some 50 := by decide
  cases before with
  | none =>
      simp [parseSnapshotPageQuery, snapshotHistoryParams, QueryValue.first, hlimit]
      rfl
  | some id =>
      obtain ⟨hne, htrim⟩ := h id rfl
      simp [parseSnapshotPageQuery, snapshotHistoryParams, Option.filter, QueryValue.first, hlimit, hne, htrim]
      rfl

/-! ## One page -/

theorem foldl_pushUnseen {T : Type} {id : T → JsString} {current incoming : List T}
    (h : SortedBy.Distinct id (current ++ incoming)) :
    incoming.foldl (pushUnseen id) (current, current.map id) = (current ++ incoming, (current ++ incoming).map id) := by
  induction incoming generalizing current with
  | nil => rw [List.append_nil, List.foldl_nil]
  | cons snapshot incoming ih =>
      have hunseen : id snapshot ∉ current.map id := by
        rw [SortedBy.Distinct, List.map_append] at h
        exact fun hseen => List.disjoint_of_nodup_append h hseen (List.mem_map_of_mem List.mem_cons_self)
      have hpush : pushUnseen id (current, current.map id) snapshot = (current ++ [snapshot], (current ++ [snapshot]).map id) := by
        rw [pushUnseen, if_neg hunseen, List.map_append]
        rfl
      rw [List.append_cons] at h
      rw [List.foldl_cons, hpush, ih h, ← List.append_cons]

/-- Nothing of a page is dropped when it has none of the snapshots of the pages before. -/
theorem mergeSnapshotPages_distinct {T : Type} {id : T → JsString} {current incoming : List T} (hasMore : Bool)
    (nextBefore : Option JsString) (h : SortedBy.Distinct id (current ++ incoming)) :
    (mergeSnapshotPages id current (some incoming) hasMore nextBefore).snapshots = current ++ incoming := by
  rw [mergeSnapshotPages, Option.getD_some, foldl_pushUnseen h]

section Page
variable {pageSize : Nat} {passed rest before after : List SnapshotInfo} {cursor : SnapshotInfo}

theorem pageFrom_append (pageSize : Nat) (passed rest : List SnapshotInfo) :
    pageFrom (passed ++ rest) pageSize passed.length =
      { snapshots := rest.take pageSize
        hasMore := rest.drop pageSize ≠ []
        nextBefore := if rest.drop pageSize ≠ [] then (rest.take pageSize).getLast?.map SnapshotInfo.id else none } := by
  have hmore : (passed.length + (rest.take pageSize).length < (passed ++ rest).length) ↔ rest.drop pageSize ≠ [] := by
    rw [List.length_append, List.length_take, ne_eq, List.drop_eq_nil_iff]
    omega
  simp only [pageFrom, List.drop_left, hmore, decide_eq_true_eq]

/-- The cursor is found where it stands. -/
theorem paginateSnapshotHistory_cursor (pageSize : Nat) (hids : SortedBy.Distinct SnapshotInfo.id (before ++ cursor :: after))
    (hcursor : cursor.id ≠ []) : paginateSnapshotHistory (before ++ cursor :: after) pageSize (some cursor.id) =
      .ok (pageFrom ((before ++ [cursor]) ++ after) pageSize (before ++ [cursor]).length) := by
  have hfound : (before ++ cursor :: after).findIdx? (fun snapshot => snapshot.id = cursor.id) = some before.length := by
    rw [List.findIdx?_append, List.findIdx?_eq_none_iff.mpr, List.findIdx?_cons, if_pos (decide_eq_true rfl)]
    · simp
    · intro s hs
      rw [SortedBy.distinct_append] at hids
      exact decide_eq_false (hids.2.2 s hs cursor List.mem_cons_self)
  unfold paginateSnapshotHistory
  split
  · contradiction
  · rename_i heq
    exact absurd (Option.some.inj heq) hcursor
  · rename_i heq
    cases heq
    rw [hfound, List.append_cons, List.length_append]
    rfl

end Page

/-! ## All pages -/

/-- New snapshots come in anywhere, none goes, and at some time no more come. -/
structure Grows (histories : Nat → List SnapshotInfo) : Prop where
  distinct : ∀ n, SortedBy.Distinct SnapshotInfo.id (histories n)
  nonBlank : ∀ n, ∀ s ∈ histories n, s.id ≠ []
  inserted : ∀ n, (histories n).Sublist (histories (n + 1))
  finite : ∃ last, ∀ n, last ≤ n → histories n = histories last

section Pages
variable {pageSize n : Nat} {histories : Nat → List SnapshotInfo} {modal : SnapshotHistoryModal}
variable {passed rest collected : List SnapshotInfo}

theorem Grows.nodup (h : Grows histories) (n : Nat) : (histories n).Nodup := List.Nodup.of_map _ (h.distinct n)

theorem Grows.sublist (h : Grows histories) {m n : Nat} (hmn : m ≤ n) : (histories m).Sublist (histories n) := by
  induction hmn with
  | refl => exact .refl _
  | step _ ih => exact ih.trans (h.inserted _)

/-- The dialog after the request number `n`. -/
structure Reads (histories : Nat → List SnapshotInfo) (n : Nat) (modal : SnapshotHistoryModal) : Prop where
  error : modal.error = []
  nextBefore : modal.nextBefore = if modal.hasMore then modal.snapshots.getLast?.map SnapshotInfo.id else none
  collects : ∃ passed rest, Collects (histories 0) (histories n) modal.snapshots rest passed ∧
    (modal.hasMore = true ↔ rest ≠ [])
  length : modal.hasMore = true → n < modal.snapshots.length

/-- The dialog with a page added. -/
def SnapshotHistoryModal.added (modal : SnapshotHistoryModal) (collected : List SnapshotInfo) (page : SnapshotPage) :
    SnapshotHistoryModal :=
  let merged := mergeSnapshotPages SnapshotInfo.id collected (some page.snapshots) page.hasMore page.nextBefore
  { modal with error := [], snapshots := merged.snapshots, hasMore := merged.hasMore, nextBefore := merged.nextBefore }

theorem loadMore_of_ok {get : SnapshotPageParams → Except Failure SnapshotPage} {page : SnapshotPage}
    (hmore : modal.hasMore = true) (hget : get (snapshotHistoryParams pageSize modal.nextBefore) = .ok page) :
    loadMore pageSize get modal = modal.added modal.snapshots page := by
  rw [loadMore, if_pos hmore, fetchPage, hget]
  rfl

theorem added_pageFrom (hsize : 1 ≤ pageSize) (hids : SortedBy.Distinct SnapshotInfo.id (collected ++ rest.take pageSize))
    (hnonBlank : ∀ s ∈ rest, s.id ≠ []) : modal.added collected (pageFrom (passed ++ rest) pageSize passed.length) =
      { snapshots := collected ++ rest.take pageSize
        hasMore := rest.drop pageSize ≠ []
        nextBefore := if rest.drop pageSize ≠ [] then (collected ++ rest.take pageSize).getLast?.map SnapshotInfo.id else none
        error := [] } := by
  rw [pageFrom_append, SnapshotHistoryModal.added, mergeSnapshotPages_distinct _ _ hids]
  congr 1
  show Option.filter _ _ = _
  split_ifs with hmore
  · cases hlast : (rest.take pageSize).getLast? with
    | none =>
        rw [List.getLast?_eq_none_iff, List.take_eq_nil_iff] at hlast
        rcases hlast with hzero | rfl
        · omega
        · exact absurd List.drop_nil hmore
    | some last =>
        have hlast' := List.mem_of_mem_take (List.mem_of_getLast? hlast)
        rw [List.getLast?_append, hlast]
        exact if_pos (decide_eq_true (hnonBlank last hlast'))
  · rfl

theorem reads_added (hsize : 1 ≤ pageSize) (hgrows : Grows histories)
    (hcollects : Collects (histories 0) (histories n) collected rest passed) (hlength : n ≤ collected.length) :
    Reads histories n (modal.added collected (pageFrom (passed ++ rest) pageSize passed.length)) := by
  have hread := hcollects.read pageSize
  have hnonBlank : ∀ s ∈ rest, s.id ≠ [] := fun s hs =>
    hgrows.nonBlank n s (hcollects.items_eq ▸ List.mem_append_right passed hs)
  rw [added_pageFrom hsize ((hgrows.distinct n).sublist hread.sublist_items) hnonBlank]
  refine ⟨rfl, ?_, ⟨_, _, hread, decide_eq_true_iff⟩, fun hmore => ?_⟩
  · simp only [decide_eq_true_eq]
  · have hlong := List.drop_eq_nil_iff.not.mp (of_decide_eq_true hmore)
    rw [List.length_append, List.length_take]
    omega

/-- While there is more, each request brings a page, with the cursor found in the history of its moment. -/
theorem reads_openedModal (hsize : 1 ≤ pageSize) (hgrows : Grows histories) (modal : SnapshotHistoryModal) (n : Nat)
    (hmore : ∀ m < n, (openedModal pageSize histories modal m).hasMore = true) :
    Reads histories n (openedModal pageSize histories modal n) := by
  induction n with
  | zero => exact @reads_added pageSize 0 histories modal [] _ [] hsize hgrows (.start _ _) (Nat.zero_le _)
  | succ n ih =>
      have hreads := ih fun m hm => hmore m (hm.trans n.lt_succ_self)
      have hmore := hmore n n.lt_succ_self
      obtain ⟨passed, rest, hcollects, -⟩ := hreads.collects
      have hlength := hreads.length hmore
      have hnextBefore := hreads.nextBefore
      obtain ⟨cursor, hcursor⟩ : ∃ cursor, (openedModal pageSize histories modal n).snapshots.getLast? = some cursor :=
        ⟨_, List.getLast?_eq_some_getLast (List.ne_nil_of_length_pos (by omega))⟩
      rw [hmore, if_pos rfl, hcursor, Option.map_some] at hnextBefore
      have hlisted := (hgrows.inserted n).subset (hcollects.sublist_items.subset (List.mem_of_getLast? hcursor))
      obtain ⟨before, after, hhistory⟩ := List.append_of_mem hlisted
      have hcollects := hcollects.grow (hgrows.sublist n.zero_le).subset (hgrows.inserted n) (hgrows.nodup _) hcursor hhistory
      have hnonBlank := hgrows.nonBlank _ cursor hlisted
      have hids := hgrows.distinct (n + 1)
      rw [hhistory] at hids
      have hpage := paginateSnapshotHistory_cursor pageSize hids hnonBlank
      have hloaded : openedModal pageSize histories modal (n + 1) = (openedModal pageSize histories modal n).added
          (openedModal pageSize histories modal n).snapshots
          (pageFrom ((before ++ [cursor]) ++ after) pageSize (before ++ [cursor]).length) := by
        refine loadMore_of_ok hmore ?_
        rw [hnextBefore, getSnapshots, snapshotHistoryParams, Option.filter_some, if_pos (decide_eq_true hnonBlank),
          hhistory]
        exact hpage
      rw [hloaded]
      exact reads_added hsize hgrows hcollects hlength

/-- Paging comes to an end: each page has another snapshot, of those that the last history has. -/
theorem exists_last_page (hsize : 1 ≤ pageSize) (hgrows : Grows histories) (modal : SnapshotHistoryModal) :
    ∃ n, (openedModal pageSize histories modal n).hasMore = false := by
  by_contra hforever
  have hmore : ∀ n, (openedModal pageSize histories modal n).hasMore = true := fun n =>
    Bool.eq_true_of_not_eq_false fun h => hforever ⟨n, h⟩
  obtain ⟨last, hlast⟩ := hgrows.finite
  have hreads := reads_openedModal hsize hgrows modal (last + (histories last).length) fun m _ => hmore m
  obtain ⟨passed, rest, hcollects, -⟩ := hreads.collects
  have hlength := hreads.length (hmore _)
  have hbound := hcollects.sublist_items.length_le
  rw [hlast _ (Nat.le_add_right _ _)] at hbound
  omega

/-- The dialog has read to the end with the request `n`. -/
structure ReadsAll (histories : Nat → List SnapshotInfo) (dialog : Nat → SnapshotHistoryModal) (n : Nat) : Prop where
  answered : ∀ m ≤ n, (dialog m).error = []
  followed : ∀ m < n, (dialog m).nextBefore ≠ none
  last : (dialog n).nextBefore = none ∧ (dialog n).hasMore = false
  distinct : SortedBy.Distinct SnapshotInfo.id (dialog n).snapshots
  first : (histories 0).Sublist (dialog n).snapshots
  listed : (dialog n).snapshots.Sublist (histories n)

theorem exists_readsAll (hsize : 1 ≤ pageSize) (hgrows : Grows histories) (modal : SnapshotHistoryModal) :
    ∃ n, ReadsAll histories (openedModal pageSize histories modal) n := by
  classical
  have hexists := exists_last_page hsize hgrows modal
  have hmore : ∀ m < Nat.find hexists, (openedModal pageSize histories modal m).hasMore = true := fun m hm =>
    Bool.eq_true_of_not_eq_false (Nat.find_min hexists hm)
  have hreads : ∀ m ≤ Nat.find hexists, Reads histories m (openedModal pageSize histories modal m) := fun m hm =>
    reads_openedModal hsize hgrows modal m fun k hk => hmore k (hk.trans_le hm)
  have hlast := Nat.find_spec hexists
  obtain ⟨passed, rest, hcollects, hrest⟩ := (hreads _ le_rfl).collects
  rw [hlast] at hrest
  cases rest with
  | cons s rest => exact absurd (hrest.mpr nofun) Bool.false_ne_true
  | nil =>
      refine ⟨_, fun m hm => (hreads m hm).error, fun m hm hnone => ?_, ⟨?_, hlast⟩, ?_, ?_, hcollects.sublist_items⟩
      · have hnextBefore := (hreads m hm.le).nextBefore
        have hlength := (hreads m hm.le).length (hmore m hm)
        rw [hmore m hm, if_pos rfl, hnone, eq_comm, Option.map_eq_none_iff, List.getLast?_eq_none_iff] at hnextBefore
        rw [hnextBefore] at hlength
        exact absurd hlength (Nat.not_lt_zero m)
      · rw [(hreads _ le_rfl).nextBefore, hlast, if_neg Bool.false_ne_true]
      · exact (hgrows.distinct _).sublist hcollects.sublist_items
      · exact hcollects.first_sublist (hgrows.sublist (Nat.zero_le _)) (hgrows.nodup _)

end Pages

/-! ## The query of the route -/

section Route
variable {history : List SnapshotInfo} {histories : Nat → List SnapshotInfo} {modal : SnapshotHistoryModal}

/-- The answer of the route to the query of the dialog. -/
def querySnapshots (history : List SnapshotInfo) (params : SnapshotPageParams) : Except Failure SnapshotPage := do
  let request ← parseSnapshotPageQuery ⟨some (.one (js "50")), params.before.map .one⟩
  paginateSnapshotHistory history request.limit request.before

/-- As `openedModal`, with the queries that the dialog sends. -/
def servedModal (histories : Nat → List SnapshotInfo) (modal : SnapshotHistoryModal) : Nat → SnapshotHistoryModal
  | 0 => loadSnapshots snapshotHistoryPageSize (querySnapshots (histories 0)) modal
  | n + 1 => loadMore snapshotHistoryPageSize (querySnapshots (histories (n + 1))) (servedModal histories modal n)

/-- The id of a snapshot comes through the route as it is. -/
def Sendable (id : JsString) : Prop := id ≠ [] ∧ trim id = id

theorem querySnapshots_eq {before : Option JsString} (h : ∀ id ∈ before, Sendable id) :
    querySnapshots history (snapshotHistoryParams snapshotHistoryPageSize before) =
      getSnapshots history (snapshotHistoryParams snapshotHistoryPageSize before) := by
  have hkept : (snapshotHistoryParams snapshotHistoryPageSize before).before = before := by
    cases before with
    | none => rfl
    | some id => exact if_pos (decide_eq_true (h id rfl).1)
  rw [querySnapshots, parse_snapshotHistoryParams h, getSnapshots, hkept]
  rfl

theorem nextBefore_pageFrom {limit start : Nat} {id : JsString}
    (h : (pageFrom history limit start).nextBefore = some id) : ∃ s ∈ history, s.id = id := by
  rw [pageFrom] at h
  dsimp only at h
  split_ifs at h
  obtain ⟨s, hs, rfl⟩ := Option.map_eq_some_iff.mp h
  exact ⟨s, List.mem_of_mem_drop (List.mem_of_mem_take (List.mem_of_getLast? hs)), rfl⟩

theorem nextBefore_getSnapshots {params : SnapshotPageParams} {page : SnapshotPage} {id : JsString}
    (h : getSnapshots history params = .ok page) (hnext : page.nextBefore = some id) : ∃ s ∈ history, s.id = id := by
  unfold getSnapshots paginateSnapshotHistory at h
  split at h
  · cases h
    exact nextBefore_pageFrom hnext
  · cases h
    exact nextBefore_pageFrom hnext
  · split at h
    · cases h
    · cases h
      exact nextBefore_pageFrom hnext

/-- The next page is asked for after a snapshot of the history. -/
theorem nextBefore_fetchPage {before : Option JsString} {append : Bool}
    (hmodal : ∀ id ∈ modal.nextBefore, Sendable id) (hhistory : ∀ s ∈ history, Sendable s.id) :
    ∀ id ∈ (fetchPage snapshotHistoryPageSize (getSnapshots history) before append modal).nextBefore, Sendable id := by
  intro id hid
  rw [fetchPage] at hid
  split at hid
  · rename_i page hpage
    obtain ⟨hnext, -⟩ := Option.filter_eq_some_iff.mp hid
    obtain ⟨s, hs, rfl⟩ := nextBefore_getSnapshots hpage hnext
    exact hhistory s hs
  · split_ifs at hid
    · exact hmodal id hid
    · cases hid

/-- **The route reads what the dialog asks for** when no id has white space around it. -/
theorem servedModal_eq (h : ∀ n, ∀ s ∈ histories n, Sendable s.id) (modal : SnapshotHistoryModal) (n : Nat) :
    servedModal histories modal n = openedModal snapshotHistoryPageSize histories modal n ∧
      ∀ id ∈ (openedModal snapshotHistoryPageSize histories modal n).nextBefore, Sendable id := by
  have hnone : ∀ id ∈ (none : Option JsString), Sendable id := fun id hid => by cases hid
  induction n with
  | zero =>
      refine ⟨?_, nextBefore_fetchPage hnone (h 0)⟩
      rw [servedModal, openedModal, loadSnapshots, loadSnapshots, fetchPage, fetchPage, querySnapshots_eq hnone]
  | succ n ih =>
      obtain ⟨heq, hnext⟩ := ih
      rw [servedModal, openedModal, heq, loadMore, loadMore]
      split_ifs
      · refine ⟨?_, nextBefore_fetchPage hnext (h (n + 1))⟩
        rw [fetchPage, fetchPage, querySnapshots_eq hnext]
      · exact ⟨rfl, hnext⟩

/-- The dialog reads all of the first history through the route. -/
theorem exists_readsAll_served (hgrows : Grows histories) (h : ∀ n, ∀ s ∈ histories n, trim s.id = s.id)
    (modal : SnapshotHistoryModal) : ∃ n, ReadsAll histories (servedModal histories modal) n := by
  have hserved : servedModal histories modal = openedModal snapshotHistoryPageSize histories modal :=
    funext fun n => (servedModal_eq (fun n s hs => ⟨hgrows.nonBlank n s hs, h n s hs⟩) modal n).1
  rw [hserved]
  exact exists_readsAll (by decide) hgrows modal

end Route

/-! ## Listings that grow -/

section Listings
variable {P : Platform} {l m : List ResticSnapshot} {listings : Nat → List ResticSnapshot}

/-- The history that the server makes of a listing. -/
def snapshotHistory (P : Platform) (l : List ResticSnapshot) : List SnapshotInfo :=
  (l.mergeSort fun a b => compareSnapshots P b a ≤ 0).map fun snapshot => ⟨snapshot.id, snapshot.time⟩

theorem map_id_snapshotHistory : (snapshotHistory P l).map SnapshotInfo.id =
    (l.mergeSort fun a b => compareSnapshots P b a ≤ 0).map ResticSnapshot.id := List.map_map

theorem snapshotHistory_distinct (hids : SortedBy.Distinct ResticSnapshot.id l) :
    SortedBy.Distinct SnapshotInfo.id (snapshotHistory P l) := by
  rw [SortedBy.Distinct, map_id_snapshotHistory]
  exact hids.perm (List.mergeSort_perm l _).symm

/-- Whatever the order of the listings, a larger one has the history of the other with more inserted. -/
theorem snapshotHistory_sublist (hids : SortedBy.Distinct ResticSnapshot.id m) (hl : l.Nodup) (h : l ⊆ m) :
    (snapshotHistory P l).Sublist (snapshotHistory P m) := by
  refine List.Sublist.map _ ?_
  have hperm := List.mergeSort_perm l fun a b => decide (compareSnapshots P b a ≤ 0)
  have hperm' := List.mergeSort_perm m fun a b => decide (compareSnapshots P b a ≤ 0)
  obtain ⟨kept, hkept, hsublist⟩ := hperm.subperm.trans ((List.subperm_of_subset hl h).trans hperm'.symm.subperm)
  have heq : kept = l.mergeSort fun a b => decide (compareSnapshots P b a ≤ 0) := by
    refine List.Perm.eq_of_pairwise (fun a b ha hb hab hba => ?_) ((pairwise_history P m).sublist hsublist)
      (pairwise_history P l) hkept
    have ha := hperm'.subset (hsublist.subset ha)
    have hb := h (hperm.subset hb)
    exact hids.inj ha hb (id_of_snapshotRank (le_antisymm hba hab))
  rw [← heq]
  exact hsublist

/-- The listings of a repository to which snapshots are pushed, in any order each. -/
structure ListingsGrow (listings : Nat → List ResticSnapshot) : Prop where
  distinct : ∀ n, SortedBy.Distinct ResticSnapshot.id (listings n)
  nonBlank : ∀ n, ∀ s ∈ listings n, s.id ≠ []
  kept : ∀ n, listings n ⊆ listings (n + 1)
  finite : ∃ last, ∀ n, last ≤ n → (listings n).Perm (listings last)

theorem ListingsGrow.grows (h : ListingsGrow listings) (P : Platform) : Grows fun n => snapshotHistory P (listings n) where
  distinct n := snapshotHistory_distinct (h.distinct n)
  nonBlank n s hs := by
    obtain ⟨snapshot, hsnapshot, rfl⟩ := List.mem_map.mp hs
    exact h.nonBlank n snapshot ((List.mergeSort_perm _ _).subset hsnapshot)
  inserted n := snapshotHistory_sublist (h.distinct (n + 1)) (List.Nodup.of_map _ (h.distinct n)) (h.kept n)
  finite := by
    obtain ⟨last, hlast⟩ := h.finite
    refine ⟨last, fun n hn => ?_⟩
    have hsublist := snapshotHistory_sublist (P := P) (h.distinct last) (List.Nodup.of_map _ (h.distinct n)) (hlast n hn).subset
    refine hsublist.eq_of_length ?_
    rw [snapshotHistory, snapshotHistory, List.length_map, List.length_map, List.length_mergeSort, List.length_mergeSort]
    exact (hlast n hn).length_eq

end Listings

/-- Paging reads all of the first history, whatever comes in meanwhile, and the histories of a repository to which
snapshots are pushed are of this kind. -/
theorem paging_reads_all {pageSize : Nat} (hsize : 1 ≤ pageSize) :
    (∀ histories, Grows histories → ∀ modal, ∃ n, ReadsAll histories (openedModal pageSize histories modal) n) ∧
      ∀ P listings, ListingsGrow listings → Grows fun n => snapshotHistory P (listings n) :=
  ⟨fun _ hgrows modal => exists_readsAll hsize hgrows modal, fun P _ hlistings => hlistings.grows P⟩

/-- A snapshot that is pushed after the first page has been read. -/
def pushedMeanwhile : Nat → List ResticSnapshot
  | 0 => [⟨js "s1", Snapshots.snapshotTime⟩, ⟨js "s3", Snapshots.snapshotTime⟩]
  | _ + 1 => [⟨js "s2", Snapshots.snapshotTime⟩, ⟨js "s1", Snapshots.snapshotTime⟩, ⟨js "s3", Snapshots.snapshotTime⟩]

theorem listingsGrow_pushedMeanwhile : ListingsGrow pushedMeanwhile where
  distinct n := by cases n with | zero => decide | succ n => exact (by decide : SortedBy.Distinct ResticSnapshot.id (pushedMeanwhile 1))
  nonBlank n := by cases n with | zero => decide | succ n => exact (by decide : ∀ s ∈ pushedMeanwhile 1, s.id ≠ [])
  kept n := by cases n with | zero => exact List.subset_cons_self _ _ | succ n => exact List.Subset.refl _
  finite := ⟨1, fun n hn => by cases n with | zero => exact absurd hn (by decide) | succ n => exact .refl _⟩

theorem paging_reads_all_example : ∃ n, ReadsAll (fun n => snapshotHistory runPlatform (pushedMeanwhile n))
    (openedModal 1 (fun n => snapshotHistory runPlatform (pushedMeanwhile n)) ⟨[], false, none, []⟩) n := by
  obtain ⟨hreads, hgrow⟩ := @paging_reads_all 1 (le_refl 1)
  exact hreads _ (hgrow runPlatform pushedMeanwhile listingsGrow_pushedMeanwhile) _

end SecretsManager
