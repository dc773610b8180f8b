import SecretsManager.IdColumns
import SecretsManager.Library.Machine
import SecretsManager.Users.ProjectAccess

/-!
# The known project scopes

A refresh replaces the list by what the database had at some moment of its query. Every local write of the list
starts a new revision, and an answer to a query of an earlier one is dropped, so what a refresh brings in was read
after the last local write. An id may come back: a project can be created with the id of a deleted one, and then
its scope is known again to the next refresh, before the creation adds it. A creation adds the scope of the id as the
request spells it, and a refresh has the scopes of the ids as the database stores them.
-/

namespace SecretsManager

open Js Machine

/-! ## The module -/

/-- The running refresh: its query, with the revision at its start; the answer, which its promise has not seen yet
(`none` for a failed query); the settled promise, until it is forgotten. -/
inductive ScopesRefresh where
  | querying (revisionAtStart : Nat)
  | answered (revisionAtStart : Nat) (projects : Option (List JsString))
  | settled (updated : Bool)
  deriving DecidableEq

/-- `allScopes` is that of the class `User`. -/
structure ProjectScopes where
  allScopes : List JsString
  scopesRevision : Nat
  refreshInFlight : Option ScopesRefresh
  deriving DecidableEq

namespace ProjectScopes

/-- `ProjectScopesRefresh` up to its query; the calls share the promise of a running one. -/
def refresh (m : ProjectScopes) : ProjectScopes :=
  match m.refreshInFlight with
  | some _ => m
  | none => { m with refreshInFlight := some (.querying m.scopesRevision) }

/-- `ProjectScopesRefresh` after its query. -/
def land (m : ProjectScopes) (revisionAtStart : Nat) (projects : Option (List JsString)) : ProjectScopes :=
  match projects with
  | none => { m with refreshInFlight := some (.settled false) }
  | some ids =>
      if m.scopesRevision ≠ revisionAtStart then { m with refreshInFlight := some (.settled false) }
      else { m with allScopes := ids.map projectScope, refreshInFlight := some (.settled true) }

/-- `ProjectScopesAdd` -/
def add (m : ProjectScopes) (projectId : JsString) : ProjectScopes :=
  let scope := projectScope projectId
  { m with
    allScopes := if m.allScopes.contains scope then m.allScopes else m.allScopes ++ [scope]
    scopesRevision := m.scopesRevision + 1 }

/-- `ProjectScopesRemove` -/
def remove (m : ProjectScopes) (projectId : JsString) : ProjectScopes :=
  { m with
    allScopes := m.allScopes.filter fun s => s ≠ projectScope projectId
    scopesRevision := m.scopesRevision + 1 }

end ProjectScopes

/-! ## Creations, deletions and refreshes -/

/-- The ids in the database, those of the local creations that have inserted their project and not yet added its
scope, as the requests spell them, and those of the local deletions that have not yet removed it. -/
structure ScopesWorld extends ProjectScopes where
  stored : List JsString
  creating : List JsString
  deleting : List JsString
  deriving DecidableEq

/-- What may happen next. A project is inserted or deleted `here` or by another replica; `answer` is what the
query of the refresh gives, and `finish` the callback that forgets its promise. -/
inductive ScopesEvent where
  | insert (here : Bool) (id : JsString)
  | add (id : JsString)
  | delete (here : Bool) (id : JsString)
  | remove (id : JsString)
  | refresh
  | answer (projects : Option (List JsString))
  | land
  | finish
  deriving DecidableEq

namespace ScopesWorld

/-- An insertion stores what the column of ids reads of the id. The query answers with the ids that are stored at that
moment, in some order, or fails. -/
def step (ids : IdColumn) (w : ScopesWorld) : ScopesEvent → Option ScopesWorld
  | .insert here id =>
      match ids.read id with
      | none => none
      | some stored =>
          if stored ∈ w.stored then none
          else some { w with stored := stored :: w.stored, creating := if here then id :: w.creating else w.creating }
  | .add id =>
      if id ∈ w.creating then
        some { w with toProjectScopes := w.toProjectScopes.add id, creating := w.creating.erase id }
      else none
  | .delete here id =>
      if id ∈ w.stored then
        some
          { w with
            stored := w.stored.filter fun x => x ≠ id
            deleting := if here then id :: w.deleting else w.deleting }
      else none
  | .remove id =>
      if id ∈ w.deleting then
        some { w with toProjectScopes := w.toProjectScopes.remove id, deleting := w.deleting.erase id }
      else none
  | .refresh => some { w with toProjectScopes := w.toProjectScopes.refresh }
  | .answer projects =>
      match w.refreshInFlight with
      | some (.querying revisionAtStart) =>
          if ∀ read ∈ projects, read.Perm w.stored then
            some { w with refreshInFlight := some (.answered revisionAtStart projects) }
          else none
      | _ => none
  | .land =>
      match w.refreshInFlight with
      | some (.answered revisionAtStart projects) =>
          some { w with toProjectScopes := w.toProjectScopes.land revisionAtStart projects }
      | _ => none
  | .finish =>
      match w.refreshInFlight with
      | some (.settled _) => some { w with refreshInFlight := none }
      | _ => none

/-- Nothing runs yet. -/
def Idle (w : ScopesWorld) : Prop := w.refreshInFlight = none ∧ w.creating = [] ∧ w.deleting = []

instance (w : ScopesWorld) : Decidable w.Idle := inferInstanceAs (Decidable (_ ∧ _ ∧ _))

/-- The query has failed, or the list was written since its start. -/
def FailedOrOutdated (w : ScopesWorld) : Prop :=
  ∃ revisionAtStart projects, w.refreshInFlight = some (.answered revisionAtStart projects) ∧
    (projects = none ∨ w.scopesRevision ≠ revisionAtStart)

end ScopesWorld

namespace ScopesEvent

/-- An event of a refresh. -/
def IsRefresh : ScopesEvent → Prop
  | refresh | answer _ | land | finish => True
  | insert _ _ | add _ | delete _ _ | remove _ => False

/-- The project with the id is deleted. -/
def Deletes (ids : IdColumn) (id : JsString) (e : ScopesEvent) : Prop := ∃ here, e = .delete here (ids.spell id)

/-- A project is inserted with the id, in some spelling. -/
def Inserts (ids : IdColumn) (id : JsString) (e : ScopesEvent) : Prop :=
  ∃ here spelling, e = .insert here spelling ∧ ids.spell spelling = ids.spell id

end ScopesEvent

/-- The scope was added when the project was stored, and the project is still stored. -/
def StillStored (ids : IdColumn) (w : ScopesWorld) (events : List ScopesEvent) (id : JsString) : Prop :=
  Since (ScopesWorld.step ids) (fun w e => e = .add id ∧ ids.spell id ∈ w.stored) (ScopesEvent.Deletes ids id) w events

/-- The scope was removed when no project had the id, and none has been stored with it since. -/
def StillGone (ids : IdColumn) (w : ScopesWorld) (events : List ScopesEvent) (id : JsString) : Prop :=
  Since (ScopesWorld.step ids) (fun w e => e = .remove id ∧ ids.spell id ∉ w.stored) (ScopesEvent.Inserts ids id) w events

/-! ## What a step can do -/

section Step
variable {ids : IdColumn} {w w' : ScopesWorld} {e : ScopesEvent} {rev : Nat} {projects : Option (List JsString)}

/-- The database after the event. -/
def ScopesEvent.database (ids : IdColumn) (stored : List JsString) : ScopesEvent → List JsString
  | insert _ id => ids.spell id :: stored
  | delete _ id => stored.filter fun x => x ≠ id
  | add _ | remove _ | refresh | answer _ | land | finish => stored

/-- The event is a local write of the list. -/
def ScopesEvent.IsWrite (e : ScopesEvent) : Prop := ∃ id, e = .add id ∨ e = .remove id

/-- The event takes in the answer to the query of a refresh. -/
structure ScopesAnswer (w : ScopesWorld) (rev : Nat) (projects : Option (List JsString)) : Prop where
  querying : w.refreshInFlight = some (.querying rev)
  read : ∀ read ∈ projects, read.Perm w.stored

/-- The refresh takes effect. -/
structure ScopesLand (w w' : ScopesWorld) (read : List JsString) : Prop where
  answered : w.refreshInFlight = some (.answered w.scopesRevision (some read))
  allScopes : w'.allScopes = read.map projectScope

/-- What a step does to the database, the revision and the running refresh. -/
structure ScopesStepSpec (ids : IdColumn) (w : ScopesWorld) (e : ScopesEvent) (w' : ScopesWorld) : Prop where
  stored : w'.stored = e.database ids w.stored
  readable : ∀ here id, e = .insert here id → (ids.read id).isSome = true
  revision : w.scopesRevision ≤ w'.scopesRevision ∧ (e.IsWrite → w.scopesRevision < w'.scopesRevision)
  querying : ∀ rev, w'.refreshInFlight = some (.querying rev) →
    rev = w'.scopesRevision ∨ w.refreshInFlight = some (.querying rev)
  answered : ∀ rev projects, w'.refreshInFlight = some (.answered rev projects) →
    w.refreshInFlight = some (.answered rev projects) ∨ e = .answer projects ∧ ScopesAnswer w rev projects
  allScopes : e.IsRefresh → w'.allScopes = w.allScopes ∨ ∃ read, ScopesLand w w' read

theorem ScopesEvent.not_isWrite {e : ScopesEvent} (hadd : ∀ id, e ≠ .add id) (hremove : ∀ id, e ≠ .remove id) :
    ¬ e.IsWrite := by
  rintro ⟨id, rfl | rfl⟩
  · exact hadd id rfl
  · exact hremove id rfl

theorem scopesStepSpec (h : w.step ids e = some w') : ScopesStepSpec ids w e w' := by
  cases e with
  | insert here id =>
      rw [ScopesWorld.step] at h
      split at h
      · cases h
      · rename_i stored hread
        by_cases hmem : stored ∈ w.stored
        · rw [if_pos hmem] at h
          cases h
        rw [if_neg hmem] at h
        cases h
        refine ⟨congrArg (· :: w.stored) (IdColumn.spell_of_read hread).symm, fun here' id' heq => ?_,
          ⟨le_rfl, fun hw => absurd hw (ScopesEvent.not_isWrite nofun nofun)⟩, fun _ h => Or.inr h,
          fun _ _ h => Or.inl h, nofun⟩
        cases heq
        rw [hread]
        rfl
  | delete here id =>
      have hmem : id ∈ w.stored := by
        by_contra hmem
        rw [ScopesWorld.step, if_neg hmem] at h
        cases h
      rw [ScopesWorld.step, if_pos hmem] at h
      cases h
      exact ⟨rfl, nofun, ⟨le_rfl, fun hw => absurd hw (ScopesEvent.not_isWrite nofun nofun)⟩, fun _ h => Or.inr h,
        fun _ _ h => Or.inl h, nofun⟩
  | add id =>
      rw [ScopesWorld.step] at h
      split_ifs at h
      cases h
      exact ⟨rfl, nofun, ⟨Nat.le_succ _, fun _ => Nat.lt_succ_self _⟩, fun _ h => Or.inr h, fun _ _ h => Or.inl h, nofun⟩
  | remove id =>
      rw [ScopesWorld.step] at h
      split_ifs at h
      cases h
      exact ⟨rfl, nofun, ⟨Nat.le_succ _, fun _ => Nat.lt_succ_self _⟩, fun _ h => Or.inr h, fun _ _ h => Or.inl h, nofun⟩
  | refresh =>
      cases h
      have hwrite : ¬ ScopesEvent.refresh.IsWrite := ScopesEvent.not_isWrite nofun nofun
      rcases hflight : w.refreshInFlight with _ | running
      · have hrefresh : w.toProjectScopes.refresh =
            { w.toProjectScopes with refreshInFlight := some (.querying w.scopesRevision) } := by
          rw [ProjectScopes.refresh, hflight]
        simp only [hrefresh]
        refine ⟨rfl, nofun, ⟨le_rfl, fun hw => absurd hw hwrite⟩, fun rev h => Or.inl ?_, nofun, fun _ => Or.inl rfl⟩
        cases h
        rfl
      · have hrefresh : w.toProjectScopes.refresh = w.toProjectScopes := by
          rw [ProjectScopes.refresh, hflight]
        simp only [hrefresh]
        exact ⟨rfl, nofun, ⟨le_rfl, fun hw => absurd hw hwrite⟩, fun _ h => Or.inr h, fun _ _ h => Or.inl h,
          fun _ => Or.inl rfl⟩
  | answer projects =>
      rw [ScopesWorld.step] at h
      split at h
      · rename_i rev hflight
        split_ifs at h with hread
        cases h
        refine ⟨rfl, nofun, ⟨le_rfl, fun hw => absurd hw (ScopesEvent.not_isWrite nofun nofun)⟩, nofun,
          fun rev' projects' h => ?_,
          fun _ => Or.inl rfl⟩
        cases h
        exact Or.inr ⟨rfl, hflight, hread⟩
      · cases h
  | land =>
      rw [ScopesWorld.step] at h
      split at h
      · rename_i rev projects hflight
        cases h
        have hwrite : ¬ ScopesEvent.land.IsWrite := ScopesEvent.not_isWrite nofun nofun
        cases projects with
        | none => exact ⟨rfl, nofun, ⟨le_rfl, fun hw => absurd hw hwrite⟩, nofun, nofun, fun _ => Or.inl rfl⟩
        | some read =>
            rcases ne_or_eq w.scopesRevision rev with hrev | rfl
            · have hland : w.toProjectScopes.land rev (some read) =
                  { w.toProjectScopes with refreshInFlight := some (.settled false) } := if_pos hrev
              simp only [hland]
              exact ⟨rfl, nofun, ⟨le_rfl, fun hw => absurd hw hwrite⟩, nofun, nofun, fun _ => Or.inl rfl⟩
            · have hland : w.toProjectScopes.land w.scopesRevision (some read) =
                  { w.toProjectScopes with
                    allScopes := read.map projectScope, refreshInFlight := some (.settled true) } :=
                if_neg (not_not.mpr rfl)
              simp only [hland]
              exact ⟨rfl, nofun, ⟨le_rfl, fun hw => absurd hw hwrite⟩, nofun, nofun, fun _ => Or.inr ⟨read, hflight, rfl⟩⟩
      · cases h
  | finish =>
      rw [ScopesWorld.step] at h
      split at h
      · cases h
        exact ⟨rfl, nofun, ⟨le_rfl, fun hw => absurd hw (ScopesEvent.not_isWrite nofun nofun)⟩, nofun, nofun,
          fun _ => Or.inl rfl⟩
      · cases h

end Step

/-! ## What a refresh has read -/

/-- The answer of a query without a write since its start has what is still stored, and not what is still gone. -/
structure ScopesInv (ids : IdColumn) (w₀ : ScopesWorld) (events : List ScopesEvent) (w : ScopesWorld) : Prop where
  spelled : ∀ id ∈ w.stored, ids.Stored id
  stored : ∀ id, StillStored ids w₀ events id → ids.spell id ∈ w.stored
  gone : ∀ id, StillGone ids w₀ events id → ids.spell id ∉ w.stored
  querying : ∀ rev, w.refreshInFlight = some (.querying rev) → rev ≤ w.scopesRevision
  answered : ∀ rev projects, w.refreshInFlight = some (.answered rev projects) → rev ≤ w.scopesRevision ∧
    (rev = w.scopesRevision → ∀ read ∈ projects, (∀ id ∈ read, ids.Stored id) ∧
      (∀ id, StillStored ids w₀ events id → ids.spell id ∈ read) ∧
        ∀ id, StillGone ids w₀ events id → ids.spell id ∉ read)

section Invariant
variable {ids : IdColumn} {w₀ w w' : ScopesWorld} {events : List ScopesEvent} {e : ScopesEvent} {id : JsString}

theorem stillStored_concat (h : run (ScopesWorld.step ids) w₀ events = some w) :
    StillStored ids w₀ (events ++ [e]) id ↔
      (e = .add id ∧ ids.spell id ∈ w.stored) ∨ StillStored ids w₀ events id ∧ ¬ e.Deletes ids id :=
  since_concat h

theorem stillGone_concat (h : run (ScopesWorld.step ids) w₀ events = some w) :
    StillGone ids w₀ (events ++ [e]) id ↔
      (e = .remove id ∧ ids.spell id ∉ w.stored) ∨ StillGone ids w₀ events id ∧ ¬ e.Inserts ids id :=
  since_concat h

/-- What is still stored after an event is in the database. -/
theorem stored_database (h : run (ScopesWorld.step ids) w₀ events = some w) (hinv : ScopesInv ids w₀ events w)
    (hid : StillStored ids w₀ (events ++ [e]) id) : ids.spell id ∈ e.database ids w.stored := by
  have hmem : ids.spell id ∈ w.stored := ((stillStored_concat h).mp hid).elim And.right fun hold => hinv.stored id hold.1
  cases e with
  | insert here inserted => exact List.mem_cons_of_mem _ hmem
  | delete here deleted =>
      refine List.mem_filter.mpr ⟨hmem, decide_eq_true ?_⟩
      rintro rfl
      exact (((stillStored_concat h).mp hid).resolve_left nofun).2 ⟨here, rfl⟩
  | add _ | remove _ | refresh | answer _ | land | finish => exact hmem

/-- What is still gone after an event is not in the database. -/
theorem gone_database (h : run (ScopesWorld.step ids) w₀ events = some w) (hinv : ScopesInv ids w₀ events w)
    (hid : StillGone ids w₀ (events ++ [e]) id) : ids.spell id ∉ e.database ids w.stored := by
  have hnot : ids.spell id ∉ w.stored := ((stillGone_concat h).mp hid).elim And.right fun hold => hinv.gone id hold.1
  cases e with
  | insert here inserted =>
      intro hmem
      rcases List.mem_cons.mp hmem with hsame | hmem
      · exact (((stillGone_concat h).mp hid).resolve_left nofun).2 ⟨here, inserted, rfl, hsame.symm⟩
      · exact hnot hmem
  | delete here deleted => exact fun hmem => hnot (List.mem_filter.mp hmem).1
  | add _ | remove _ | refresh | answer _ | land | finish => exact hnot

/-- Only a local write starts a new time in which a project is still stored or gone. -/
theorem still_before (h : run (ScopesWorld.step ids) w₀ events = some w) (hwrite : ¬ e.IsWrite) :
    (StillStored ids w₀ (events ++ [e]) id → StillStored ids w₀ events id) ∧
      (StillGone ids w₀ (events ++ [e]) id → StillGone ids w₀ events id) := by
  refine ⟨fun hid => ?_, fun hid => ?_⟩
  · exact (((stillStored_concat h).mp hid).resolve_left fun hadd => hwrite ⟨id, Or.inl hadd.1⟩).1
  · exact (((stillGone_concat h).mp hid).resolve_left fun hremove => hwrite ⟨id, Or.inr hremove.1⟩).1

theorem scopesInv_step (h : run (ScopesWorld.step ids) w₀ events = some w) (hinv : ScopesInv ids w₀ events w)
    (hstep : w.step ids e = some w') : ScopesInv ids w₀ (events ++ [e]) w' := by
  have hspec := scopesStepSpec hstep
  refine ⟨fun id hid => ?_, fun id hid => ?_, fun id hid => ?_, fun rev hrev => ?_, fun rev projects hflight => ?_⟩
  · rw [hspec.stored] at hid
    cases e with
    | insert here inserted =>
        rcases List.mem_cons.mp hid with rfl | hid
        · exact IdColumn.stored_spell (hspec.readable here inserted rfl)
        · exact hinv.spelled id hid
    | delete here deleted => exact hinv.spelled id (List.mem_filter.mp hid).1
    | add _ | remove _ | refresh | answer _ | land | finish => exact hinv.spelled id hid
  · rw [hspec.stored]
    exact stored_database h hinv hid
  · rw [hspec.stored]
    exact gone_database h hinv hid
  · rcases hspec.querying rev hrev with rfl | hold
    · exact le_rfl
    · exact (hinv.querying rev hold).trans hspec.revision.1
  · rcases hspec.answered rev projects hflight with hold | ⟨rfl, hanswers⟩
    · obtain ⟨hle, hread⟩ := hinv.answered rev projects hold
      refine ⟨hle.trans hspec.revision.1, fun hcurrent read hmem => ?_⟩
      -- a write would have started a later revision
      have hwrite : ¬ e.IsWrite := fun hw => by
        have hlt := hspec.revision.2 hw
        omega
      have hsame : rev = w.scopesRevision := le_antisymm hle (hcurrent ▸ hspec.revision.1)
      obtain ⟨hspelled, hstored, hgone⟩ := hread hsame read hmem
      exact ⟨hspelled, fun id hid => hstored id ((still_before h hwrite).1 hid),
        fun id hid => hgone id ((still_before h hwrite).2 hid)⟩
    · refine ⟨(hinv.querying rev hanswers.querying).trans hspec.revision.1, fun _ read hmem => ?_⟩
      have hperm := hanswers.read read hmem
      exact ⟨fun id hid => hinv.spelled id (hperm.mem_iff.mp hid),
        fun id hid => hperm.mem_iff.mpr (stored_database h hinv hid),
        fun id hid hmem => gone_database h hinv hid (hperm.mem_iff.mp hmem)⟩

theorem scopesInv_run (hidle : w₀.Idle) (hspelled : ∀ id ∈ w₀.stored, ids.Stored id)
    (h : run (ScopesWorld.step ids) w₀ events = some w) : ScopesInv ids w₀ events w := by
  refine run_history (fun hrun hinv hstep => scopesInv_step hrun hinv hstep) h ⟨hspelled, ?_, ?_, ?_, ?_⟩
  · exact fun id hid => absurd hid not_since_nil
  · exact fun id hid => absurd hid not_since_nil
  · intro rev hflight
    rw [hidle.1] at hflight
    cases hflight
  · intro rev projects hflight
    rw [hidle.1] at hflight
    cases hflight

/-- A refresh that takes effect has the scopes of what is still stored, in the spelling of the database, and none of
what is still gone. -/
theorem ScopesLand.scopes {read : List JsString} (hinv : ScopesInv ids w₀ events w) (h : ScopesLand w w' read) :
    (∀ id, StillStored ids w₀ events id → projectScope (ids.spell id) ∈ w'.allScopes) ∧
      ∀ id, StillGone ids w₀ events id → projectScope id ∉ w'.allScopes := by
  obtain ⟨hspelled, hstored, hgone⟩ := (hinv.answered _ _ h.answered).2 rfl read rfl
  rw [h.allScopes]
  refine ⟨fun id hid => List.mem_map_of_mem (hstored id hid), fun id hid hmem => ?_⟩
  have hread : id ∈ read := (List.mem_map_of_injective projectScope_injective).mp hmem
  refine hgone id hid ?_
  rwa [IdColumn.spell_eq_self_iff.mpr (hspelled id hread).spelled]

/-- **A refresh never undoes a local change** of a project whose id was spelled as the database stores it. In any
interleaving of refreshes with creations and deletions, here and by other replicas, no event of a refresh makes the scope
of such a project unknown that was stored when it was added and still is, or the scope of a project known that was gone
when it was removed and still is; and a refresh that has failed or is outdated leaves the scopes as they are. -/
theorem refresh_keepsLocalChanges (hidle : w₀.Idle) (hspelled : ∀ id ∈ w₀.stored, ids.Stored id)
    (h : run (ScopesWorld.step ids) w₀ events = some w) (hrefresh : e.IsRefresh) (hstep : w.step ids e = some w') :
    (∀ id, ids.Spelled id → StillStored ids w₀ events id → projectScope id ∈ w.allScopes →
        projectScope id ∈ w'.allScopes) ∧
      (∀ id, StillGone ids w₀ events id → projectScope id ∉ w.allScopes → projectScope id ∉ w'.allScopes) ∧
      (w.FailedOrOutdated → w'.allScopes = w.allScopes) := by
  have hinv := scopesInv_run hidle hspelled h
  rcases (scopesStepSpec hstep).allScopes hrefresh with hsame | ⟨read, hlands⟩
  · rw [hsame]
    exact ⟨fun _ _ _ hknown => hknown, fun _ _ hunknown => hunknown, fun _ => rfl⟩
  · obtain ⟨hstored, hgone⟩ := hlands.scopes hinv
    refine ⟨fun id hid hstill _ => ?_, fun id hid _ => hgone id hid, ?_⟩
    · have hscope := hstored id hstill
      rwa [IdColumn.spell_eq_self_iff.mpr hid] at hscope
    · rintro ⟨rev, projects, hflight, hfailed⟩
      rw [hlands.answered] at hflight
      cases hflight
      exact hfailed.elim nofun fun hrev => absurd rfl hrev

end Invariant

section Example

/-- The start of a server without projects. -/
def noScopes : ScopesWorld where
  allScopes := []
  scopesRevision := 0
  refreshInFlight := none
  stored := []
  creating := []
  deleting := []

/-- A refresh that has read the database before a creation, and a second one after it. -/
def refreshedTwice : List ScopesEvent :=
  [.refresh, .answer (some []), .insert true (js "p"), .add (js "p"), .land, .finish, .refresh,
    .answer (some [js "p"])]

theorem refresh_keepsLocalChanges_twice : ∃ w w', run (ScopesWorld.step .text) noScopes refreshedTwice = some w ∧
    w.step .text .land = some w' ∧
    (∀ id, IdColumn.text.Spelled id → StillStored .text noScopes refreshedTwice id → projectScope id ∈ w.allScopes →
      projectScope id ∈ w'.allScopes) ∧
    (∀ id, StillGone .text noScopes refreshedTwice id → projectScope id ∉ w.allScopes →
      projectScope id ∉ w'.allScopes) ∧
    (w.FailedOrOutdated → w'.allScopes = w.allScopes) := by
  obtain ⟨w, hw⟩ : ∃ w, run (ScopesWorld.step .text) noScopes refreshedTwice = some w :=
    Option.isSome_iff_exists.mp (by decide)
  obtain ⟨w', hw'⟩ : ∃ w', run (ScopesWorld.step .text) noScopes (refreshedTwice ++ [.land]) = some w' :=
    Option.isSome_iff_exists.mp (by decide)
  obtain ⟨w₁, hw₁, hlast⟩ := run_append_eq_some.mp hw'
  obtain rfl := Option.some.inj (hw.symm.trans hw₁)
  obtain ⟨w₂, hland, hnil⟩ := run_cons_eq_some.mp hlast
  cases hnil
  exact ⟨w, w', hw, hland, refresh_keepsLocalChanges (by decide) (by decide) hw
    (show ScopesEvent.land.IsRefresh from trivial) hland⟩

/-- A project is created, deleted and created again with the same id. -/
def createdAgain : List ScopesEvent :=
  [.insert true (js "p"), .add (js "p"), .delete true (js "p"), .remove (js "p"), .insert true (js "p"), .refresh,
    .answer (some [js "p"])]

/-- A project is created with an id in capital letters. -/
def createdUpper : List ScopesEvent :=
  [.insert true upperId, .add upperId, .refresh, .answer (some [lowerId])]

theorem stillStored_createdUpper : StillStored .uuid noScopes createdUpper upperId := by
  refine ⟨[.insert true upperId], .add upperId, [.refresh, .answer (some [lowerId])],
    ⟨⟨[], 0, none⟩, [lowerId], [upperId], []⟩, rfl, by decide, ⟨rfl, by decide⟩, fun e he => ?_⟩
  rintro ⟨here, rfl⟩
  simp at he

/-- A refresh makes the scope known again that was removed, and on PostgreSQL one makes the scope unknown that a
creation has added, while the project is stored. -/
theorem known_again_createdAgain :
    (∃ w w', noScopes.Idle ∧ run (ScopesWorld.step .text) noScopes createdAgain = some w ∧
      .remove (js "p") ∈ createdAgain ∧ w.step .text .land = some w' ∧ projectScope (js "p") ∉ w.allScopes ∧
      projectScope (js "p") ∈ w'.allScopes) ∧
    ∃ w w', noScopes.Idle ∧ run (ScopesWorld.step .uuid) noScopes createdUpper = some w ∧
      StillStored .uuid noScopes createdUpper upperId ∧ w.step .uuid .land = some w' ∧
      projectScope upperId ∈ w.allScopes ∧ projectScope upperId ∉ w'.allScopes := by
  constructor
  · refine ⟨⟨⟨[], 2, some (.answered 2 (some [js "p"]))⟩, [js "p"], [js "p"], []⟩,
      ⟨⟨[projectScope (js "p")], 2, some (.settled true)⟩, [js "p"], [js "p"], []⟩, ?_⟩
    exact ⟨by decide, by decide, by decide, by decide, by decide, by decide⟩
  · refine ⟨⟨⟨[projectScope upperId], 1, some (.answered 1 (some [lowerId]))⟩, [lowerId], [], []⟩,
      ⟨⟨[projectScope lowerId], 1, some (.settled true)⟩, [lowerId], [], []⟩, ?_⟩
    exact ⟨by decide, by decide, stillStored_createdUpper, by decide, by decide, by decide⟩

end Example

end SecretsManager
