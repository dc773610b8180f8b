import SecretsManager.IssuedTransactions
import SecretsManager.Secrets.HashCoherence

/-!
# Repository targets

A creation compares the normalized target of its project with those of all stored projects, under the
creation lock, so two stored projects never have the same key as long as the database stores the settings as they
are: a surrogate without its pair becomes `U+FFFD` on the way. The repository URL joins the three settings
with slashes, and the key separates them with line breaks: when a bucket holds a slash, or an endpoint a path,
two different keys can give one URL. The parts of a URL between the slashes tell the settings apart in all
other cases.
-/

namespace SecretsManager

open Js Interleaving

/-! ## Trimmed texts -/

theorem trim_trim (s : JsString) : trim (trim s) = trim s := by
  have hstart : trimStart (trimStart s) = trimStart s := by
    rw [trimStart, trimStart, List.dropWhile_idempotent]
  rw [show trim (trim s) = trim (trimEnd (trimStart s)) from rfl, trim_trimEnd, trim, hstart, trim]

theorem trim_eq_self_of_forall {s : JsString} (h : ∀ c ∈ s, isWhiteSpace c = false) : trim s = s := by
  rw [trim_eq_self_iff]
  exact ⟨fun c hc => h c (List.mem_of_mem_head? hc), fun c hc => h c (List.mem_of_mem_getLast? hc)⟩

namespace Project

theorem mem_trimUnit {d c : CodeUnit} {s : JsString} (h : c ∈ trimUnit d s) : c ∈ s := by
  rw [trimUnit, dropTrailing, List.mem_reverse] at h
  have hmem := (List.dropWhile_suffix _).mem h
  exact (List.dropWhile_suffix _).mem (List.mem_reverse.mp hmem)

theorem isWhiteSpace_dashRuns {inRun : Bool} {s : JsString} {c : CodeUnit} (h : c ∈ dashRuns inRun s) :
    isWhiteSpace c = false := by
  induction s generalizing inRun with
  | nil => cases h
  | cons d s ih =>
      unfold dashRuns at h
      split_ifs at h with hkept hrun
      · rcases List.mem_cons.mp h with rfl | h
        · simp only [Bool.or_eq_true, Bool.and_eq_true, decide_eq_true_eq] at hkept
          simp only [isWhiteSpace, Bool.or_eq_false_iff, Bool.and_eq_false_iff, decide_eq_false_iff_not,
            beq_eq_false_iff_ne]
          omega
        · exact ih h
      · exact ih h
      · rcases List.mem_cons.mp h with rfl | h
        · decide
        · exact ih h

section Platform
variable (P : Platform)

theorem trim_slugify (name : JsString) : trim (slugify P name) = slugify P name :=
  trim_eq_self_of_forall fun _ hc => isWhiteSpace_dashRuns (mem_trimUnit hc)

theorem trim_effectiveRepoPrefix (project : Project) :
    trim (project.effectiveRepoPrefix P) = project.effectiveRepoPrefix P := by
  unfold effectiveRepoPrefix
  split_ifs
  · exact trim_trim _
  · exact trim_slugify P _

/-- The settings that make the target and the URL. -/
def targetSettings (project : Project) : JsString × JsString × JsString :=
  (project.s3Endpoint, project.s3Bucket, project.effectiveRepoPrefix P)

/-- The settings of the target are stored as they are. -/
def StoresTarget (project : Project) : Prop :=
  isWellFormed project.s3Endpoint = true ∧ isWellFormed project.s3Bucket = true ∧
    isWellFormed (project.effectiveRepoPrefix P) = true

instance (project : Project) : Decidable (project.StoresTarget P) := inferInstanceAs (Decidable (_ ∧ _ ∧ _))

/-- The stored prefix is the effective prefix of its row, and the row has the target of its project. -/
theorem targetSettings_created {project : Project} (hstores : project.StoresTarget P)
    (hnonempty : project.effectiveRepoPrefix P ≠ []) :
    (project.created P).targetSettings P = project.targetSettings P := by
  obtain ⟨hendpoint, hbucket, heffective⟩ := hstores
  have hstored : (project.created P).repoPrefix = project.effectiveRepoPrefix P :=
    toWellFormed_of_isWellFormed heffective
  have hkept : (project.created P).effectiveRepoPrefix P = project.effectiveRepoPrefix P := by
    rw [effectiveRepoPrefix, hstored, trim_effectiveRepoPrefix, if_pos hnonempty]
  rw [targetSettings, targetSettings, hkept]
  exact Prod.ext (toWellFormed_of_isWellFormed hendpoint) (Prod.ext (toWellFormed_of_isWellFormed hbucket) rfl)

theorem repoTargetKey_of_targetSettings {p q : Project} (h : p.targetSettings P = q.targetSettings P) :
    p.repoTargetKey P = q.repoTargetKey P := by
  unfold targetSettings at h
  rw [Prod.mk.injEq, Prod.mk.injEq] at h
  rw [repoTargetKey, repoTargetKey, h.1, h.2.1, h.2.2]

/-- The effective prefix of an accepted creation is not empty. -/
theorem effectiveRepoPrefix_of_validateNew {body : ProjectBody} (h : validateNew P body = []) (newId now : JsString) :
    (fromJson body newId now).effectiveRepoPrefix P ≠ [] := by
  unfold validateNew at h
  simp only [List.append_eq_nil_iff] at h
  obtain ⟨⟨⟨⟨⟨⟨hname, -⟩, -⟩, -⟩, -⟩, -⟩, hlast⟩ := h
  have hgiven : (fromJson body newId now).repoPrefix = stringField body.repoPrefix := by
    show stringOr body.repoPrefix [] = _
    unfold stringOr
    split_ifs with hnone
    · exact hnone.symm
    · rfl
  cases hnonempty : isNonEmptyString body.name with
  | false =>
      rw [if_pos hnonempty] at hname
      cases hname
  | true =>
      rw [if_pos hnonempty, ite_eq_right_iff] at hlast
      intro heffective
      rw [effectiveRepoPrefix, hgiven] at heffective
      rw [show (fromJson body newId now).name = stringField body.name from rfl] at heffective
      rw [heffective] at hlast
      exact absurd (hlast rfl) (List.cons_ne_nil _ _)

/-! ## The parts of a URL -/

/-- The parts between slashes that are not blank. -/
def slashParts (s : JsString) : List JsString := (s.splitOn (unit '/')).filter fun part => trim part ≠ []

def isScheme (part : JsString) : Prop :=
  P.toLowerCase (trim part) = js "http:" ∨ P.toLowerCase (trim part) = js "https:"

instance (part : JsString) : Decidable (isScheme P part) := inferInstanceAs (Decidable (_ ∨ _))

/-- A host, or a scheme and a host. -/
def isHostParts : List JsString → Prop
  | [host] => ¬ isScheme P host
  | [scheme, _] => isScheme P scheme
  | _ => False

instance : (parts : List JsString) → Decidable (isHostParts P parts)
  | [] => inferInstanceAs (Decidable False)
  | [_] => inferInstanceAs (Decidable (¬ _))
  | [_, _] => inferInstanceAs (Decidable (isScheme P _))
  | _ :: _ :: _ :: _ => inferInstanceAs (Decidable False)

/-- The endpoint is a host, with or without a scheme, and the bucket holds no slash. -/
def PlainTarget (endpoint bucket : JsString) : Prop :=
  unit '/' ∉ bucket ∧ isHostParts P (slashParts endpoint)

instance (endpoint bucket : JsString) : Decidable (PlainTarget P endpoint bucket) :=
  inferInstanceAs (Decidable (_ ∧ _))

theorem slashParts_append (a b : JsString) :
    slashParts (a ++ unit '/' :: b) = slashParts a ++ slashParts b := by
  rw [slashParts, slashParts, slashParts, List.splitOn_eq_splitOnP, List.splitOnP_append_cons _ _ (by simp),
    List.filter_append, ← List.splitOn_eq_splitOnP, ← List.splitOn_eq_splitOnP]

theorem slashParts_of_not_mem {s : JsString} (h : unit '/' ∉ s) (hblank : trim s ≠ []) : slashParts s = [s] := by
  have hsplit : s.splitOnP (· == unit '/') = [s] := by
    refine List.splitOnP_eq_singleton fun c hc => ?_
    exact beq_eq_false_iff_ne.mpr fun heq => h (heq ▸ hc)
  rw [slashParts, List.splitOn_eq_splitOnP, hsplit]
  exact List.filter_eq_self.mpr fun part hpart => by
    rw [List.mem_singleton.mp hpart]
    exact decide_eq_true hblank

/-- A list that starts with a text without the separator continues with it. -/
theorem append_cons_cases {a b x y : JsString} {sep : CodeUnit} (hb : sep ∉ b)
    (h : a ++ sep :: x = b ++ sep :: y) : (a = b ∧ x = y) ∨ ∃ more, a = b ++ sep :: more := by
  rcases List.append_eq_append_iff.mp h with ⟨c, rfl, hc⟩ | ⟨c, rfl, hc⟩
  · cases c with
    | nil => exact Or.inl ⟨(List.append_nil a).symm, (List.cons.inj hc).2⟩
    | cons d c =>
        have hd : sep = d := (List.cons.inj hc).1
        exact absurd (List.mem_append_right a (hd ▸ List.mem_cons_self ..)) hb
  · cases c with
    | nil => exact Or.inl ⟨List.append_nil b, (List.cons.inj hc).2.symm⟩
    | cons d c =>
        have hd : sep = d := (List.cons.inj hc).1
        exact Or.inr ⟨c, by rw [hd]⟩

/-- A longer endpoint that continues with the bucket has one part more. -/
theorem not_plainTarget_of_longer {endpoint bucket more bucket' : JsString} (hbucket : trim bucket ≠ [])
    (h : PlainTarget P endpoint bucket) (h' : PlainTarget P (endpoint ++ unit '/' :: more) bucket')
    (hmore : more = bucket ∨ ∃ rest, more = bucket ++ unit '/' :: rest) : False := by
  have hparts : ∃ rest, slashParts more = bucket :: rest := by
    rcases hmore with rfl | ⟨rest, rfl⟩
    · exact ⟨[], slashParts_of_not_mem h.1 hbucket⟩
    · rw [slashParts_append, slashParts_of_not_mem h.1 hbucket]
      exact ⟨slashParts rest, rfl⟩
  obtain ⟨rest, hrest⟩ := hparts
  obtain ⟨hhost, hhost'⟩ := And.intro h.2 h'.2
  rw [slashParts_append, hrest] at hhost'
  revert hhost hhost'
  match slashParts endpoint with
  | [] => exact fun hhost _ => hhost
  | [host] =>
      cases rest with
      | nil => exact fun hhost hhost' => hhost hhost'
      | cons _ _ => exact fun _ hhost' => hhost'
  | [_, _] => exact fun _ hhost' => hhost'
  | _ :: _ :: _ :: _ => exact fun hhost _ => hhost

/-- **Plain targets with one URL have the same settings.** -/
theorem targetSettings_of_repositoryUrl {p q : Project} (hp : PlainTarget P p.s3Endpoint p.s3Bucket)
    (hq : PlainTarget P q.s3Endpoint q.s3Bucket) (hpb : trim p.s3Bucket ≠ []) (hqb : trim q.s3Bucket ≠ [])
    (h : p.repositoryUrl P = q.repositoryUrl P) : p.targetSettings P = q.targetSettings P := by
  have hslash : js "/" = [unit '/'] := rfl
  rw [repositoryUrl, repositoryUrl] at h
  simp only [hslash, List.append_assoc, List.singleton_append] at h
  have hurl := List.append_cancel_left h
  rcases List.append_eq_append_iff.mp hurl with ⟨c, hqe, hc⟩ | ⟨c, hpe, hc⟩
  all_goals cases c with
    | nil => ?_
    | cons d c => ?_
  · rw [List.append_nil] at hqe
    rcases append_cons_cases hq.1 (List.cons.inj hc).2 with ⟨hbucket, hsame⟩ | ⟨more, hbucket⟩
    · rw [targetSettings, targetSettings, hqe, hbucket, hsame]
    · exact absurd (hbucket ▸ List.mem_append_right _ (List.mem_cons_self ..)) hp.1
  · obtain ⟨rfl, hrest⟩ := List.cons.inj hc
    refine (not_plainTarget_of_longer P hpb hp (hqe ▸ hq) ?_).elim
    exact (append_cons_cases hp.1 hrest.symm).imp_left And.left
  · rw [List.append_nil] at hpe
    rcases append_cons_cases hp.1 (List.cons.inj hc).2 with ⟨hbucket, hsame⟩ | ⟨more, hbucket⟩
    · rw [targetSettings, targetSettings, hpe, hbucket, hsame]
    · exact absurd (hbucket ▸ List.mem_append_right _ (List.mem_cons_self ..)) hq.1
  · obtain ⟨rfl, hrest⟩ := List.cons.inj hc
    refine (not_plainTarget_of_longer P hqb hq (hpe ▸ hp) ?_).elim
    exact (append_cons_cases hq.1 hrest.symm).imp_left And.left

end Platform

end Project

/-! ## The creation lock -/

/-- Whether a creation holds its lock, and the projects that it has listed under it. -/
structure CreateView where
  locked : Bool
  listed : Option (List Project)

namespace CreateView

def start : CreateView := ⟨false, none⟩

def step (v : CreateView) : (c : Cmd) → c.Answer → CreateView
  | .acquire lock, .ok () => if lock = createLockName then ⟨true, none⟩ else v
  | .release lock, _ => if lock = createLockName then ⟨false, none⟩ else v
  | .projectsList, .ok projects => if v.locked then { v with listed := some projects } else v
  | .transact _, .ok _ => { v with listed := none }
  | _, _ => v

end CreateView

/-- What an insertion of a project rests on. -/
structure Creates (P : Platform) (admits : Operation → Prop) (op : Operation) (v : CreateView)
    (row : Project) : Prop where
  accepted : ∃ body newId now, admits (.createProject body) ∧ Project.validateNew P body = [] ∧
    row = (Project.fromJson body newId now).created P ∧
    row.targetSettings P = (Project.fromJson body newId now).targetSettings P
  checked : ∃ projects, v.locked = true ∧ v.listed = some projects ∧
    ∀ p ∈ projects, p.repoTargetKey P ≠ row.repoTargetKey P

/-- Follows the creation lock. Only the creations and the start of a replica can insert a project. -/
def creations (P : Platform) (admits : Operation → Prop) (op : Operation) : Monitor Cmd Cmd.Answer CreateView where
  step := CreateView.step
  allows v c := op.refreshes = true → ∀ row, c = .transact (.projectsDataAdd row) → Creates P admits op v row
  expects _ _ _ := True

section Meets
variable {P : Platform} {admits : Operation → Prop} {op : Operation} {v : CreateView} {timeouts : ResticTimeouts}

/-- Every accepted creation asks for a target that is stored as it is. -/
def StoresTargets (P : Platform) (admits : Operation → Prop) : Prop :=
  ∀ body, admits (.createProject body) → Project.validateNew P body = [] → ∀ newId now,
    (Project.fromJson body newId now).StoresTarget P

theorem ProjectBody.repoTargetKey_ok {body : ProjectBody} {project : Project} {targetKey : JsString}
    (h : body.repoTargetKey P project = .ok targetKey) : project.repoTargetKey P = targetKey := by
  unfold ProjectBody.repoTargetKey at h
  split at h
  · exact Except.ok.inj h
  · cases h

def Cmd.AddsNoProject (c : Cmd) : Prop := ∀ row, c ≠ .transact (.projectsDataAdd row)

theorem meets_of_addsNoProject {α : Type} {task : Op α} (h : task.Only Cmd.AddsNoProject) :
    task.Meets (creations P admits op) v fun _ _ => True :=
  h.meets_true fun _ _ hc _ row hrow => absurd hrow (hc row)

/-- What a starting replica can issue inserts no project. -/
theorem addsNoProject_of_issues {α : Type} {task : Op α} (h : task.Only (Cmd.IssuedBy .startUp)) :
    task.Only Cmd.AddsNoProject := by
  refine h.mono fun c hc row hrow => ?_
  rw [hrow] at hc
  exact hc

theorem meets_createLock {α : Type} {task : Op α} {Q : Except Failure α → CreateView → Prop}
    (htask : task.Meets (creations P admits op) ⟨true, none⟩ fun r _ => Q r ⟨false, none⟩)
    (herror : ∀ e, Q (.error e) v) :
    (dbUtilsWithLock createLockName task).Meets (creations P admits op) v Q := by
  rw [dbUtilsWithLock, meets_bind, meets_lift]
  refine ⟨(fun _ row hrow => by cases hrow), fun held _ => ?_⟩
  rw [then_ok, meets_bind, meets_ofExcept]
  cases held with
  | error e => exact herror e
  | ok =>
      have hlocked : (creations P admits op).step v (.acquire createLockName) (.ok ()) = ⟨true, none⟩ := by
        simp [creations, CreateView.step]
      rw [then_ok, hlocked, meets_tryFinally]
      refine htask.mono fun r v' hQ => meets_lift.mpr ⟨(fun _ row hrow => by cases hrow), fun _ _ => ?_⟩
      have hreleased : (creations P admits op).step v' (.release createLockName) () = ⟨false, none⟩ := by
        simp [creations, CreateView.step]
      rw [then_ok, hreleased, meets_ofExcept]
      exact hQ

/-- The section inserts its project only after it has compared its target with those of all projects. -/
theorem meets_createProjectSection_creations (hstores : StoresTargets P admits) {body : ProjectBody}
    (hadmits : admits (.createProject body)) (hvalid : Project.validateNew P body = []) (newId now : JsString) :
    (createProjectSection P body (Project.fromJson body newId now)).Meets (creations P admits op) ⟨true, none⟩
      fun _ _ => True := by
  rw [createProjectSection, meets_bind, projectsDataGetByName, meets_bind, meets_lift]
  refine ⟨(fun _ row hrow => by cases hrow), fun answer _ => ?_⟩
  rw [then_ok, meets_ofExcept]
  cases answer with
  | error e => trivial
  | ok row =>
      cases row with
      | some row => trivial
      | none =>
          rw [then_ok, meets_bind, meets_ofExcept]
          cases htarget : body.repoTargetKey P (Project.fromJson body newId now) with
          | error e => trivial
          | ok targetKey =>
              rw [then_ok, meets_bind, projectsDataGetByRepoTarget, meets_bind, projectsDataList, meets_bind, meets_lift]
              refine ⟨(fun _ row hrow => by cases hrow), fun answer _ => ?_⟩
              rw [then_ok, meets_ofExcept]
              cases answer with
              | error e => trivial
              | ok projects =>
                  rw [then_ok, meets_pure, then_ok]
                  cases hfind : projects.find? fun p => p.repoTargetKey P = targetKey with
                  | some existing => trivial
                  | none =>
                      dsimp only
                      rw [meets_bind, projectsDataAdd, meets_bind, Op.transact, meets_bind, meets_lift]
                      refine ⟨fun _ row hrow => ?_, fun answer _ => ?_⟩
                      · cases hrow
                        have hsettings := Project.targetSettings_created P (hstores body hadmits hvalid newId now)
                          (Project.effectiveRepoPrefix_of_validateNew P hvalid newId now)
                        refine ⟨⟨body, newId, now, hadmits, hvalid, rfl, hsettings⟩, projects, rfl, rfl, fun p hp => ?_⟩
                        rw [Project.repoTargetKey_of_targetSettings P hsettings, ProjectBody.repoTargetKey_ok htarget]
                        simpa using List.find?_eq_none.mp hfind p hp
                      · rw [then_ok, meets_ofExcept]
                        cases answer <;> trivial

theorem meets_createProject_creations (hstores : StoresTargets P admits) {body : ProjectBody}
    (hadmits : admits (.createProject body)) :
    (createProject P body).Meets (creations P admits op) v fun _ _ => True := by
  unfold createProject
  dsimp only
  refine meets_ite (fun _ => trivial) fun hvalid => ?_
  rw [meets_bind, Op.uuid, meets_lift]
  refine ⟨(fun _ row hrow => by cases hrow), fun newId _ => ?_⟩
  rw [then_ok, meets_bind, Op.now, meets_lift]
  refine ⟨(fun _ row hrow => by cases hrow), fun now _ => ?_⟩
  rw [then_ok, meets_bind]
  have hnone : Project.validateNew P body = [] := List.length_eq_zero_iff.mp (Nat.eq_zero_of_not_pos hvalid)
  refine meets_createLock ((meets_createProjectSection_creations hstores hadmits hnone newId now).mono
    fun r v' _ => ?_) fun e => trivial
  cases r with
  | error e => trivial
  | ok outcome =>
      cases outcome with
      | nameConflict => trivial
      | targetConflict existingName => trivial
      | created =>
          have hrefresh : (secretsHashRefreshForProject P (Project.fromJson body newId now).id).Only
              (Cmd.IssuedBy .startUp) :=
            issues_secretsHashRefreshForProject _ fun _ _ => trivial
          exact meets_of_addsNoProject (addsNoProject_of_issues (hrefresh.bind fun _ => only_pure))

/-- Every operation inserts a project only as a checked creation. -/
theorem meets_serve_creations (hstores : StoresTargets P admits) {op : Operation} (hadmits : admits op) :
    (serve P timeouts op).Meets (creations P admits op) .start fun _ _ => True := by
  cases op with
  | createProject body => exact meets_createProject_creations hstores hadmits
  | startUp => exact meets_of_addsNoProject (addsNoProject_of_issues (only_issues .startUp))
  | _ => exact (Prog.only_true _).meets_true fun _ _ _ hop => by cases hop

end Meets

/-! ## The keys of the stored projects -/

variable {R : Type} {restic : Restic R} {P : Platform} {timeouts : ResticTimeouts}
  {admits : Operation → Prop}

/-- What a creation knows: it has its lock, and no project has another key than those that it listed. -/
structure KnowsProjects (P : Platform) (t : Nat) (v : CreateView) (w : World R) : Prop where
  locked : v.locked = true → (createLockName, t) ∈ w.locks
  listed : ∀ {projects}, v.listed = some projects →
    v.locked = true ∧ ∀ p ∈ w.db.projects, ∃ q ∈ projects, q.repoTargetKey P = p.repoTargetKey P

/-- The keys tell the projects apart, and each project has the settings of an accepted creation. -/
structure UniqueTargets (P : Platform) (admits : Operation → Prop) (w : World R) : Prop where
  keys : ∀ p ∈ w.db.projects, ∀ q ∈ w.db.projects, p.repoTargetKey P = q.repoTargetKey P → p.id = q.id
  origin : ∀ p ∈ w.db.projects, ∃ body newId now, admits (.createProject body) ∧
    Project.validateNew P body = [] ∧
    p.targetSettings P = (Project.fromJson body newId now).targetSettings P

theorem KnowsProjects.of_world {t : Nat} {v : CreateView} {w w' : World R} (h : KnowsProjects P t v w)
    (hlocks : (createLockName, t) ∈ w.locks → (createLockName, t) ∈ w'.locks)
    (hprojects : v.locked = true → ∀ p' ∈ w'.db.projects, ∃ p ∈ w.db.projects,
      p.repoTargetKey P = p'.repoTargetKey P) : KnowsProjects P t v w' where
  locked hv := hlocks (h.locked hv)
  listed hv := by
    obtain ⟨hlocked, hkeys⟩ := h.listed hv
    refine ⟨hlocked, fun p' hp' => ?_⟩
    obtain ⟨p, hp, hkey⟩ := hprojects hlocked p' hp'
    obtain ⟨q, hq, hqkey⟩ := hkeys p hp
    exact ⟨q, hq, hqkey.trans hkey⟩

theorem UniqueTargets.of_db {w w' : World R} (h : UniqueTargets P admits w) (hdb : w'.db = w.db) :
    UniqueTargets P admits w' := by
  obtain ⟨hkeys, horigin⟩ := h
  rw [← hdb] at hkeys horigin
  exact ⟨hkeys, horigin⟩

/-- No transaction changes the settings of a project. -/
theorem Transaction.targetSettings_changeRow (tx : Transaction) (n : Nat) (p : Project) :
    (tx.changeRow n p).targetSettings P = p.targetSettings P := by
  cases tx <;> simp only [changeRow] <;> split_ifs <;> rfl

/-- A project after a transaction is the inserted one, or has the id and the settings of one before. -/
theorem project_of_transact {tx : Transaction} {w : World R} {db : Db} {n : Nat}
    (hrun : tx.run w.db.toTables = (db.toTables, n)) {p' : Project} (hp' : p' ∈ db.projects) :
    tx = .projectsDataAdd p' ∨
      ∃ p ∈ w.db.projects, p.id = p'.id ∧ p.targetSettings P = p'.targetSettings P := by
  have hmem : p' ∈ (tx.run w.db.toTables).1.projects := by
    rw [hrun]
    exact hp'
  rcases Transaction.mem_projects_run hmem with htx | ⟨p, hp, rfl, -⟩
  · exact Or.inl htx
  · exact Or.inr ⟨p, hp, (Transaction.changeRow_id _ _ p).symm,
      (Transaction.targetSettings_changeRow _ _ p).symm⟩

section Ran
variable {t : Nat} {op : Operation} {trace : List (Event (World R) Cmd Cmd.Answer)} {w w' : World R}

/-- What holds when a command of the operation has run. -/
abbrev RanCreating (restic : Restic R) (P : Platform) (timeouts : ResticTimeouts) (admits : Operation → Prop)
    (t : Nat) (op : Operation) (trace : List (Event (World R) Cmd Cmd.Answer)) (w : World R) (c : Cmd)
    (a : c.Answer) (w' : World R) : Prop :=
  Ran (server P timeouts restic admits) (sections P) .start Inv (Knows restic) (creations P admits) .start
    (UniqueTargets P admits) (fun t _ => KnowsProjects P t) t op trace w c a w'

/-- An insertion is a checked creation. -/
theorem creates_of_ran {row : Project} {a : Except Failure Nat}
    (h : RanCreating restic P timeouts admits t op trace w (.transact (.projectsDataAdd row)) a w') :
    Creates P admits op ((creations P admits op).after .start trace) row :=
  h.allowed' h.allowed.1 row rfl

/-- The key of an inserted project is new. -/
theorem new_key_of_ran {row : Project} {a : Except Failure Nat}
    (h : RanCreating restic P timeouts admits t op trace w (.transact (.projectsDataAdd row)) a w')
    {p : Project} (hp : p ∈ w.db.projects) : p.repoTargetKey P ≠ row.repoTargetKey P := by
  obtain ⟨projects, -, hlisted, hnew⟩ := (creates_of_ran h).checked
  obtain ⟨q, hq, hkey⟩ := (h.assert'.listed hlisted).2 p hp
  rw [← hkey]
  exact hnew q hq

/-- While an operation holds the creation lock, no other one adds a key. -/
theorem keys_of_ran_other {t' : Nat} {tx : Transaction} {a : Except Failure Nat} {db : Db} {n : Nat}
    (h : RanCreating restic P timeouts admits t op trace w (.transact tx) a w')
    (hne : t' ≠ t) (hlock : (createLockName, t') ∈ w.locks) (hrun : tx.run w.db.toTables = (db.toTables, n)) :
    ∀ p' ∈ db.projects, ∃ p ∈ w.db.projects, p.repoTargetKey P = p'.repoTargetKey P := by
  intro p' hp'
  rcases project_of_transact hrun hp' with rfl | ⟨p, hp, -, hsettings⟩
  · obtain ⟨projects, hlocked, -⟩ := (creates_of_ran h).checked
    exact absurd (h.inv.exclusive hlock (h.assert'.locked hlocked)) hne
  · exact ⟨p, hp, Project.repoTargetKey_of_targetSettings P hsettings⟩

theorem uniqueTargets_transact {tx : Transaction} {a : Except Failure Nat} {db : Db} {n : Nat}
    (h : RanCreating restic P timeouts admits t op trace w (.transact tx) a w')
    (hrun : tx.run w.db.toTables = (db.toTables, n)) (hdb : w'.db = db) : UniqueTargets P admits w' := by
  refine ⟨fun p' hp' q' hq' hkey => ?_, fun p' hp' => ?_⟩
  · rw [hdb] at hp' hq'
    rcases project_of_transact hrun hp' with rfl | ⟨p, hp, hpid, hpset⟩
    · rcases project_of_transact (P := P) hrun hq' with heq | ⟨q, hq, -, hqset⟩
      · cases heq
        rfl
      · exact absurd ((Project.repoTargetKey_of_targetSettings P hqset).trans hkey.symm) (new_key_of_ran h hq)
    · rcases project_of_transact (P := P) hrun hq' with rfl | ⟨q, hq, hqid, hqset⟩
      · exact absurd ((Project.repoTargetKey_of_targetSettings P hpset).trans hkey) (new_key_of_ran h hp)
      · rw [← hpid, ← hqid]
        refine h.inv'.keys p hp q hq ?_
        exact ((Project.repoTargetKey_of_targetSettings P hpset).trans hkey).trans
          (Project.repoTargetKey_of_targetSettings P hqset).symm
  · rw [hdb] at hp'
    rcases project_of_transact hrun hp' with rfl | ⟨p, hp, -, hset⟩
    · obtain ⟨body, newId, now, hadmits, hvalid, -, hset⟩ := (creates_of_ran h).accepted
      exact ⟨body, newId, now, hadmits, hvalid, hset⟩
    · rw [← hset]
      exact h.inv'.origin p hp

/-- Every step keeps the keys apart. -/
theorem uniqueTargets_ran {c : Cmd} {a : c.Answer}
    (h : RanCreating restic P timeouts admits t op trace w c a w') : UniqueTargets P admits w' := by
  have hexec : Exec restic t w c a w' := h.exec
  cases c with
  | projectsGet id | projectsGetByName name | projectsList | secretsList projectId | secretsGet id | fs op =>
      rw [hexec.1]
      exact h.inv'
  | now =>
      rw [show w' = w from hexec]
      exact h.inv'
  | transact tx =>
      rcases exec_transact hexec with ⟨e, -, -, rfl⟩ | ⟨db, n, hrun, -, rfl⟩
      · exact h.inv'
      · exact uniqueTargets_transact h hrun rfl
  | acquire lock =>
      rcases hexec with ⟨m, -, rfl⟩ | ⟨-, -, rfl⟩
      · exact h.inv'
      · exact h.inv'.of_db rfl
  | release lock =>
      rw [show w' = _ from hexec]
      exact h.inv'.of_db rfl
  | uuid =>
      obtain ⟨-, rfl⟩ := hexec
      exact h.inv'.of_db rfl
  | restic projectId rop =>
      obtain ⟨r, -, rfl⟩ := hexec
      exact h.inv'.of_db rfl

/-- A creation knows after its own step what its monitor has seen. -/
theorem knowsProjects_ran {c : Cmd} {a : c.Answer}
    (h : RanCreating restic P timeouts admits t op trace w c a w') :
    KnowsProjects P t (((creations P admits op).after .start trace).step c a) w' := by
  have hexec : Exec restic t w c a w' := h.exec
  have hk := h.assert'
  cases c with
  | projectsGet id | projectsGetByName name | secretsList projectId | secretsGet id | fs op =>
      rw [hexec.1]
      exact hk
  | projectsList =>
      obtain ⟨rfl, ⟨l, rfl, hl⟩ | ⟨m, rfl⟩⟩ := hexec
      · rw [CreateView.step]
        split_ifs with hlocked
        · refine ⟨fun _ => hk.locked hlocked, fun {projects} heq => ⟨hlocked, fun p hp => ?_⟩⟩
          cases heq
          exact ⟨p, hl.mem_iff.mpr hp, rfl⟩
        · exact hk
      · exact hk
  | now =>
      rw [show w' = w from hexec]
      exact hk
  | transact tx =>
      rcases exec_transact hexec with ⟨e, rfl, -, rfl⟩ | ⟨db, n, -, rfl, rfl⟩
      · exact hk
      · exact ⟨hk.locked, fun heq => by cases heq⟩
  | acquire lock =>
      rcases hexec with ⟨m, rfl, rfl⟩ | ⟨rfl, -, rfl⟩
      · exact hk
      · rw [CreateView.step]
        split_ifs with hlock
        · exact ⟨fun _ => hlock ▸ List.mem_cons_self .., fun heq => by cases heq⟩
        · exact hk.of_world (List.mem_cons_of_mem _) fun _ p hp => ⟨p, hp, rfl⟩
  | release lock =>
      rw [show w' = _ from hexec, CreateView.step]
      split_ifs with hlock
      · exact ⟨(fun hlocked => by cases hlocked), fun heq => by cases heq⟩
      · refine hk.of_world (fun hheld => List.mem_filter.mpr ⟨hheld, decide_eq_true fun heq => hlock ?_⟩)
          fun _ p hp => ⟨p, hp, rfl⟩
        exact (Prod.mk.inj heq).1.symm
  | uuid =>
      obtain ⟨-, rfl⟩ := hexec
      exact hk.of_world id fun _ p hp => ⟨p, hp, rfl⟩
  | restic projectId rop =>
      obtain ⟨r, -, rfl⟩ := hexec
      exact hk.of_world id fun _ p hp => ⟨p, hp, rfl⟩

/-- A step of another operation leaves what a creation knows. -/
theorem knowsProjects_ran_of_ne {c : Cmd} {a : c.Answer} {t' : Nat} {v' : CreateView} (hne : t' ≠ t)
    (h : RanCreating restic P timeouts admits t op trace w c a w') (hk : KnowsProjects P t' v' w) :
    KnowsProjects P t' v' w' := by
  have hexec : Exec restic t w c a w' := h.exec
  cases c with
  | projectsGet id | projectsGetByName name | projectsList | secretsList projectId | secretsGet id | fs op =>
      rw [hexec.1]
      exact hk
  | now =>
      rw [show w' = w from hexec]
      exact hk
  | transact tx =>
      rcases exec_transact hexec with ⟨e, -, -, rfl⟩ | ⟨db, n, hrun, -, rfl⟩
      · exact hk
      · exact hk.of_world id fun hlocked => keys_of_ran_other h hne (hk.locked hlocked) hrun
  | acquire lock =>
      rcases hexec with ⟨m, -, rfl⟩ | ⟨-, -, rfl⟩
      · exact hk
      · exact hk.of_world (List.mem_cons_of_mem _) fun _ p hp => ⟨p, hp, rfl⟩
  | release lock =>
      rw [show w' = _ from hexec]
      refine hk.of_world (fun hheld => List.mem_filter.mpr ⟨hheld, decide_eq_true fun heq => hne ?_⟩)
        fun _ p hp => ⟨p, hp, rfl⟩
      exact (Prod.mk.inj heq).2
  | uuid =>
      obtain ⟨-, rfl⟩ := hexec
      exact hk.of_world id fun _ p hp => ⟨p, hp, rfl⟩
  | restic projectId rop =>
      obtain ⟨r, -, rfl⟩ := hexec
      exact hk.of_world id fun _ p hp => ⟨p, hp, rfl⟩

end Ran

/-- The outline of the creation lock, over that of the write sections. -/
theorem creationOutline (P : Platform) (timeouts : ResticTimeouts) (restic : Restic R)
    {admits : Operation → Prop} (hstores : StoresTargets P admits) :
    OverOutline (server P timeouts restic admits) (sections P) .start Inv (Knows restic) (creations P admits)
      .start (UniqueTargets P admits) (fun t _ => KnowsProjects P t) fun _ _ _ => True where
  body op hop := meets_serve_creations hstores hop
  expects _ _ := trivial
  spawn t op w _ := ⟨(fun h => by cases h), fun h => by cases h⟩
  inv := uniqueTargets_ran
  self := knowsProjects_ran
  other hne h _ hk := knowsProjects_ran_of_ne hne h hk
  environment := by
    rintro w _ hinv ⟨r, -, rfl⟩
    exact ⟨hinv.of_db rfl, fun t op v hk => hk.of_world id fun _ p hp => ⟨p, hp, rfl⟩⟩

theorem uniqueTargets_of_reachable (hstores : StoresTargets P admits) {r₀ : R}
    {cfg : Config (World R) Cmd Cmd.Answer Failure Response Operation}
    (h : (server P timeouts restic admits).Reachable (World.initial emptyDb r₀) cfg) :
    UniqueTargets P admits cfg.world := by
  have hempty : UniqueTargets P admits (World.initial emptyDb r₀) :=
    ⟨fun p hp => (List.not_mem_nil hp).elim, fun p hp => (List.not_mem_nil hp).elim⟩
  have O := (serverOutline P timeouts restic admits).prod (creationOutline P timeouts restic hstores)
  exact (O.good ⟨inv_initial emptyDb r₀, hempty⟩ h).inv.2

/-- No two stored projects have the same key, whatever targets the creations ask for that are stored as they are. -/
theorem repoTargetKey_unique (hstores : StoresTargets P admits) {r₀ : R}
    {cfg : Config (World R) Cmd Cmd.Answer Failure Response Operation}
    (h : (server P timeouts restic admits).Reachable (World.initial emptyDb r₀) cfg) {p q : Project}
    (hp : p ∈ cfg.world.db.projects) (hq : q ∈ cfg.world.db.projects)
    (hkey : p.repoTargetKey P = q.repoTargetKey P) : p = q :=
  cfg.world.db.valid.projectId.inj hp hq ((uniqueTargets_of_reachable hstores h).keys p hp q hq hkey)

/-! ## The URLs of the stored projects -/

/-- The endpoint and the bucket that a creation asks for are plain, and they and the prefix are stored as they are. -/
def ProjectBody.AsksPlainTarget (P : Platform) (body : ProjectBody) : Prop :=
  Project.PlainTarget P (Project.stringField body.s3Endpoint) (Project.stringField body.s3Bucket) ∧
    (Project.fromJson body [] []).StoresTarget P

instance (P : Platform) (body : ProjectBody) : Decidable (body.AsksPlainTarget P) :=
  inferInstanceAs (Decidable (Project.PlainTarget P _ _ ∧ _))

theorem bucket_of_validateNew {body : ProjectBody} (h : Project.validateNew P body = []) :
    trim (Project.stringField body.s3Bucket) ≠ [] := by
  have hbucket : Project.isNonEmptyString body.s3Bucket = true := by
    unfold Project.validateNew at h
    simp only [List.append_eq_nil_iff] at h
    obtain ⟨⟨⟨⟨⟨-, h⟩, -⟩, -⟩, -⟩, -⟩ := h
    by_contra hno
    rw [if_neg hno] at h
    cases h
  cases hb : body.s3Bucket with
  | none => rw [hb] at hbucket; cases hbucket
  | some value =>
      rw [hb] at hbucket
      cases value with
      | str s => exact of_decide_eq_true hbucket
      | _ => cases hbucket

/-- **Plain targets.** When all accepted creations ask for plain targets, no two stored projects have the same
URL, so projects with different keys never address the same repository. -/
theorem repositoryUrl_unique
    (hplain : ∀ body, admits (.createProject body) → Project.validateNew P body = [] → body.AsksPlainTarget P)
    {r₀ : R} {cfg : Config (World R) Cmd Cmd.Answer Failure Response Operation}
    (h : (server P timeouts restic admits).Reachable (World.initial emptyDb r₀) cfg) :
    (∀ p ∈ cfg.world.db.projects, ∀ q ∈ cfg.world.db.projects, p.repositoryUrl P = q.repositoryUrl P → p = q) ∧
      ∀ p ∈ cfg.world.db.projects, ∀ q ∈ cfg.world.db.projects,
        p.repoTargetKey P ≠ q.repoTargetKey P → p.repositoryUrl P ≠ q.repositoryUrl P := by
  have hstores : StoresTargets P admits := fun body hadmits hvalid newId now => (hplain body hadmits hvalid).2
  have htarget : ∀ p ∈ cfg.world.db.projects, Project.PlainTarget P p.s3Endpoint p.s3Bucket ∧
      trim p.s3Bucket ≠ [] := by
    intro p hp
    obtain ⟨body, newId, now, hadmits, hvalid, hset⟩ := (uniqueTargets_of_reachable hstores h).origin p hp
    rw [Project.targetSettings, Project.targetSettings, Prod.mk.injEq, Prod.mk.injEq] at hset
    rw [hset.1, hset.2.1]
    exact ⟨(hplain body hadmits hvalid).1, bucket_of_validateNew hvalid⟩
  have hkeys : ∀ p ∈ cfg.world.db.projects, ∀ q ∈ cfg.world.db.projects,
      p.repositoryUrl P = q.repositoryUrl P → p.repoTargetKey P = q.repoTargetKey P := by
    intro p hp q hq hurl
    apply Project.repoTargetKey_of_targetSettings
    exact Project.targetSettings_of_repositoryUrl P (htarget p hp).1 (htarget q hq).1 (htarget p hp).2
      (htarget q hq).2 hurl
  refine ⟨fun p hp q hq hurl => ?_, fun p hp q hq hne hurl => hne (hkeys p hp q hq hurl)⟩
  exact repoTargetKey_unique hstores h hp hq (hkeys p hp q hq hurl)

section Example

/-- The creation of a project in the bucket, under the prefix. -/
def targetBody (name bucket pre : String) : ProjectBody :=
  { demoBody with
    name := some (.str (js name))
    s3Bucket := some (.str (js bucket))
    repoPrefix := some (.str (js pre)) }

/-- Two creations, one after the other. -/
def creationMoves (first second : ProjectBody) : List (Move Operation JsString) :=
  .spawn (.createProject first) :: .run 0 (js "p") :: steps 0 8 ++
    .spawn (.createProject second) :: .run 1 (js "q") :: steps 1 8

theorem repositoryUrl_unique_plain :
    ∃ cfg, (server runPlatform exampleTimeouts Snapshots.restic fun op =>
        op = .createProject (targetBody "one" "a" "b/c") ∨ op = .createProject (targetBody "two" "a" "c")).Reachable
      (.initial emptyDb []) cfg ∧
    cfg.world.db.projects.length = 2 ∧
    ∀ p ∈ cfg.world.db.projects, ∀ q ∈ cfg.world.db.projects,
      p.repositoryUrl runPlatform = q.repositoryUrl runPlatform → p = q := by
  obtain ⟨cfg, hplay, hlength⟩ : ∃ cfg,
      playExample (creationMoves (targetBody "one" "a" "b/c") (targetBody "two" "a" "c")) (.initial emptyDb []) =
        some cfg ∧
      cfg.world.db.projects.length = 2 :=
    Option.map_eq_some_iff.mp rfl
  have hreachable : (server runPlatform exampleTimeouts Snapshots.restic fun op =>
      op = .createProject (targetBody "one" "a" "b/c") ∨ op = .createProject (targetBody "two" "a" "c")).Reachable
      (.initial emptyDb []) cfg := by
    refine playExample_reachable (fun op hop => ?_) hplay
    simpa [creationMoves, steps] using hop
  refine ⟨cfg, hreachable, hlength, (repositoryUrl_unique (fun body hbody _ => ?_) hreachable).1⟩
  rcases hbody with hbody | hbody <;> cases hbody <;> decide

/-- Both creations are accepted, the keys of the two projects differ, and their URL is the same. -/
theorem not_repositoryUrl_unique :
    ∃ cfg, (server runPlatform exampleTimeouts Snapshots.restic fun _ => True).Reachable
      (.initial emptyDb []) cfg ∧
    Project.validateNew runPlatform (targetBody "one" "a" "b/c") = [] ∧
    Project.validateNew runPlatform (targetBody "two" "a/b" "c") = [] ∧
    ∃ p ∈ cfg.world.db.projects, ∃ q ∈ cfg.world.db.projects, p ≠ q ∧
      p.repoTargetKey runPlatform ≠ q.repoTargetKey runPlatform ∧
      p.repositoryUrl runPlatform = js "s3:https://s3.example.org/a/b/c" ∧
      q.repositoryUrl runPlatform = js "s3:https://s3.example.org/a/b/c" := by
  obtain ⟨cfg, hplay, hprojects⟩ : ∃ cfg,
      playExample (creationMoves (targetBody "one" "a" "b/c") (targetBody "two" "a/b" "c")) (.initial emptyDb []) =
        some cfg ∧
      (cfg.world.db.projects.map fun p => (p.id, p.repoTargetKey runPlatform, p.repositoryUrl runPlatform)) =
        [(js "p", js "s3.example.org\na\nb/c", js "s3:https://s3.example.org/a/b/c"),
          (js "q", js "s3.example.org\na/b\nc", js "s3:https://s3.example.org/a/b/c")] :=
    Option.map_eq_some_iff.mp rfl
  have hstored : ∀ row ∈ cfg.world.db.projects.map fun p =>
      (p.id, p.repoTargetKey runPlatform, p.repositoryUrl runPlatform), ∃ p ∈ cfg.world.db.projects,
        p.id = row.1 ∧ p.repoTargetKey runPlatform = row.2.1 ∧ p.repositoryUrl runPlatform = row.2.2 := by
    intro row hrow
    obtain ⟨p, hp, rfl⟩ := List.mem_map.mp hrow
    exact ⟨p, hp, rfl, rfl, rfl⟩
  rw [hprojects] at hstored
  obtain ⟨p, hp, hpid, hpkey, hpurl⟩ := hstored _ (List.mem_cons_self ..)
  obtain ⟨q, hq, hqid, hqkey, hqurl⟩ := hstored _ (List.mem_cons_of_mem _ (List.mem_cons_self ..))
  refine ⟨cfg, playExample_reachable (fun _ _ => trivial) hplay, by decide, by decide, p, hp, q, hq,
    fun heq => ?_, fun heq => ?_, hpurl, hqurl⟩
  · rw [heq, hqid] at hpid
    exact absurd hpid (by decide)
  · rw [hpkey, hqkey] at heq
    exact absurd heq (by decide)

end Example

end SecretsManager
