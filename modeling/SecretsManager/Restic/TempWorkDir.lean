import Mathlib.Logic.Relation
import SecretsManager.Js.Text
import SecretsManager.Library.SortedBy
import SecretsManager.Library.Worklist

/-!
# The permissions of a restored tree

The restored files are secrets, so their permissions are tightened before they are read. The loop reaches a
directory only after its own permissions are set, through directories that it has set before, and never goes
through a link: so it sets the mode of every directory and regular file of the tree, and of nothing else.
-/

namespace SecretsManager

open Js SortedBy Worklist

/-! ## The file system -/

/-- What is behind an inode number. The target of a link is the inode where following it ends, if there is one. -/
inductive FileKind where
  | directory (entries : List (JsString × Nat)) (distinct : Distinct Prod.fst entries)
  | file
  | symbolicLink (target : Option Nat)
  | other

namespace FileKind

def isDirectory : FileKind → Bool
  | directory _ _ => true
  | file | symbolicLink _ | other => false

def isFile : FileKind → Bool
  | file => true
  | directory _ _ | symbolicLink _ | other => false

def isSymbolicLink : FileKind → Bool
  | symbolicLink _ => true
  | directory _ _ | file | other => false

end FileKind

inductive FsError where
  | notFound
  | notDirectory
  | accessDenied
  deriving DecidableEq

/-- The permission bits of each inode. -/
abbrev Modes := Nat → Nat

section FileSystem
variable (inodes : Nat → FileKind)

def follow (ino : Nat) : Except FsError Nat :=
  match inodes ino with
  | .symbolicLink (some target) => .ok target
  | .symbolicLink none => .error .notFound
  | _ => .ok ino

/-- The entry of a directory, which needs the permission to search it. -/
def lookup (modes : Modes) (dir : Nat) (name : JsString) : Except FsError Nat :=
  match inodes dir with
  | .directory entries _ =>
      if modes dir &&& 0o100 = 0 then .error .accessDenied
      else
        match entries.find? fun entry => entry.1 = name with
        | some entry => .ok entry.2
        | none => .error .notFound
  | _ => .error .notDirectory

/-- The inode of the root directory followed by these names. A link is followed unless it is the last. -/
def walk (root : Nat) (modes : Modes) (path : List JsString) : Except FsError Nat :=
  path.foldlM (fun ino name => do lookup inodes modes (← follow inodes ino) name) root

def lstat (root : Nat) (modes : Modes) (path : List JsString) : Except FsError FileKind :=
  (walk inodes root modes path).map inodes

def chmod (root : Nat) (modes : Modes) (path : List JsString) (mode : Nat) : Except FsError Modes := do
  let ino ← follow inodes (← walk inodes root modes path)
  return Function.update modes ino mode

/-- The names with what they are, for the option `withFileTypes`. -/
def readdir (root : Nat) (modes : Modes) (path : List JsString) : Except FsError (List (JsString × FileKind)) := do
  let ino ← follow inodes (← walk inodes root modes path)
  match inodes ino with
  | .directory entries _ =>
      if modes ino &&& 0o400 = 0 then .error .accessDenied
      else return entries.map fun entry => (entry.1, inodes entry.2)
  | _ => .error .notDirectory

/-! ## The loop -/

/-- One entry of the directory `current`, with the directories found so far, the last one first. -/
def restrictEntry (root : Nat) (current : List JsString) (found : Modes × List (List JsString))
    (entry : JsString × FileKind) : Except FsError (Modes × List (List JsString)) :=
  if entry.2.isSymbolicLink then .ok found
  else do
    let entryPath := current ++ [entry.1]
    let stats ← lstat inodes root found.1 entryPath
    if stats.isDirectory then
      let modes ← chmod inodes root found.1 entryPath 0o700
      return (modes, entryPath :: found.2)
    else if stats.isFile then
      let modes ← chmod inodes root found.1 entryPath 0o600
      return (modes, found.2)
    else return found

def restrictDirectory (root : Nat) (modes : Modes) (current : List JsString) :
    Except FsError (Modes × List (List JsString)) := do
  let entries ← readdir inodes root modes current
  entries.foldlM (restrictEntry inodes root current) (modes, [])

/-- `pending` is a stack; each turn of the loop takes one of the fuel. -/
def restrictTreePermissions (root fuel : Nat) (modes : Modes) : Option (Except FsError Modes) :=
  match chmod inodes root modes [] 0o700 with
  | .ok modes => drain (restrictDirectory inodes root) fuel modes [[]]
  | .error e => some (.error e)

/-! ## Trees -/

/-- The directory lists the inode. -/
def IsEntry (dir ino : Nat) : Prop :=
  ∃ entries distinct name, inodes dir = .directory entries distinct ∧ (name, ino) ∈ entries

/-- Reached from the root without following a link. -/
def InTree (root ino : Nat) : Prop := Relation.ReflTransGen (IsEntry inodes) root ino

/-- Every way down from the root ends. Links may lead anywhere, also up. -/
def FiniteTree (root : Nat) : Prop := Acc (fun ino dir => IsEntry inodes dir ino) root

/-- The mode that an inode of the tree gets, if it is set. -/
def requiredMode : FileKind → Option Nat
  | .directory _ _ => some 0o700
  | .file => some 0o600
  | .symbolicLink _ | .other => none

/-- The inodes in `S` have got their modes, and all others are as they were. -/
structure Tightens (S : Set Nat) (modes modes' : Modes) : Prop where
  inside : ∀ ino ∈ S, modes' ino = (requiredMode (inodes ino)).getD (modes ino)
  outside : ∀ ino ∉ S, modes' ino = modes ino

/-- The path leads to the directory through directories that are open to the owner, as it is. -/
inductive Opened (root : Nat) (modes : Modes) : List JsString → Nat → Prop where
  | root : (inodes root).isDirectory = true → modes root = 0o700 → Opened root modes [] root
  | entry {path dir entries distinct name ino} : Opened root modes path dir →
      inodes dir = .directory entries distinct → (name, ino) ∈ entries → (inodes ino).isDirectory = true →
      modes ino = 0o700 → Opened root modes (path ++ [name]) ino

end FileSystem

variable {inodes : Nat → FileKind} {root dir ino : Nat} {modes modes' modes'' : Modes} {S T : Set Nat}

/-! ### Modes -/

theorem Tightens.trans (h₁ : Tightens inodes S modes modes') (h₂ : Tightens inodes T modes' modes'') :
    Tightens inodes (S ∪ T) modes modes'' := by
  constructor
  · intro ino hino
    by_cases hT : ino ∈ T
    · rw [h₂.inside ino hT]
      -- a mode that is required does not depend on the one before
      cases hrequired : requiredMode (inodes ino) with
      | some mode => rfl
      | none =>
          by_cases hS : ino ∈ S
          · rw [h₁.inside ino hS, hrequired]
            rfl
          · rw [h₁.outside ino hS]
    · rw [h₂.outside ino hT, h₁.inside ino (hino.resolve_right hT)]
  · intro ino hino
    obtain ⟨hS, hT⟩ := not_or.mp hino
    rw [h₂.outside ino hT, h₁.outside ino hS]

theorem tightens_update {mode : Nat} (h : requiredMode (inodes ino) = some mode) :
    Tightens inodes {ino} modes (Function.update modes ino mode) := by
  constructor
  · rintro _ rfl
    rw [Function.update_self, h]
    rfl
  · exact fun other hother => Function.update_of_ne hother _ _

theorem tightens_same (h : requiredMode (inodes ino) = none) : Tightens inodes {ino} modes modes := by
  refine ⟨?_, fun _ _ => rfl⟩
  rintro _ rfl
  rw [h]
  rfl

theorem requiredMode_directory {kind : FileKind} (h : kind.isDirectory = true) : requiredMode kind = some 0o700 := by
  cases kind <;> first | rfl | cases h

theorem requiredMode_file {kind : FileKind} (h : kind.isFile = true) : requiredMode kind = some 0o600 := by
  cases kind <;> first | rfl | cases h

/-- A directory that is open stays so. -/
theorem Tightens.keeps (h : Tightens inodes S modes modes') (hdir : (inodes ino).isDirectory = true)
    (hopen : modes ino = 0o700) : modes' ino = 0o700 := by
  by_cases hS : ino ∈ S
  · rw [h.inside ino hS, requiredMode_directory hdir]
    rfl
  · rw [h.outside ino hS, hopen]

/-! ### Paths -/

theorem follow_of_not_link (h : (inodes ino).isSymbolicLink = false) : follow inodes ino = .ok ino := by
  unfold follow
  cases hkind : inodes ino with
  | symbolicLink target => rw [hkind] at h; cases h
  | directory entries distinct => rfl
  | file => rfl
  | other => rfl

theorem isSymbolicLink_of_isDirectory {kind : FileKind} (h : kind.isDirectory = true) : kind.isSymbolicLink = false := by
  cases kind <;> first | rfl | cases h

namespace Opened

variable {path : List JsString} {entries : List (JsString × Nat)} {distinct : Distinct Prod.fst entries} {name : JsString}

theorem isDirectory (h : Opened inodes root modes path dir) : (inodes dir).isDirectory = true := by
  cases h <;> assumption

theorem mode (h : Opened inodes root modes path dir) : modes dir = 0o700 := by
  cases h <;> assumption

theorem mono (h : Opened inodes root modes path dir) (ht : Tightens inodes S modes modes') :
    Opened inodes root modes' path dir := by
  induction h with
  | root hdir hopen => exact .root hdir (ht.keeps hdir hopen)
  | entry _ hentries hmem hdir hopen ih => exact .entry ih hentries hmem hdir (ht.keeps hdir hopen)

theorem follow (h : Opened inodes root modes path dir) : SecretsManager.follow inodes dir = .ok dir :=
  follow_of_not_link (isSymbolicLink_of_isDirectory h.isDirectory)

theorem lookup (h : Opened inodes root modes path dir) (hentries : inodes dir = .directory entries distinct)
    (hmem : (name, ino) ∈ entries) : SecretsManager.lookup inodes modes dir name = .ok ino := by
  have hfind : entries.find? (fun entry => entry.1 = name) = some (name, ino) := by
    cases hfound : entries.find? (fun entry => entry.1 = name) with
    | none => exact absurd (by simp) (List.find?_eq_none.mp hfound (name, ino) hmem)
    | some entry =>
        have hname : entry.1 = name := by simpa using List.find?_some hfound
        rw [distinct.inj (List.mem_of_find?_eq_some hfound) hmem hname]
  unfold SecretsManager.lookup
  rw [hentries, h.mode]
  simp only [hfind]
  rfl

/-- A link is never met on the way. -/
theorem walk (h : Opened inodes root modes path dir) : SecretsManager.walk inodes root modes path = .ok dir := by
  induction h with
  | root _ _ => rfl
  | entry hpath hentries hmem _ _ ih =>
      rw [SecretsManager.walk, List.foldlM_append, ← SecretsManager.walk, ih]
      show ((SecretsManager.follow inodes _ >>= fun ino => SecretsManager.lookup inodes modes ino _) >>= pure) = _
      rw [hpath.follow, bind_pure]
      exact hpath.lookup hentries hmem

theorem walk_entry (h : Opened inodes root modes path dir) (hentries : inodes dir = .directory entries distinct)
    (hmem : (name, ino) ∈ entries) : SecretsManager.walk inodes root modes (path ++ [name]) = .ok ino := by
  rw [SecretsManager.walk, List.foldlM_append, ← SecretsManager.walk, h.walk]
  show ((SecretsManager.follow inodes _ >>= fun ino => SecretsManager.lookup inodes modes ino _) >>= pure) = _
  rw [h.follow, bind_pure]
  exact h.lookup hentries hmem

theorem readdir (h : Opened inodes root modes path dir) (hentries : inodes dir = .directory entries distinct) :
    SecretsManager.readdir inodes root modes path = .ok (entries.map fun entry => (entry.1, inodes entry.2)) := by
  unfold SecretsManager.readdir
  rw [h.walk]
  show (SecretsManager.follow inodes dir >>= _) = _
  rw [h.follow]
  show (match inodes dir with | .directory entries _ => _ | _ => _) = _
  rw [hentries, h.mode]
  rfl

end Opened

/-! ### One directory -/

section Directory
variable {current : List JsString} {entries : List (JsString × Nat)} {distinct : Distinct Prod.fst entries}

theorem chmod_of_walk {path : List JsString} (hwalk : walk inodes root modes path = .ok ino)
    (hlink : (inodes ino).isSymbolicLink = false) (mode : Nat) :
    chmod inodes root modes path mode = .ok (Function.update modes ino mode) := by
  unfold chmod
  rw [hwalk]
  show (follow inodes ino >>= _) = _
  rw [follow_of_not_link hlink]
  rfl

/-- An entry gets its mode, and a directory is found. -/
theorem restrictEntry_ok (hcurrent : Opened inodes root modes current dir)
    (hentries : inodes dir = .directory entries distinct) {entry : JsString × Nat} (hmem : entry ∈ entries)
    (found : List (List JsString)) :
    ∃ modes', restrictEntry inodes root current (modes, found) (entry.1, inodes entry.2) =
        .ok (modes', if (inodes entry.2).isDirectory then (current ++ [entry.1]) :: found else found) ∧
      Tightens inodes {entry.2} modes modes' := by
  have hwalk := hcurrent.walk_entry hentries (show (entry.1, entry.2) ∈ entries from hmem)
  have hlstat : lstat inodes root modes (current ++ [entry.1]) = .ok (inodes entry.2) := by
    rw [lstat, hwalk]
    rfl
  unfold restrictEntry
  cases hkind : inodes entry.2 with
  | symbolicLink target => exact ⟨modes, rfl, tightens_same (by rw [hkind]; rfl)⟩
  | directory children hdistinct =>
      refine ⟨Function.update modes entry.2 0o700, ?_, tightens_update (by rw [hkind]; rfl)⟩
      rw [hkind] at hlstat
      simp only [FileKind.isSymbolicLink, Bool.false_eq_true, if_false, hlstat]
      show (chmod inodes root modes (current ++ [entry.1]) 0o700 >>= _) = _
      rw [chmod_of_walk hwalk (by rw [hkind]; rfl)]
      rfl
  | file =>
      refine ⟨Function.update modes entry.2 0o600, ?_, tightens_update (by rw [hkind]; rfl)⟩
      rw [hkind] at hlstat
      simp only [FileKind.isSymbolicLink, Bool.false_eq_true, if_false, hlstat]
      show (chmod inodes root modes (current ++ [entry.1]) 0o600 >>= _) = _
      rw [chmod_of_walk hwalk (by rw [hkind]; rfl)]
      rfl
  | other =>
      refine ⟨modes, ?_, tightens_same (by rw [hkind]; rfl)⟩
      rw [hkind] at hlstat
      simp only [FileKind.isSymbolicLink, Bool.false_eq_true, if_false, hlstat]
      rfl

/-- The directories in the list, with their paths. -/
def subdirectories (inodes : Nat → FileKind) (current : List JsString) (l : List (JsString × Nat)) :
    List (List JsString × Nat) :=
  (l.filter fun entry => (inodes entry.2).isDirectory).map fun entry => (current ++ [entry.1], entry.2)

/-- The entries get their modes, one after the other. -/
theorem foldlM_restrictEntry (hcurrent : Opened inodes root modes current dir)
    (hentries : inodes dir = .directory entries distinct) {l : List (JsString × Nat)} (hl : l ⊆ entries)
    (found : List (List JsString)) :
    ∃ modes', (l.map fun entry => (entry.1, inodes entry.2)).foldlM (restrictEntry inodes root current)
        (modes, found) = .ok (modes', ((subdirectories inodes current l).map Prod.fst).reverse ++ found) ∧
      Tightens inodes {ino | ∃ entry ∈ l, entry.2 = ino} modes modes' := by
  induction l generalizing modes found with
  | nil =>
      refine ⟨modes, rfl, fun ino hino => ?_, fun _ _ => rfl⟩
      obtain ⟨entry, hmem, -⟩ := hino
      cases hmem
  | cons entry l ih =>
      obtain ⟨hmem, hl⟩ := List.cons_subset.mp hl
      obtain ⟨modes', hentry, htightens⟩ := restrictEntry_ok hcurrent hentries hmem found
      rw [List.map_cons, List.foldlM_cons, hentry]
      obtain ⟨modes'', hrest, htightens'⟩ := ih (hcurrent.mono htightens) hl
        (if (inodes entry.2).isDirectory then (current ++ [entry.1]) :: found else found)
      refine ⟨modes'', hrest.trans ?_, ?_⟩
      · unfold subdirectories
        rw [List.filter_cons]
        split_ifs <;> simp
      · have hsets : {ino | ∃ e ∈ entry :: l, e.2 = ino} = {entry.2} ∪ {ino | ∃ e ∈ l, e.2 = ino} := by
          ext ino
          simp [eq_comm]
        rw [hsets]
        exact htightens.trans htightens'

theorem isEntry_iff (hentries : inodes dir = .directory entries distinct) :
    IsEntry inodes dir ino ↔ ∃ entry ∈ entries, entry.2 = ino := by
  constructor
  · rintro ⟨entries', distinct', name, hentries', hmem⟩
    rw [hentries] at hentries'
    cases hentries'
    exact ⟨_, hmem, rfl⟩
  · rintro ⟨⟨name, _⟩, hmem, rfl⟩
    exact ⟨entries, distinct, name, hentries, hmem⟩

/-- A turn of the loop sets the entries of a directory and finds the directories among them. -/
theorem restrictDirectory_ok (hcurrent : Opened inodes root modes current dir) :
    ∃ (modes' : Modes) (found : List (List JsString × Nat)),
      restrictDirectory inodes root modes current = .ok (modes', found.map Prod.fst) ∧
      Tightens inodes {ino | IsEntry inodes dir ino} modes modes' ∧
      (∀ sub ∈ found, IsEntry inodes dir sub.2 ∧ Opened inodes root modes' sub.1 sub.2) ∧
      ∀ ino, IsEntry inodes dir ino → (inodes ino).isDirectory = true → ∃ sub ∈ found, sub.2 = ino := by
  obtain ⟨entries, distinct, hentries⟩ : ∃ entries distinct, inodes dir = .directory entries distinct := by
    have hdir := hcurrent.isDirectory
    cases hkind : inodes dir with
    | directory entries distinct => exact ⟨entries, distinct, rfl⟩
    | file => rw [hkind] at hdir; cases hdir
    | symbolicLink target => rw [hkind] at hdir; cases hdir
    | other => rw [hkind] at hdir; cases hdir
  obtain ⟨modes', hfold, htightens⟩ := foldlM_restrictEntry hcurrent hentries (List.Subset.refl _) []
  simp only [← isEntry_iff hentries] at htightens
  refine ⟨modes', (subdirectories inodes current entries).reverse, ?_, htightens, fun sub hsub => ?_,
    fun ino hino hdir => ?_⟩
  · rw [restrictDirectory, hcurrent.readdir hentries, List.map_reverse]
    rw [List.append_nil] at hfold
    exact hfold
  · obtain ⟨entry, hentry, rfl⟩ := List.mem_map.mp (List.mem_reverse.mp hsub)
    obtain ⟨hmem, hdir⟩ := List.mem_filter.mp hentry
    have hentry : IsEntry inodes dir entry.2 := (isEntry_iff hentries).mpr ⟨entry, hmem, rfl⟩
    refine ⟨hentry, .entry (hcurrent.mono htightens) hentries hmem hdir ?_⟩
    rw [htightens.inside _ hentry, requiredMode_directory hdir]
    rfl
  · obtain ⟨entry, hmem, rfl⟩ := (isEntry_iff hentries).mp hino
    exact ⟨(current ++ [entry.1], entry.2),
      List.mem_reverse.mpr (List.mem_map_of_mem (List.mem_filter.mpr ⟨hmem, hdir⟩)), rfl⟩

end Directory

/-! ### The whole tree -/

/-- What is below a directory, without itself. -/
def strictlyBelow (inodes : Nat → FileKind) (dir : Nat) : Set Nat := {ino | Relation.TransGen (IsEntry inodes) dir ino}

/-- The subtrees of the found directories, one after the other. -/
theorem drains_found {found : List (List JsString × Nat)}
    (hdrains : ∀ sub ∈ found, ∀ {modes}, Opened inodes root modes sub.1 sub.2 → ∃ modes',
      Drains (restrictDirectory inodes root) modes [sub.1] modes' ∧
        Tightens inodes (strictlyBelow inodes sub.2) modes modes')
    (hopened : ∀ sub ∈ found, Opened inodes root modes sub.1 sub.2) :
    ∃ modes', Drains (restrictDirectory inodes root) modes (found.map Prod.fst) modes' ∧
      Tightens inodes {ino | ∃ sub ∈ found, ino ∈ strictlyBelow inodes sub.2} modes modes' := by
  induction found generalizing modes with
  | nil =>
      refine ⟨modes, drains_nil modes, fun ino hino => ?_, fun _ _ => rfl⟩
      obtain ⟨sub, hmem, -⟩ := hino
      cases hmem
  | cons sub found ih =>
      obtain ⟨hsub, hdrains⟩ := List.forall_mem_cons.mp hdrains
      obtain ⟨hopen, hopened⟩ := List.forall_mem_cons.mp hopened
      obtain ⟨modes', hfirst, htightens⟩ := hsub hopen
      obtain ⟨modes'', hrest, htightens'⟩ := ih hdrains fun sub hmem => (hopened sub hmem).mono htightens
      refine ⟨modes'', hfirst.append hrest, ?_⟩
      have hsets : {ino | ∃ s ∈ sub :: found, ino ∈ strictlyBelow inodes s.2} =
          strictlyBelow inodes sub.2 ∪ {ino | ∃ s ∈ found, ino ∈ strictlyBelow inodes s.2} := by
        ext ino
        simp
      rw [hsets]
      exact htightens.trans htightens'

/-- The loop gets through a directory and sets all that is below it. The induction goes down the tree. -/
theorem drains_directory (hfinite : FiniteTree inodes dir) {path : List JsString}
    (hopened : Opened inodes root modes path dir) :
    ∃ modes', Drains (restrictDirectory inodes root) modes [path] modes' ∧
      Tightens inodes (strictlyBelow inodes dir) modes modes' := by
  induction hfinite generalizing modes path with
  | intro dir _ ih =>
      obtain ⟨modes', found, hvisit, htightens, hfound, hall⟩ := restrictDirectory_ok hopened
      obtain ⟨modes'', hdrains, htightens'⟩ := drains_found
        (fun sub hsub _ hopen => ih sub.2 (hfound sub hsub).1 hopen) fun sub hsub => (hfound sub hsub).2
      refine ⟨modes'', hdrains.of_visit hvisit, ?_⟩
      have hsets : strictlyBelow inodes dir =
          {ino | IsEntry inodes dir ino} ∪ {ino | ∃ sub ∈ found, ino ∈ strictlyBelow inodes sub.2} := by
        ext ino
        constructor
        · intro hbelow
          obtain ⟨child, hchild, hrest⟩ := Relation.TransGen.head'_iff.mp hbelow
          rcases Relation.reflTransGen_iff_eq_or_transGen.mp hrest with rfl | hbelow
          · exact Or.inl hchild
          · -- only a directory has something below it
            have hdir : (inodes child).isDirectory = true := by
              obtain ⟨next, ⟨entries, distinct, name, hentries, -⟩, -⟩ := Relation.TransGen.head'_iff.mp hbelow
              rw [hentries]
              rfl
            obtain ⟨sub, hsub, rfl⟩ := hall child hchild hdir
            exact Or.inr ⟨sub, hsub, hbelow⟩
        · rintro (hentry | ⟨sub, hsub, hbelow⟩)
          · exact Relation.TransGen.single hentry
          · exact Relation.TransGen.head (hfound sub hsub).1 hbelow
      rw [hsets]
      exact htightens.trans htightens'

/-- **Tightened completely, and only there.** In any finite tree, whatever its links lead to, the loop ends; then
every directory reached without a link has the mode 0700 and every regular file so reached 0600, and links, other
entries and all inodes outside the tree have the mode that they had. -/
theorem restrictTreePermissions_tightens (hroot : (inodes root).isDirectory = true) (hfinite : FiniteTree inodes root)
    (modes : Modes) :
    ∃ fuel modes', (∀ more, restrictTreePermissions inodes root (fuel + more) modes = some (.ok modes')) ∧
      ∀ ino, (InTree inodes root ino → (inodes ino).isDirectory = true → modes' ino = 0o700) ∧
        (InTree inodes root ino → (inodes ino).isFile = true → modes' ino = 0o600) ∧
        (¬ InTree inodes root ino ∨ (inodes ino).isDirectory = false ∧ (inodes ino).isFile = false →
          modes' ino = modes ino) := by
  have hchmod : chmod inodes root modes [] 0o700 = .ok (Function.update modes root 0o700) :=
    chmod_of_walk rfl (isSymbolicLink_of_isDirectory hroot) _
  have hfirst : Tightens inodes {root} modes (Function.update modes root 0o700) :=
    tightens_update (requiredMode_directory hroot)
  obtain ⟨modes', hdrains, hbelow⟩ := drains_directory hfinite
    (.root hroot (Function.update_self (f := modes) root 0o700))
  obtain ⟨fuel, hends⟩ := hdrains.ends
  have htightens := hfirst.trans hbelow
  have hin : ∀ ino, ino ∈ {root} ∪ strictlyBelow inodes root ↔ InTree inodes root ino := fun ino =>
    Relation.reflTransGen_iff_eq_or_transGen.symm
  refine ⟨fuel, modes', fun more => ?_, fun ino => ⟨fun htree hdir => ?_, fun htree hfile => ?_, ?_⟩⟩
  · rw [restrictTreePermissions, hchmod]
    exact hends more
  · rw [htightens.inside ino ((hin ino).mpr htree), requiredMode_directory hdir]
    rfl
  · rw [htightens.inside ino ((hin ino).mpr htree), requiredMode_file hfile]
    rfl
  · rintro (hout | ⟨hdir, hfile⟩)
    · exact htightens.outside ino fun hmem => hout ((hin ino).mp hmem)
    · have hnone : requiredMode (inodes ino) = none := by
        cases hkind : inodes ino with
        | directory entries distinct => rw [hkind] at hdir; cases hdir
        | file => rw [hkind] at hfile; cases hfile
        | symbolicLink target => rfl
        | other => rfl
      by_cases htree : InTree inodes root ino
      · rw [htightens.inside ino ((hin ino).mpr htree), hnone]
        rfl
      · exact htightens.outside ino fun hmem => htree ((hin ino).mp hmem)

section Example

/-- A root with a file, a link to a file outside and a directory, in which a link leads back to the root. -/
def exampleTree : Nat → FileKind
  | 0 => .directory [(js "api.json", 1), (js "link.json", 2), (js "nested", 3)] (by decide)
  | 1 => .file
  | 2 => .symbolicLink (some 5)
  | 3 => .directory [(js "up", 4)] (by decide)
  | 4 => .symbolicLink (some 0)
  | 5 => .file
  | _ => .other

theorem finiteTree_exampleTree : FiniteTree exampleTree 0 := by
  have hleaf : ∀ ino, (exampleTree ino).isDirectory = false → FiniteTree exampleTree ino := by
    refine fun ino hino => .intro ino fun child hchild => ?_
    obtain ⟨entries, distinct, name, hentries, -⟩ := hchild
    rw [hentries] at hino
    cases hino
  have hnested : FiniteTree exampleTree 3 := by
    refine .intro 3 fun child hchild => ?_
    obtain ⟨entry, hmem, rfl⟩ := (isEntry_iff (show exampleTree 3 = _ from rfl)).mp hchild
    obtain rfl := List.mem_singleton.mp hmem
    exact hleaf 4 rfl
  refine .intro 0 fun child hchild => ?_
  obtain ⟨entry, hmem, rfl⟩ := (isEntry_iff (show exampleTree 0 = _ from rfl)).mp hchild
  simp only [List.mem_cons, List.not_mem_nil, or_false] at hmem
  rcases hmem with rfl | rfl | rfl
  · exact hleaf 1 rfl
  · exact hleaf 2 rfl
  · exact hnested

theorem restrictTreePermissions_exampleTree :
    ∃ fuel modes', (∀ more, restrictTreePermissions exampleTree 0 (fuel + more) (fun _ => 0o644) = some (.ok modes')) ∧
      modes' 0 = 0o700 ∧ modes' 1 = 0o600 ∧ modes' 2 = 0o644 := by
  obtain ⟨fuel, modes', hends, hmodes⟩ :=
    @restrictTreePermissions_tightens exampleTree 0 rfl finiteTree_exampleTree fun _ => 0o644
  have hfile : InTree exampleTree 0 1 := .single ⟨_, _, js "api.json", rfl, by decide⟩
  exact ⟨fuel, modes', hends, (hmodes 0).1 .refl rfl, (hmodes 1).2.1 hfile rfl, (hmodes 2).2.2 (Or.inr ⟨rfl, rfl⟩)⟩

end Example

end SecretsManager
