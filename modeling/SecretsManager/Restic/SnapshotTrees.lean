import SecretsManager.Restic.SnapshotFiles
import SecretsManager.Secrets.SecretVersions

/-!
# Snapshots of other applications

A restored snapshot is a tree, and only the files at its top are looked at. Without any file there it is read as a
snapshot without secrets, also when it has files further down.
-/

namespace SecretsManager

open Js Interleaving

/-! ## Trees -/

/-- What is restored under a name. Links, sockets and the like are all `other`. -/
inductive FsTree where
  | file (text : JsString)
  | directory (children : List (JsString × FsTree))
  | other

namespace FsTree

def isFile : FsTree → Bool
  | file _ => true
  | directory _ | other => false

/-- There is a regular file at some depth. -/
inductive HasFile : FsTree → Prop where
  | file {text} : HasFile (.file text)
  | inside {children child} : child ∈ children → HasFile child.2 → HasFile (.directory children)

/-- The entry of the listing, which says nothing of what is below it. -/
def node : FsTree → FsNode
  | file text => .file text
  | directory _ => .directory
  | other => .symbolicLink

theorem isFile_node (tree : FsTree) : tree.node.isFile = tree.isFile := by
  cases tree <;> rfl

end FsTree

/-- `fse.readdir`, in the order of the tree. -/
def listed (children : List (JsString × FsTree)) : List (JsString × FsNode) := children.map fun child => (child.1, child.2.node)

theorem any_isFile_listed {children : List (JsString × FsTree)} {listing : List (JsString × FsNode)}
    (h : listing.Perm (listed children)) :
    listing.any (fun entry => entry.2.isFile) = true ↔ ∃ child ∈ children, child.2.isFile = true := by
  rw [h.any_eq, List.any_eq_true]
  constructor
  · rintro ⟨entry, hentry, hfile⟩
    obtain ⟨child, hchild, rfl⟩ := List.mem_map.mp hentry
    exact ⟨child, hchild, child.2.isFile_node ▸ hfile⟩
  · rintro ⟨child, hchild, hfile⟩
    exact ⟨_, List.mem_map_of_mem hchild, child.2.isFile_node.trans hfile⟩

/-! ## What is read -/

section Platform
variable (P : Platform)

/-- A regular file at the top with the suffix of the secrets. -/
def isSecretFile (entry : JsString × FsNode) : Bool := entry.2.isFile && endsWith entry.1 (js ".json")

def IsReadFrom (entry : JsString × FsNode) (secret : SecretContent) : Prop :=
  ∃ raw, entry = (fileName secret.name, .file raw) ∧ Secret.parseFileContent P raw = .ok secret.data

/-- The secrets are those of the secret files, one for each, and there are some when the tree has any file. -/
structure ReadAsOwn (children : List (JsString × FsTree)) (listing : List (JsString × FsNode))
    (secrets : List SecretContent) : Prop where
  files : List.Forall₂ (IsReadFrom P) (listing.filter isSecretFile) secrets
  found : (∃ child ∈ children, child.2.HasFile) → secrets ≠ []

variable {P} {children : List (JsString × FsTree)} {listing : List (JsString × FsNode)} {secrets : List SecretContent}

theorem readSnapshotEntry_none {entry : JsString × FsNode} (h : isSecretFile entry = false) :
    readSnapshotEntry P entry = .ok none := by
  obtain ⟨name, node⟩ := entry
  cases node with
  | file raw =>
      have hends : endsWith name (js ".json") = false := h
      exact if_pos hends
  | directory | symbolicLink => rfl

/-- One secret for each secret file. -/
theorem forall₂_readSnapshotSecrets (h : readSnapshotSecrets P listing = .ok secrets) :
    List.Forall₂ (IsReadFrom P) (listing.filter isSecretFile) secrets := by
  obtain ⟨hentries, rfl, -⟩ := readSnapshotSecrets_ok h
  clear h
  induction listing with
  | nil => exact .nil
  | cons entry listing ih =>
      obtain ⟨⟨s, hs⟩, hentries⟩ := List.forall_mem_cons.mp hentries
      rw [List.filterMap_cons, hs]
      cases hfile : isSecretFile entry with
      | false =>
          rw [readSnapshotEntry_none hfile] at hs
          cases hs
          rw [List.filter_cons_of_neg (by rw [hfile]; decide)]
          exact ih hentries
      | true =>
          rw [List.filter_cons_of_pos hfile]
          obtain ⟨hisFile, hends⟩ := Bool.and_eq_true_iff.mp hfile
          cases s with
          | none => exact absurd hs (readSnapshotEntry_ne_none hisFile hends)
          | some s =>
              obtain ⟨raw, hentry, -, hdata⟩ := readSnapshotEntry_some hs
              exact .cons ⟨raw, hentry, hdata⟩ (ih hentries)

/-- Without a file at the top a snapshot is read as empty. -/
theorem readSnapshotSecrets_nil (h : listing.any (fun entry => entry.2.isFile) = false) :
    readSnapshotSecrets P listing = .ok [] := by
  have hnone : ∀ entry ∈ listing, readSnapshotEntry P entry = .ok none := fun entry hentry => by
    have hfile := Bool.eq_false_of_not_eq_true (List.any_eq_false.mp h entry hentry)
    refine readSnapshotEntry_none ?_
    rw [isSecretFile, hfile]
    rfl
  rw [readSnapshotSecrets, foldlM_readSnapshotEntry fun entry hentry => ⟨none, hnone entry hentry⟩, List.nil_append]
  have hsecrets : (listing.filterMap fun entry => (readSnapshotEntry P entry).toOption.join) = [] :=
    List.filterMap_eq_nil_iff.mpr fun entry hentry => by rw [hnone entry hentry]; rfl
  rw [hsecrets]
  refine if_neg ?_
  rintro ⟨-, hany⟩
  rw [h] at hany
  cases hany

/-- A tree with a file is not read as empty exactly when one of its files is at the top. -/
theorem readAsOwn_iff (h : listing.Perm (listed children)) :
    (∀ secrets, readSnapshotSecrets P listing = .ok secrets → ReadAsOwn P children listing secrets) ↔
      ((∃ child ∈ children, child.2.HasFile) → ∃ child ∈ children, child.2.isFile = true) := by
  rw [← any_isFile_listed h]
  constructor
  · intro hown hfile
    by_contra hany
    exact (hown [] (readSnapshotSecrets_nil (Bool.eq_false_of_not_eq_true hany))).found hfile rfl
  · intro hfile secrets hread
    refine ⟨forall₂_readSnapshotSecrets hread, fun hhas hnil => ?_⟩
    exact (readSnapshotSecrets_ok hread).2.2 ⟨hnil, hfile hhas⟩

end Platform

section Example

/-- The backup of a directory `data`, with a file inside. -/
def foreignTree : List (JsString × FsTree) := [(js "data", .directory [(js "api.json", .file (js "\x7b\x7d"))])]

theorem hasFile_foreignTree : ∃ child ∈ foreignTree, child.2.HasFile :=
  ⟨_, List.mem_singleton.mpr rfl, .inside (List.mem_singleton.mpr rfl) .file⟩

theorem readAsOwn_iff_foreign :
    (∀ secrets, readSnapshotSecrets runPlatform (listed foreignTree) = .ok secrets →
      ReadAsOwn runPlatform foreignTree (listed foreignTree) secrets) ↔
    ((∃ child ∈ foreignTree, child.2.HasFile) → ∃ child ∈ foreignTree, child.2.isFile = true) :=
  readAsOwn_iff (.refl _)

/-- The tree has a file, and is read as empty. -/
theorem not_readAsOwn : ¬ ∀ (P : Platform) (children : List (JsString × FsTree)) (listing : List (JsString × FsNode)),
    listing.Perm (listed children) → ∀ secrets, readSnapshotSecrets P listing = .ok secrets →
      ReadAsOwn P children listing secrets := by
  intro hall
  have hread : readSnapshotSecrets runPlatform (listed foreignTree) = .ok [] := readSnapshotSecrets_nil rfl
  exact (hall runPlatform foreignTree _ (.refl _) [] hread).found hasFile_foreignTree rfl

/-- The directory into which such a snapshot is restored. -/
def foreignDir : Dir where
  entries := listed foreignTree
  distinct := by decide

def pullForeign : Operation := .pull (js "p") (some (.str (js "s1"))) none

/-- A pull of such a snapshot succeeds and leaves no secret. -/
theorem pull_foreign : ∃ cfg th, (server runPlatform exampleTimeouts Snapshots.restic fun _ => True).Reachable
      (.initial firstDb [(js "s1", foreignDir)]) cfg ∧
    cfg.threads[0]? = some th ∧ th.req = pullForeign ∧
      th.prog.result? = some (.ok ⟨200, .restored ⟨js "s1", Snapshots.snapshotTime, 0, 0⟩⟩) ∧ cfg.world.db.secrets = [] := by
  have hends : (playExample (.spawn pullForeign :: steps 0 15) (.initial firstDb [(js "s1", foreignDir)])).map
      (fun cfg => (ends cfg, cfg.world.db.secrets)) =
      some ([(pullForeign, some (.ok ⟨200, .restored ⟨js "s1", Snapshots.snapshotTime, 0, 0⟩⟩))], []) := rfl
  obtain ⟨cfg, hplay, hends⟩ := Option.map_eq_some_iff.mp hends
  obtain ⟨hends, hsecrets⟩ := Prod.mk.inj hends
  obtain ⟨th, hth, hop, hresult⟩ := thread_of_ends hends (t := 0) rfl
  exact ⟨cfg, th, playExample_reachable (fun _ _ => trivial) hplay, hth, hop, hresult, hsecrets⟩

end Example

end SecretsManager
