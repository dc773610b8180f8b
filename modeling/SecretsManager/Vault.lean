import Mathlib.Data.Set.Function
import SecretsManager.Js.Text

/-!
# The vault

What the server is for, without its tables, hashes, locks and lists: projects, each with the snapshot that
it was last synchronized with, and secrets with their names, values and versions. A vault is well formed as it
is: an id and a name have one project or secret, and each secret has its project.
-/

namespace SecretsManager

open Js

/-- A project with the snapshot that it was last synchronized with, which is empty before the first one. -/
structure ProjectEntry where
  id : JsString
  name : JsString
  snapshotId : JsString

/-- A secret as its users see it. -/
structure Entry where
  projectId : JsString
  id : JsString
  name : JsString
  values : JsString → Option JsString
  version : Nat

/-- The projects and the secrets. -/
@[ext]
structure Vault where
  projects : Set ProjectEntry
  entries : Set Entry
  uniqueProjects : Set.InjOn ProjectEntry.id projects
  uniqueProjectNames : Set.InjOn ProjectEntry.name projects
  uniqueIds : Set.InjOn Entry.id entries
  uniqueNames : Set.InjOn (fun e : Entry => (e.projectId, e.name)) entries
  owned : ∀ e ∈ entries, ∃ p ∈ projects, p.id = e.projectId

namespace Vault

inductive Action where
  | addProject (project : ProjectEntry)
  | removeProject (projectId : JsString)
  | add (entry : Entry)
  | change (projectId id : JsString) (version : Nat) (name : Option JsString)
      (values : Option (JsString → Option JsString))
  | setKey (projectId id key value : JsString)
  | remove (projectId id : JsString)
  | load (projectId snapshotId : JsString) (loaded : Set Entry)
  | mark (projectId snapshotId : JsString)

/-- The projects after one of them was synchronized. -/
def marked (projects : Set ProjectEntry) (projectId snapshotId : JsString) : Set ProjectEntry :=
  (fun p => if p.id = projectId then { p with snapshotId := snapshotId } else p) '' projects

/-- The secrets after one of them was replaced by its next version. -/
def revised (entries : Set Entry) (e : Entry) (name : JsString) (values : JsString → Option JsString) : Set Entry :=
  insert { e with name := name, values := values, version := e.version + 1 } (entries \ {e})

/-- What an action does. A change names the version that it goes by, and leaves what it does not give. -/
def Step (action : Action) (v v' : Vault) : Prop :=
  match action with
  | .addProject project => (∀ p ∈ v.projects, p.id ≠ project.id ∧ p.name ≠ project.name) ∧
      v'.projects = insert project v.projects ∧ v'.entries = v.entries
  | .removeProject projectId => v'.projects = {p ∈ v.projects | p.id ≠ projectId} ∧
      v'.entries = {e ∈ v.entries | e.projectId ≠ projectId}
  | .add entry => (∀ e ∈ v.entries, e.id ≠ entry.id) ∧ entry.version = 1 ∧ v'.projects = v.projects ∧
      v'.entries = insert entry v.entries
  | .change projectId id version name values => ∃ e ∈ v.entries, e.projectId = projectId ∧ e.id = id ∧
      e.version = version ∧ v'.projects = v.projects ∧
      v'.entries = revised v.entries e (name.getD e.name) (values.getD e.values)
  | .setKey projectId id key value => ∃ e ∈ v.entries, e.projectId = projectId ∧ e.id = id ∧
      v'.projects = v.projects ∧ v'.entries = revised v.entries e e.name (Function.update e.values key (some value))
  | .remove projectId id => ∃ e ∈ v.entries, e.projectId = projectId ∧ e.id = id ∧ v'.projects = v.projects ∧
      v'.entries = v.entries \ {e}
  | .load projectId snapshotId loaded => (∃ p ∈ v.projects, p.id = projectId) ∧
      (∀ e ∈ loaded, e.projectId = projectId ∧ e.version = 1 ∧ ∀ x ∈ v.entries, x.id ≠ e.id) ∧
      v'.projects = marked v.projects projectId snapshotId ∧
      v'.entries = {e ∈ v.entries | e.projectId ≠ projectId} ∪ loaded
  | .mark projectId snapshotId => v'.projects = marked v.projects projectId snapshotId ∧ v'.entries = v.entries

end Vault

end SecretsManager
