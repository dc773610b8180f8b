import SecretsManager.Model.Secret

/-!
# Projects

A project row: the settings of its restic repository, which never change after the creation, and the
state of the last synchronization with the two content hashes, which the other operations maintain.
-/

namespace SecretsManager

open Js

structure Project where
  id : JsString
  name : JsString
  description : JsString
  s3Endpoint : JsString
  s3Bucket : JsString
  repoPrefix : JsString
  s3Region : JsString
  s3BucketLookup : JsString
  s3AccessKeyId : JsString
  s3SecretAccessKey : JsString
  resticPassword : JsString
  dateCreated : JsString
  lastSyncSnapshotId : JsString
  lastSyncSnapshotTime : JsString
  lastSyncContentHash : JsString
  currentContentHash : JsString
  deriving DecidableEq

/-- The body of a creation request; a field is `none` when it is missing. A field that is not checked to be a string
and is none is taken as missing, except for the prefix: a project cannot read its target then. -/
structure ProjectBody where
  id : Option JsValue
  dateCreated : Option JsValue
  name : Option JsValue
  description : Option JsValue
  s3Endpoint : Option JsValue
  s3Bucket : Option JsValue
  repoPrefix : Option JsValue
  s3Region : Option JsValue
  s3BucketLookup : Option JsValue
  s3AccessKeyId : Option JsValue
  s3SecretAccessKey : Option JsValue
  resticPassword : Option JsValue
  deriving DecidableEq

namespace Project

/-- The value of a field that a check has found to be a string. -/
def stringField : Option JsValue → JsString
  | some (.str s) => s
  | _ => []

/-- `(v as string) || d` -/
def stringOr (v : Option JsValue) (d : JsString) : JsString :=
  if stringField v = [] then d else stringField v

def isNonEmptyString : Option JsValue → Bool
  | some (.str s) => trim s ≠ []
  | _ => false

/-- `s.replace(/c+$/, "")` -/
def dropTrailing (c : CodeUnit) (s : JsString) : JsString := (s.reverse.dropWhile (· = c)).reverse

/-- `s.replace(/^c+|c+$/g, "")` -/
def trimUnit (c : CodeUnit) (s : JsString) : JsString := dropTrailing c (s.dropWhile (· = c))

def trimSlashes (value : JsString) : JsString := trimUnit (unit '/') (trim value)

/-- `value.replace(/^https?:\/\//, "")` -/
def dropScheme (value : JsString) : JsString :=
  if startsWith value (js "https://") then value.drop 8
  else if startsWith value (js "http://") then value.drop 7
  else value

section Platform
variable (P : Platform)

def normalizeEndpoint (value : JsString) : JsString :=
  dropTrailing (unit '/') (dropScheme (P.toLowerCase (trim value)))

/-- `s.replace(/[^a-z0-9]+/g, "-")`; the flag says that the run before `s` is already written. -/
def dashRuns : Bool → JsString → JsString
  | _, [] => []
  | inRun, c :: s =>
      if (0x61 ≤ c.val && c.val ≤ 0x7a) || (0x30 ≤ c.val && c.val ≤ 0x39) then c :: dashRuns false s
      else if inRun then dashRuns true s
      else unit '-' :: dashRuns true s

def slugify (name : JsString) : JsString :=
  trimUnit (unit '-') (dashRuns false (trim (P.toLowerCase name)))

def effectiveRepoPrefix (project : Project) : JsString :=
  if trim project.repoPrefix ≠ [] then trim project.repoPrefix else slugify P project.name

def repositoryUrl (project : Project) : JsString :=
  js "s3:https://" ++ project.s3Endpoint ++ js "/" ++ project.s3Bucket ++ js "/" ++
    effectiveRepoPrefix P project

/-- `repoTargetKey()`: the normalized endpoint, bucket and prefix, which two projects never share. -/
def repoTargetKey (project : Project) : JsString :=
  normalizeEndpoint P project.s3Endpoint ++ js "\n" ++ P.toLowerCase (trim project.s3Bucket) ++
    js "\n" ++ trimSlashes (effectiveRepoPrefix P project)

def validateNew (body : ProjectBody) : List JsString :=
  let required := fun (field : Option JsValue) (message : String) =>
    if isNonEmptyString field then [] else [js message]
  (if isNonEmptyString body.name = false then [js "Invalid project: name is required"]
    else if 100 < (stringField body.name).length then
      [js "Invalid project: name must be 100 characters or less"]
    else []) ++
  required body.s3Endpoint "Invalid project: s3Endpoint is required" ++
  required body.s3Bucket "Invalid project: s3Bucket is required" ++
  required body.s3AccessKeyId "Invalid project: s3AccessKeyId is required" ++
  required body.s3SecretAccessKey "Invalid project: s3SecretAccessKey is required" ++
  required body.resticPassword "Invalid project: resticPassword is required" ++
  (if isNonEmptyString body.name then
    let given := stringField body.repoPrefix
    let candidate := if trim given ≠ [] then trim given else slugify P (stringField body.name)
    if trimSlashes candidate = [] then
      [js "Invalid project: repository prefix is required (the name produces an empty default prefix)"]
    else []
  else [])

end Platform

/-- `Project.fromJson(body)`, with the id and date of the constructor. A request body holds no
synchronization state that the insertion would store. -/
def fromJson (body : ProjectBody) (newId now : JsString) : Project where
  id := stringOr body.id newId
  name := stringField body.name
  description := stringOr body.description []
  s3Endpoint := stringField body.s3Endpoint
  s3Bucket := stringField body.s3Bucket
  repoPrefix := stringOr body.repoPrefix []
  s3Region := stringOr body.s3Region []
  s3BucketLookup := stringOr body.s3BucketLookup (js "dns")
  s3AccessKeyId := stringField body.s3AccessKeyId
  s3SecretAccessKey := stringField body.s3SecretAccessKey
  resticPassword := stringField body.resticPassword
  dateCreated := stringOr body.dateCreated now
  lastSyncSnapshotId := []
  lastSyncSnapshotTime := []
  lastSyncContentHash := []
  currentContentHash := []

end Project

end SecretsManager
