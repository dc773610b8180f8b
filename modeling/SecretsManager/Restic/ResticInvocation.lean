import SecretsManager.LockDiscipline
import SecretsManager.Restic.SnapshotOrder
import SecretsManager.Runs

/-!
# Invocations of restic

A restic process gets its credentials in its environment and all else in its arguments. Of the environment of the
server it inherits an allowlist only. An argument of restic that begins with a dash is an option: no request can
make one, because the id of a snapshot in an argument is always one that restic itself has reported before, and
every other text that a user has chosen stands behind a fixed beginning.
-/

namespace SecretsManager

open Js JsObject Interleaving

/-! ## The environment -/

/-- `RESTIC_ENV_ALLOWLIST` -/
def resticEnvAllowlist : List JsString :=
  [js "PATH", js "HOME", js "TMPDIR", js "TMP", js "TEMP", js "HTTP_PROXY", js "HTTPS_PROXY", js "NO_PROXY",
    js "http_proxy", js "https_proxy", js "no_proxy", js "SSL_CERT_FILE", js "SSL_CERT_DIR"]

def defaultPath : JsString := js "/usr/local/sbin:/usr/local/bin:/usr/sbin:/usr/bin:/sbin:/bin"

/-- A variable that a restic process may inherit. -/
def isInherited (key : JsString) : Bool :=
  key ∈ resticEnvAllowlist || startsWith key (js "AWS_") || startsWith key (js "RESTIC_")

/-- `if (!env[key]) env[key] = value` -/
def setDefault (env : JsObject JsString) (key value : JsString) : JsObject JsString :=
  if (env.get? key).getD [] = [] then env.set key value else env

/-- The variables of the loop over the environment of the server. -/
def inheritEnv (source : JsObject (Option JsString)) : JsObject JsString :=
  source.entries.foldl
    (fun env p =>
      match p.2 with
      | none => env
      | some value => if isInherited p.1 then env.set p.1 value else env)
    .empty

section Platform
variable (P : Platform)

/-- The variables that a project sets. -/
def projectVariables (project : Project) : List (JsString × JsString) :=
  [(js "AWS_ACCESS_KEY_ID", project.s3AccessKeyId), (js "AWS_SECRET_ACCESS_KEY", project.s3SecretAccessKey),
    (js "RESTIC_PASSWORD", project.resticPassword), (js "RESTIC_REPOSITORY", project.repositoryUrl P)]

/-- `tmpdir` is `os.tmpdir()`; a variable of the server that is `undefined` has the value `none`. -/
def buildResticEnv (tmpdir : JsString) (project : Project) (source : JsObject (Option JsString)) : JsObject JsString :=
  let env := inheritEnv source
  let env := setDefault env (js "PATH") defaultPath
  let env := setDefault env (js "HOME") tmpdir
  (projectVariables P project).foldl (fun env p => env.set p.1 p.2) env

/-! ## The arguments -/

/-- Restic tags cannot contain commas, white space or control characters. -/
def isTagSeparator (c : CodeUnit) : Bool := isWhiteSpace c || c = unit ',' || c.val ≤ 0x1f || c.val = 0x7f

/-- `s.replace(TAG_SEPARATOR_PATTERN, "-")`; the flag says that the run before `s` is already written. -/
def dashSeparators : Bool → JsString → JsString
  | _, [] => []
  | inRun, c :: s =>
      if isTagSeparator c then
        if inRun then dashSeparators true s else unit '-' :: dashSeparators true s
      else c :: dashSeparators false s

def sanitizePusherTag (pushedBy : Option JsString) : JsString :=
  Project.trimUnit (unit '-')
    ((Project.trimUnit (unit '-') (dashSeparators false (pushedBy.getD []))).take 100)

/-- A region of white space only is left out. -/
def ResticClient.baseArgs (client : ResticClient) : List JsString :=
  let lookup := if client.project.s3BucketLookup = [] then js "dns" else client.project.s3BucketLookup
  [js "-r", client.project.repositoryUrl P, js "-o", js "s3.bucket-lookup=" ++ lookup] ++
    if 0 < (trim client.project.s3Region).length then
      [js "-o", js "s3.region=" ++ trim client.project.s3Region]
    else []

def pushedByPrefix : JsString := js "pushed-by:"

/-- The arguments of a run; `target` is the directory of a restore. -/
def ResticClient.args (client : ResticClient) (target : JsString) : ResticOp → List JsString
  | .repositoryCheck | .snapshots => client.baseArgs P ++ [js "snapshots", js "--json"]
  | .init => client.baseArgs P ++ [js "init"]
  | .snapshot id => client.baseArgs P ++ [js "snapshots", id, js "--json"]
  | .backup _ pushedBy =>
      let pusherTag := sanitizePusherTag pushedBy
      client.baseArgs P ++
        [js "backup", js "--group-by", js "paths", js "--tag", js "restic-secrets-manager"] ++
        (if pusherTag = [] then [] else [js "--tag", pushedByPrefix ++ pusherTag]) ++ [js "--json", js "."]
  | .restore snapshotId => client.baseArgs P ++ [js "restore", snapshotId, js "--target", target]

/-- What the runner is given for a run. -/
structure ResticProcess where
  args : List JsString
  env : JsObject JsString

def ResticClient.process (client : ResticClient) (source : JsObject (Option JsString)) (tmpdir target : JsString)
    (op : ResticOp) : ResticProcess :=
  ⟨client.args P target op, buildResticEnv P tmpdir client.project source⟩

end Platform

/-! ## Variables -/

section Env
variable {P : Platform} {env : JsObject JsString} {source : JsObject (Option JsString)} {tmpdir : JsString}
  {project : Project}

theorem ne_protoKey_of_isInherited {key : JsString} (h : isInherited key = true) : key ≠ protoKey := by
  rintro rfl
  revert h
  decide

theorem get?_set_of_isInherited {key : JsString} (h : isInherited key = true) (value key' : JsString) :
    (env.set key value).get? key' = if key' = key then some value else env.get? key' := by
  rw [set_of_ne (ne_protoKey_of_isInherited h), get?_define]

/-- The process inherits exactly the allowed variables of the server. -/
theorem get?_inheritEnv (key : JsString) :
    (inheritEnv source).get? key = if isInherited key then (source.get? key).join else none := by
  have hloop : ∀ (l : List (JsString × Option JsString)) (env : JsObject JsString), SortedBy.Distinct Prod.fst l →
      (l.foldl
        (fun env p =>
          match p.2 with
          | none => env
          | some value => if isInherited p.1 then env.set p.1 value else env)
        env).get? key =
      if isInherited key then ((l.find? fun p => p.1 = key).bind Prod.snd).or (env.get? key) else env.get? key := by
    intro l
    induction l with
    | nil => intro env _; simp
    | cons p l ih =>
        intro env hdistinct
        obtain ⟨name, value⟩ := p
        obtain ⟨hfresh, hrest⟩ := SortedBy.distinct_cons.mp hdistinct
        rw [List.foldl_cons, ih _ hrest]
        by_cases hname : name = key
        · -- no later entry has the name
          subst hname
          have hlater : l.find? (fun p => p.1 = name) = none :=
            List.find?_eq_none.mpr fun q hq => by simpa using hfresh q hq
          cases value with
          | none => simp [hlater]
          | some value => cases hinherited : isInherited name <;> simp [hlater, hinherited, get?_set_of_isInherited]
        · have hfind : ((name, value) :: l).find? (fun p => p.1 = key) = l.find? fun p => p.1 = key :=
            List.find?_cons_of_neg (by simpa using hname)
          rw [hfind]
          cases value with
          | none => rfl
          | some value =>
              cases hinherited : isInherited name with
              | false => rfl
              | true =>
                  dsimp only
                  rw [if_pos rfl, get?_set_of_isInherited hinherited, if_neg (Ne.symm hname)]
  rw [inheritEnv, hloop _ _ source.distinct, get?_empty, Option.or_none]
  congr 1
  rw [get?]
  cases source.entries.find? fun p => p.1 = key <;> rfl

theorem get?_setDefault {key : JsString} (h : isInherited key = true) (value key' : JsString) :
    (setDefault env key value).get? key' =
      if key' = key ∧ (env.get? key).getD [] = [] then some value else env.get? key' := by
  unfold setDefault
  by_cases hmissing : (env.get? key).getD [] = []
  · rw [if_pos hmissing, get?_set_of_isInherited h]
    simp only [hmissing, and_true]
  · simp only [hmissing, and_false, if_false]

theorem setDefault_origin {key key' value value' : JsString} (h : isInherited key = true)
    (hget : (setDefault env key value).get? key' = some value') :
    (key', value') = (key, value) ∨ env.get? key' = some value' := by
  rw [get?_setDefault h] at hget
  split_ifs at hget with hdefault
  · rw [hdefault.1, ← Option.some.inj hget]
    exact Or.inl rfl
  · exact Or.inr hget

/-- The variables of a list of assignments are those assigned last. -/
theorem get?_foldl_set {l : List (JsString × JsString)} (hdistinct : SortedBy.Distinct Prod.fst l)
    (hl : ∀ p ∈ l, isInherited p.1 = true) (env : JsObject JsString) (key : JsString) :
    (l.foldl (fun env p => env.set p.1 p.2) env).get? key =
      ((l.find? fun p => p.1 = key).map Prod.snd).or (env.get? key) := by
  induction l generalizing env with
  | nil => rfl
  | cons p l ih =>
      obtain ⟨name, value⟩ := p
      obtain ⟨hfresh, hrest⟩ := SortedBy.distinct_cons.mp hdistinct
      have hname := hl _ (List.mem_cons_self ..)
      rw [List.foldl_cons, ih hrest fun q hq => hl q (List.mem_cons_of_mem _ hq), get?_set_of_isInherited hname]
      by_cases hkey : name = key
      · subst hkey
        have hlater : l.find? (fun p => p.1 = name) = none :=
          List.find?_eq_none.mpr fun q hq => by simpa using hfresh q hq
        simp [hlater]
      · rw [if_neg (Ne.symm hkey), List.find?_cons_of_neg (by simpa using hkey)]

theorem distinct_projectVariables : SortedBy.Distinct Prod.fst (projectVariables P project) := by
  show ([js "AWS_ACCESS_KEY_ID", js "AWS_SECRET_ACCESS_KEY", js "RESTIC_PASSWORD", js "RESTIC_REPOSITORY"]).Nodup
  decide

theorem isInherited_projectVariables {p : JsString × JsString} (h : p ∈ projectVariables P project) :
    isInherited p.1 = true := by
  have hkey : p.1 ∈ (projectVariables P project).map Prod.fst := List.mem_map_of_mem h
  revert hkey
  generalize p.1 = key
  show key ∈ [js "AWS_ACCESS_KEY_ID", js "AWS_SECRET_ACCESS_KEY", js "RESTIC_PASSWORD", js "RESTIC_REPOSITORY"] → _
  revert key
  decide

theorem get?_buildResticEnv (key : JsString) :
    (buildResticEnv P tmpdir project source).get? key =
      (((projectVariables P project).find? fun p => p.1 = key).map Prod.snd).or
        ((setDefault (setDefault (inheritEnv source) (js "PATH") defaultPath) (js "HOME") tmpdir).get? key) := by
  unfold buildResticEnv
  exact get?_foldl_set distinct_projectVariables (fun _ h => isInherited_projectVariables h) _ key

theorem get?_projectVariable {p : JsString × JsString} (hp : p ∈ projectVariables P project) :
    (buildResticEnv P tmpdir project source).get? p.1 = some p.2 := by
  have hfind : (projectVariables P project).find? (fun q => q.1 = p.1) = some p := by
    cases hfound : (projectVariables P project).find? fun q => q.1 = p.1 with
    | none => exact absurd (decide_eq_true rfl) (List.find?_eq_none.mp hfound p hp)
    | some q =>
        have hq : q.1 = p.1 := by simpa using List.find?_some hfound
        rw [distinct_projectVariables.inj (List.mem_of_find?_eq_some hfound) hp hq]
  rw [get?_buildResticEnv, hfind]
  rfl

/-- The project's own variables come first, then the allowed ones of the server, and last the two defaults. -/
theorem buildResticEnv_origin {key value : JsString} (h : (buildResticEnv P tmpdir project source).get? key = some value) :
    (key, value) ∈ projectVariables P project ∨ key ∉ (projectVariables P project).map Prod.fst ∧
      (isInherited key = true ∧ source.get? key = some (some value) ∨
        (key, value) ∈ [(js "PATH", defaultPath), (js "HOME", tmpdir)]) := by
  rw [get?_buildResticEnv] at h
  cases hfind : (projectVariables P project).find? fun p => p.1 = key with
  | some p =>
      rw [hfind] at h
      obtain rfl : p.2 = value := Option.some.inj h
      have hkey : p.1 = key := by simpa using List.find?_some hfind
      exact Or.inl (hkey ▸ List.mem_of_find?_eq_some hfind)
  | none =>
      rw [hfind, Option.map_none, Option.none_or] at h
      refine Or.inr ⟨fun hkey => ?_, ?_⟩
      · obtain ⟨p, hp, hpkey⟩ := List.mem_map.mp hkey
        exact List.find?_eq_none.mp hfind p hp (decide_eq_true hpkey)
      · rcases setDefault_origin (by decide) h with hhome | h
        · exact Or.inr (List.mem_cons_of_mem _ (List.mem_singleton.mpr hhome))
        rcases setDefault_origin (by decide) h with hpath | h
        · exact Or.inr (hpath ▸ List.mem_cons_self ..)
        rw [get?_inheritEnv] at h
        split_ifs at h with hinherited
        exact Or.inl ⟨hinherited, Option.join_eq_some_iff.mp h⟩

/-- Servers that agree on the allowed variables start the same processes. -/
theorem buildResticEnv_congr {source' : JsObject (Option JsString)}
    (h : ∀ key, isInherited key = true → (source.get? key).join = (source'.get? key).join) (key : JsString) :
    (buildResticEnv P tmpdir project source).get? key = (buildResticEnv P tmpdir project source').get? key := by
  have hsame : ∀ key, (inheritEnv source).get? key = (inheritEnv source').get? key := by
    intro key
    rw [get?_inheritEnv, get?_inheritEnv]
    split_ifs with hinherited
    · exact h key hinherited
    · rfl
  have hhome : isInherited (js "HOME") = true := by decide
  have hpath : isInherited (js "PATH") = true := by decide
  simp only [get?_buildResticEnv, get?_setDefault hhome, get?_setDefault hpath, hsame]

end Env

/-! ## Dashes -/

/-- The options of the arguments. -/
def resticOptions : List JsString :=
  [js "-r", js "-o", js "--json", js "--group-by", js "--tag", js "--target"]

def ResticOp.snapshotId? : ResticOp → Option JsString
  | .snapshot id | .restore id => some id
  | _ => none

section Args
variable {P : Platform} {client : ResticClient} {target arg : JsString}

/-- A text with a fixed beginning is no option. -/
theorem not_dash_append {word more : JsString} (hword : (word.head?).any (fun c => c ≠ unit '-') = true) :
    ¬ startsWith (word ++ more) (js "-") = true := by
  cases word with
  | nil => cases hword
  | cons c word =>
      have hc : c ≠ unit '-' := by simpa using hword
      rw [startsWith_iff]
      intro hprefix
      exact hc (List.cons_prefix_cons.mp hprefix).1.symm

theorem dash_baseArgs (h : arg ∈ client.baseArgs P) (hdash : startsWith arg (js "-") = true) :
    arg ∈ [js "-r", js "-o"] := by
  rw [ResticClient.baseArgs, List.mem_append] at h
  rcases h with h | h
  · simp only [List.mem_cons, List.not_mem_nil, or_false] at h
    rcases h with rfl | rfl | rfl | rfl
    · decide
    · rw [Project.repositoryUrl, List.append_assoc, List.append_assoc, List.append_assoc, List.append_assoc] at hdash
      exact absurd hdash (not_dash_append (by decide))
    · decide
    · exact absurd hdash (not_dash_append (by decide))
  · split_ifs at h
    · simp only [List.mem_cons, List.not_mem_nil, or_false] at h
      rcases h with rfl | rfl
      · decide
      · exact absurd hdash (not_dash_append (by decide))
    · cases h

/-- Beside the options only the target and the id of a snapshot can begin with a dash. -/
theorem dash_args {op : ResticOp} (h : arg ∈ client.args P target op) (hdash : startsWith arg (js "-") = true) :
    arg ∈ resticOptions ∨ arg = target ∨ op.snapshotId? = some arg := by
  have hbase : arg ∈ client.baseArgs P → arg ∈ resticOptions := fun hmem =>
    (by decide : ∀ option ∈ [js "-r", js "-o"], option ∈ resticOptions) arg (dash_baseArgs hmem hdash)
  have hword : ∀ words : List JsString, (∀ word ∈ words, startsWith word (js "-") = true → word ∈ resticOptions) →
      arg ∈ client.baseArgs P ++ words → arg ∈ resticOptions := by
    intro words hwords hmem
    rcases List.mem_append.mp hmem with hmem | hmem
    · exact hbase hmem
    · exact hwords arg hmem hdash
  cases op with
  | repositoryCheck => exact Or.inl (hword _ (by decide) h)
  | snapshots => exact Or.inl (hword _ (by decide) h)
  | init => exact Or.inl (hword _ (by decide) h)
  | snapshot id =>
      rcases List.mem_append.mp h with h | h
      · exact Or.inl (hbase h)
      · simp only [List.mem_cons, List.not_mem_nil, or_false] at h
        rcases h with rfl | rfl | rfl
        · exact absurd hdash (by decide)
        · exact Or.inr (Or.inr rfl)
        · exact Or.inl (by decide)
  | restore id =>
      rcases List.mem_append.mp h with h | h
      · exact Or.inl (hbase h)
      · simp only [List.mem_cons, List.not_mem_nil, or_false] at h
        rcases h with rfl | rfl | rfl | rfl
        · exact absurd hdash (by decide)
        · exact Or.inr (Or.inr rfl)
        · exact Or.inl (by decide)
        · exact Or.inr (Or.inl rfl)
  | backup dir pushedBy =>
      have hcommand : ∀ word ∈ [js "backup", js "--group-by", js "paths", js "--tag", js "restic-secrets-manager"],
          startsWith word (js "-") = true → word ∈ resticOptions := by decide
      have hlast : ∀ word ∈ [js "--json", js "."], startsWith word (js "-") = true → word ∈ resticOptions := by decide
      rw [ResticClient.args, List.append_assoc, List.append_assoc] at h
      refine Or.inl (hword _ (fun word hmem => ?_) h)
      rcases List.mem_append.mp hmem with hmem | hmem
      · exact hcommand word hmem
      rcases List.mem_append.mp hmem with hmem | hmem
      · split_ifs at hmem
        · cases hmem
        · simp only [List.mem_cons, List.not_mem_nil, or_false] at hmem
          rcases hmem with rfl | rfl
          · exact fun _ => by decide
          · exact fun hdash => absurd hdash (not_dash_append (by decide))
      · exact hlast word hmem

end Args

/-! ## Reported ids -/

section Platform
variable (P : Platform)

/-- The ids of snapshots that the answer of a run has. -/
def ResticAnswer.ids (answer : ResticAnswer) : ResticOp → List JsString
  | .backup _ _ => (parseBackupSnapshotId P answer.result.stdout).toList
  | _ => ((parseSnapshotsOutput P answer.result.stdout).toOption.getD []).map ResticSnapshot.id

/-- The ids that a command has learnt from restic. -/
def reportedIds : (c : Cmd) → c.Answer → List JsString
  | .restic _ op, answer => answer.ids P op
  | _, _ => []

/-- A run of restic for one snapshot has its id from restic. -/
def KnownId (ids : List JsString) : Cmd → Prop
  | .restic _ op => ∀ id ∈ op.snapshotId?, id ∈ ids
  | _ => True

/-- Follows the ids that an operation has learnt. -/
def learning : Monitor Cmd Cmd.Answer (List JsString) where
  step ids c a := ids ++ reportedIds P c a
  allows := KnownId
  expects _ _ _ := True

/-- Whoever knows these ids has all that the task needs. -/
def Informed {α : Type} (known : List JsString) (task : Op α) : Prop :=
  ∀ ids, known ⊆ ids → task.Meets (learning P) ids fun _ ids' => ids ⊆ ids'

end Platform

section Informed
variable {α β : Type} {P : Platform} {timeouts : ResticTimeouts} {known : List JsString} {task : Op α} {f : α → Op β}
  {client : ResticClient}

theorem Informed.mono (h : Informed P known task) {known' : List JsString} (hsub : known ⊆ known') :
    Informed P known' task := fun ids hids => h ids (List.Subset.trans hsub hids)

/-- The command is no run for a single snapshot. -/
def Cmd.Unaimed : Cmd → Prop
  | .restic _ op => op.snapshotId? = none
  | _ => True

theorem unaimed_of_database {c : Cmd} (hc : c.Database) : c.Unaimed := by
  cases c with
  | restic projectId op => exact hc.elim
  | _ => trivial

theorem knownId_of_unaimed {c : Cmd} (hc : c.Unaimed) (ids : List JsString) : KnownId ids c := by
  cases c with
  | restic projectId op =>
      intro id hid
      rw [show op.snapshotId? = none from hc] at hid
      cases hid
  | _ => trivial

theorem informed_unaimed (h : task.Only Cmd.Unaimed) : Informed P known task := by
  suffices hall : ∀ ids, task.Meets (learning P) ids fun _ ids' => ids ⊆ ids' from fun ids _ => hall ids
  induction task with
  | ret _ => exact fun ids => List.Subset.refl ids
  | fail _ => exact fun ids => List.Subset.refl ids
  | call c next ih =>
      refine fun ids => ⟨knownId_of_unaimed h.1 ids, fun a _ => (ih a (h.2 a) _).mono fun _ _ hsub => ?_⟩
      exact List.Subset.trans (List.subset_append_left _ _) hsub

theorem informed_database (h : task.Only Cmd.Database) : Informed P known task :=
  informed_unaimed (h.mono fun _ => unaimed_of_database)

theorem informed_pure {a : α} : Informed P known (pure a : Op α) := informed_database only_pure

theorem informed_fail {e : Failure} : Informed P known (.fail e : Op α) := informed_database only_fail

theorem Informed.bind (h : Informed P known task) (hf : ∀ a, Informed P known (f a)) :
    Informed P known (task >>= f) := by
  intro ids hids
  rw [meets_bind]
  refine (h ids hids).mono fun r ids' hsub => ?_
  cases r with
  | error e => exact hsub
  | ok a => exact (hf a ids' (List.Subset.trans hids hsub)).mono fun _ _ hsub' => List.Subset.trans hsub hsub'

theorem informed_ite {c : Prop} [Decidable c] {yes no : Op α} (hyes : Informed P known yes) (hno : Informed P known no) :
    Informed P known (if c then yes else no) := by
  split
  · exact hyes
  · exact hno

theorem Informed.tryCatch {handler : Failure → Op α} (h : Informed P known task)
    (hhandler : ∀ e, (handler e).Only Cmd.Database) : Informed P known (task.tryCatch handler) := by
  intro ids hids
  rw [meets_tryCatch]
  refine (h ids hids).mono fun r ids' hsub => ?_
  cases r with
  | ok a => exact hsub
  | error e =>
      exact (informed_database (hhandler e) ids' (List.Subset.trans hids hsub)).mono fun _ _ hsub' =>
        List.Subset.trans hsub hsub'

theorem informed_fs (op : FsOp) : Informed P known (Op.fs op) :=
  informed_unaimed (only_query trivial)

theorem Informed.withWorkDir (h : Informed P known task) : Informed P known (withWorkDir task) := by
  refine (informed_fs _).bind fun _ ids hids => ?_
  rw [meets_tryFinally]
  have hdir : Informed P known (Op.fs .ensurePrivateDir >>= fun _ => task) := (informed_fs _).bind fun _ => h
  refine (hdir ids hids).mono fun r ids' hsub => ?_
  refine (informed_fs .remove ids' (List.Subset.trans hids hsub)).mono fun removed ids'' hsub' => ?_
  cases removed with
  | error e => exact List.Subset.trans hsub hsub'
  | ok =>
      rw [then_ok, meets_ofExcept]
      exact List.Subset.trans hsub hsub'

theorem informed_withLock {name : JsString} (h : task.Only Cmd.Database) :
    Informed P known (dbUtilsWithLock name task) := by
  refine informed_unaimed (Prog.Only.bind (only_lift.mpr trivial) fun _ => only_ofExcept.bind fun _ => ?_)
  exact (h.mono fun _ => unaimed_of_database).tryFinally (only_lift.mpr trivial)

/-! ### Runs of restic -/

/-- A run whose id is known, and what follows it. -/
theorem informed_run {op : ResticOp} {f : ResticAnswer → Op α} (hid : ∀ id ∈ op.snapshotId?, id ∈ known)
    (hf : ∀ answer, Informed P (known ++ answer.ids P op) (f answer)) : Informed P known (client.run op >>= f) := by
  intro ids hids
  rw [meets_bind]
  refine meets_lift.mpr ⟨fun id h => hids (hid id h), fun answer _ => ?_⟩
  have hlearnt : known ++ answer.ids P op ⊆ ids ++ answer.ids P op :=
    List.append_subset.mpr
      ⟨List.Subset.trans hids (List.subset_append_left _ _), List.subset_append_right _ _⟩
  exact (hf answer _ hlearnt).mono fun _ _ hsub => List.Subset.trans (List.subset_append_left _ _) hsub

/-- A run whose answer is read before anything follows. -/
theorem informed_answer {γ : Type} {op : ResticOp} {g : ResticAnswer → Except Failure γ} {f : γ → Op α}
    (hid : ∀ id ∈ op.snapshotId?, id ∈ known)
    (hf : ∀ answer r, g answer = .ok r → Informed P (known ++ answer.ids P op) (f r)) :
    Informed P known ((client.run op >>= fun answer => Prog.ofExcept (g answer)) >>= f) := by
  intro ids hids
  rw [meets_bind, meets_bind]
  refine meets_lift.mpr ⟨fun id h => hids (hid id h), fun answer _ => ?_⟩
  have hgrown : ids ⊆ ids ++ answer.ids P op := List.subset_append_left _ _
  rw [then_ok, meets_ofExcept]
  cases hread : g answer with
  | error e => exact hgrown
  | ok r =>
      have hlearnt : known ++ answer.ids P op ⊆ ids ++ answer.ids P op :=
        List.append_subset.mpr ⟨List.Subset.trans hids hgrown, List.subset_append_right _ _⟩
      exact (hf answer r hread _ hlearnt).mono fun _ _ hsub => List.Subset.trans hgrown hsub

/-- After a listing the ids of its snapshots are known. -/
theorem informed_snapshots {f : List ResticSnapshot → Op α}
    (hf : ∀ snapshots, Informed P (known ++ snapshots.map ResticSnapshot.id) (f snapshots)) :
    Informed P known (client.snapshots P >>= f) := by
  refine informed_answer (fun _ h => by cases h) fun answer snapshots hread => ?_
  refine (hf snapshots).mono (List.append_subset.mpr ⟨List.subset_append_left _ _, ?_⟩)
  rcases snapshotsResult_ok hread with ⟨-, hparse⟩ | ⟨-, rfl⟩
  · have hids : answer.ids P .snapshots = snapshots.map ResticSnapshot.id :=
      congrArg (fun listing => (listing.toOption.getD []).map ResticSnapshot.id) hparse
    exact hids ▸ List.subset_append_right _ _
  · exact List.nil_subset _

/-- After a backup the id in its output is known. -/
theorem informed_backup {dir : Dir} {pushedBy : Option JsString} {f : Option JsString → Op α}
    (hf : ∀ createdId, Informed P (known ++ createdId.toList) (f createdId)) :
    Informed P known (client.backup P dir pushedBy >>= f) := by
  refine informed_answer (fun _ h => by cases h) fun answer createdId hread => ?_
  rw [ResticAnswer.ids, ← backupResult_ok hread]
  exact hf createdId

theorem informed_restore {id : JsString} (hid : id ∈ known) : Informed P known (client.restore id) := by
  refine informed_run (fun id' h => Option.some.inj h ▸ hid) fun answer => ?_
  exact informed_database (only_ofExcept.bind fun _ => only_pure)

theorem informed_lookupCreated {createdId : JsString} (hid : createdId ∈ known) (attempts : Nat) :
    Informed P known (lookupCreated P client createdId attempts) := by
  induction attempts with
  | zero => exact informed_pure
  | succ attempts ih =>
      refine informed_answer (fun id h => Option.some.inj h ▸ hid) fun answer found _ => ?_
      cases found with
      | none => exact ih.mono (List.subset_append_left _ _)
      | some created => exact informed_pure

theorem informed_onlyNewSnapshot {knownIds : List JsString} {snapshots : List ResticSnapshot} :
    Informed P known (onlyNewSnapshot knownIds snapshots) := by
  unfold onlyNewSnapshot
  split
  · exact informed_pure
  · exact informed_fail

theorem informed_resolveCreatedSnapshot {createdId : Option JsString} {knownIds : List JsString} :
    Informed P (known ++ createdId.toList) (resolveCreatedSnapshot P client createdId knownIds) := by
  unfold resolveCreatedSnapshot
  split
  · rename_i id hid
    have hknown : id ∈ known ++ createdId.toList :=
      List.mem_append_right _ (Option.mem_toList.mpr (Option.filter_eq_some_iff.mp hid).1)
    refine (informed_lookupCreated hknown _).bind fun found => ?_
    cases found with
    | some created => exact informed_pure
    | none =>
        refine informed_snapshots fun snapshots => ?_
        split
        · exact informed_pure
        · exact informed_onlyNewSnapshot
  · exact informed_snapshots fun snapshots => informed_onlyNewSnapshot

/-! ### The operations -/

theorem informed_restoreAndApply {expected : JsString} {snapshot : ResticSnapshot} (hid : snapshot.id ∈ known) :
    Informed P known (restoreAndApply P client expected snapshot) := by
  refine (informed_restore hid).bind fun listing => (informed_fs _).bind fun _ => ?_
  have hread : Informed P known (readSnapshotSecretsForProject P client.project listing) := by
    refine (informed_fs _).bind fun _ => ?_
    split
    · exact informed_fail
    · exact informed_database (database_secretsOfContents _)
  exact hread.bind fun secrets => (informed_withLock database_applySnapshotSection).bind fun _ => informed_pure

theorem informed_previewSnapshotContent {target : ResticSnapshot} (hid : target.id ∈ known) :
    Informed P known (previewSnapshotContent P client target) := by
  refine Informed.withWorkDir ((informed_restore hid).bind fun listing => (informed_fs _).bind fun _ =>
    (informed_fs _).bind fun _ => ?_)
  split
  · exact informed_fail
  · exact informed_database ((database_secretsList _).bind fun _ => only_pure)

/-- The latest snapshot of a listing is in it. -/
theorem id_latestSnapshot_mem {snapshots : List ResticSnapshot} {latest : ResticSnapshot}
    (h : latestSnapshot P snapshots = some latest) : latest.id ∈ known ++ snapshots.map ResticSnapshot.id :=
  List.mem_append_right _ (List.mem_map_of_mem (isLatest_latestSnapshot h).1)

theorem id_find_mem {snapshots : List ResticSnapshot} {snapshotId : JsString} {target : ResticSnapshot}
    (h : snapshots.find? (fun snapshot => snapshot.id = snapshotId) = some target) :
    target.id ∈ known ++ snapshots.map ResticSnapshot.id :=
  List.mem_append_right _ (List.mem_map_of_mem (List.mem_of_find?_eq_some h))

theorem informed_pullSnapshot {expected snapshotId : JsString} :
    Informed P known (pullSnapshot P client expected snapshotId) := by
  refine informed_snapshots fun snapshots => ?_
  split
  · exact informed_fail
  · rename_i latest hlatest
    exact informed_ite informed_fail (informed_restoreAndApply (id_latestSnapshot_mem hlatest))

theorem informed_restoreSnapshot {expected snapshotId : JsString} :
    Informed P known (restoreSnapshot P client expected snapshotId) := by
  refine informed_snapshots fun snapshots => ?_
  split
  · exact informed_fail
  · rename_i target hfound
    exact informed_restoreAndApply (id_find_mem hfound)

theorem informed_previewSnapshot {snapshotId : JsString} : Informed P known (previewSnapshot P client snapshotId) := by
  refine informed_snapshots fun snapshots => ?_
  split
  · exact informed_fail
  · rename_i target hfound
    exact informed_previewSnapshotContent (id_find_mem hfound)

theorem informed_restoreSnapshotUnlocked {project : Project} {snapshotId : JsString} {sent : Option JsString} :
    Informed P known (resticSyncRestoreSnapshotUnlocked P timeouts project snapshotId sent) :=
  (informed_database (database_rereadProject _)).bind fun _ =>
    (informed_database (database_resolveExpectedContentHash _ _)).bind fun _ => informed_restoreSnapshot.withWorkDir

theorem informed_syncRoute {id : JsString} {task : Project → Op α} {body : α → ResponseBody}
    (h : ∀ project, Informed P known (task project)) : Informed P known (syncRoute id task body) := by
  refine (informed_database (database_projectsDataGet _)).bind fun row => ?_
  cases row with
  | none => exact informed_pure
  | some project => exact ((h project).bind fun _ => informed_pure).tryCatch fun _ => only_pure

theorem informed_pull {projectId : JsString} {snapshotId contentHash : Option JsValue} :
    Informed P known (pull P timeouts projectId snapshotId contentHash) := by
  have hpull : ∀ project id sent, Informed P known (resticSyncPullUnlocked P timeouts project id sent) :=
    fun project id sent => informed_ite informed_fail ((informed_database (database_rereadProject _)).bind fun _ =>
      (informed_database (database_resolveExpectedContentHash _ _)).bind fun _ => informed_pullSnapshot.withWorkDir)
  refine (informed_database (database_projectsDataGet _)).bind fun row => ?_
  cases row with
  | none => exact informed_pure
  | some project =>
      exact informed_ite informed_pure (((hpull _ _ _).bind fun _ => informed_pure).tryCatch fun _ => only_pure)

theorem informed_pushSecrets {pushedBy : Option JsString} : Informed P known (pushSecrets P client pushedBy) := by
  have hexport : ∀ (secrets : List Secret) (dir : Dir), (secrets.foldlM exportSecret dir).Only Cmd.Unaimed :=
    Prog.Only.foldlM (only_exportSecret fun _ => trivial)
  have hprepare : (prepareRepository P client).Only Cmd.Unaimed := only_prepareRepository rfl rfl rfl
  refine (informed_database (database_secretsList _)).bind fun secrets => ?_
  refine (informed_unaimed (hexport secrets _)).bind fun dir => (informed_unaimed hprepare).bind fun snapshots => ?_
  refine (informed_unaimed only_checkNoConflict).bind fun _ => informed_backup fun createdId => ?_
  refine informed_resolveCreatedSnapshot.bind fun created => ?_
  exact (informed_withLock database_finalizePushSection).bind fun _ => informed_pure

/-- A program without a budget runs no restic. -/
theorem unaimed_of_meets {u : Usage} {Q : Except Failure α → Usage → Prop} (h : task.Meets (usage 0) u Q) :
    task.Only Cmd.Unaimed := by
  induction task generalizing u with
  | ret _ => trivial
  | fail _ => trivial
  | call c next ih =>
      refine ⟨?_, fun a => ih a (h.2 a trivial)⟩
      cases c with
      | restic projectId op => exact absurd h.1.2 (Nat.not_lt_zero _)
      | _ => trivial

/-- **Every operation asks restic only for snapshots that restic has reported to it.** -/
theorem informed_serve (op : Operation) : Informed P known (serve P timeouts op) := by
  have hidle : op.budget = 0 → Informed P known (serve P timeouts op) := fun hbudget =>
    informed_unaimed (unaimed_of_meets (hbudget ▸ costs_serve op 0 (by rw [hbudget]; exact le_rfl)))
  cases op with
  | push projectId pushedBy =>
      exact informed_syncRoute fun _ =>
        (informed_database (database_rereadProject _)).bind fun _ => informed_pushSecrets.withWorkDir
  | pull projectId snapshotId contentHash => exact informed_pull
  | restore projectId snapshotId contentHash => exact informed_syncRoute fun _ => informed_restoreSnapshotUnlocked
  | discard projectId contentHash =>
      exact informed_syncRoute fun _ => (informed_database (database_rereadProject _)).bind fun _ =>
        informed_ite informed_fail informed_restoreSnapshotUnlocked
  | previewPull projectId =>
      refine informed_syncRoute fun _ => (informed_database (database_rereadProject _)).bind fun _ => ?_
      refine informed_snapshots fun snapshots => ?_
      split
      · exact informed_fail
      · rename_i latest hlatest
        exact informed_previewSnapshotContent (id_latestSnapshot_mem hlatest)
  | previewRestore projectId snapshotId =>
      exact informed_syncRoute fun _ =>
        (informed_database (database_rereadProject _)).bind fun _ => informed_previewSnapshot
  | previewDiscard projectId =>
      exact informed_syncRoute fun _ => (informed_database (database_rereadProject _)).bind fun _ =>
        informed_ite informed_fail informed_previewSnapshot
  | _ => exact hidle rfl

end Informed

/-! ## Processes -/

section Runs
variable {R : Type} {restic : Restic R} {P : Platform} {timeouts : ResticTimeouts} {admits : Operation → Prop}

/-- The ids known after some events are those that the events have reported. -/
theorem mem_learning_after {ids : List JsString} {trace : List (Event (World R) Cmd Cmd.Answer)} {id : JsString}
    (h : id ∈ (learning P).after ids trace) : id ∈ ids ∨ ∃ e ∈ trace, id ∈ reportedIds P e.cmd e.answer := by
  induction trace using List.reverseRecOn with
  | nil => exact Or.inl h
  | append_singleton trace e ih =>
      rw [Monitor.after_append] at h
      rcases List.mem_append.mp h with h | h
      · refine (ih h).imp_right ?_
        rintro ⟨e', he', hid⟩
        exact ⟨e', List.mem_append_left _ he', hid⟩
      · exact Or.inr ⟨e, List.mem_append_right _ (List.mem_singleton_self e), h⟩

theorem outline_learning : Outline (server P timeouts restic admits) (fun _ => learning P) []
    (fun _ => True) (fun _ _ _ _ => True) fun _ _ _ => True :=
  .ofMeets (fun _ _ _ _ => trivial) fun req _ =>
    have hinformed : Informed P [] (serve P timeouts req) := informed_serve req
    (hinformed [] (List.nil_subset _)).mono fun _ _ _ => trivial

/-- **A restic process gets nothing that it should not.** In every run, an argument that begins with a dash is one of
the fixed options, the target directory of a restore or an id that restic has reported earlier to the same
operation. A variable is the project's, or an allowed one of the server with the server's value or the default, and
the variables of the project have its values. -/
theorem restic_process_confined {w₀ : World R} {cfg : Config (World R) Cmd Cmd.Answer Failure Response Operation}
    (hrun : (server P timeouts restic admits).Reachable w₀ cfg)
    {th : Thread (World R) Cmd Cmd.Answer Failure Response Operation} (hth : th ∈ cfg.threads)
    {earlier later : List (Event (World R) Cmd Cmd.Answer)} {e : Event (World R) Cmd Cmd.Answer}
    (htrace : th.trace = earlier ++ e :: later) {projectId : JsString} {op : ResticOp} (hcmd : e.cmd = .restic projectId op)
    (client : ResticClient) (source : JsObject (Option JsString)) (tmpdir target : JsString) :
    (∀ arg ∈ (client.process P source tmpdir target op).args, startsWith arg (js "-") = true →
      arg ∈ resticOptions ∨ arg = target ∨ ∃ e' ∈ earlier, arg ∈ reportedIds P e'.cmd e'.answer) ∧
    (∀ key value, (client.process P source tmpdir target op).env.get? key = some value →
      (key, value) ∈ projectVariables P client.project ∨
        key ∉ (projectVariables P client.project).map Prod.fst ∧
          (isInherited key = true ∧ source.get? key = some (some value) ∨
            (key, value) ∈ [(js "PATH", defaultPath), (js "HOME", tmpdir)])) ∧
    ∀ p ∈ projectVariables P client.project,
      (client.process P source tmpdir target op).env.get? p.1 = some p.2 := by
  refine ⟨fun arg harg hdash => ?_, fun key value hget => buildResticEnv_origin hget,
    fun p hp => get?_projectVariable hp⟩
  refine (dash_args harg hdash).imp_right fun h => h.imp_right fun hid => ?_
  obtain ⟨t, ht⟩ := List.getElem?_of_mem hth
  have hhappened := ((outline_learning.good trivial hrun).threads t th ht).past earlier e later htrace
  have hknown : KnownId ((learning P).after [] earlier) (.restic projectId op) := hcmd ▸ hhappened.allowed
  rcases mem_learning_after (hknown arg hid) with hnil | hreported
  · cases hnil
  · exact hreported

end Runs

section Example

def Cmd.restored : Cmd → Option (JsString × JsString)
  | .restic projectId (.restore id) => some (projectId, id)
  | _ => none

/-- A server with a path and a signing key. -/
def exampleServerEnv : JsObject (Option JsString) :=
  fromEntries [(js "PATH", some (js "/usr/bin")), (js "JWT_KEY", some (js "k"))]

/-- The restore runs after the listing that has reported its id, and its process does not see the signing key. -/
theorem restic_process_confined_restore :
    ∃ cfg th earlier e, (server runPlatform exampleTimeouts Snapshots.restic fun _ => True).Reachable
        (.initial editedDb [(js "s1", exampleFiles "1")]) cfg ∧
      th ∈ cfg.threads ∧ th.trace = earlier ++ [e] ∧ e.cmd = .restic (js "p") (.restore (js "s1")) ∧
      let process := ResticClient.process runPlatform ⟨exampleProject, exampleTimeouts⟩ exampleServerEnv (js "/tmp")
        (js "/tmp/restic-secrets-manager-1/restore") (.restore (js "s1"))
      process.env.get? (js "JWT_KEY") = none ∧
        ∀ arg ∈ process.args, startsWith arg (js "-") = true →
          arg ∈ resticOptions ∨ arg = js "/tmp/restic-secrets-manager-1/restore" ∨
            ∃ e' ∈ earlier, arg ∈ reportedIds runPlatform e'.cmd e'.answer := by
  obtain ⟨cfg, hplay, hevents⟩ : ∃ cfg,
      playExample (.spawn swap :: steps 0 6) (.initial editedDb [(js "s1", exampleFiles "1")]) = some cfg ∧
      (cfg.threads.map fun th => th.trace.map fun e => e.cmd.restored) =
        [[none, none, none, none, none] ++ [some (js "p", js "s1")]] :=
    Option.map_eq_some_iff.mp rfl
  obtain ⟨th, hths, htrace⟩ := List.map_eq_singleton_iff.mp hevents
  obtain ⟨earlier, last, hsplit, -, hlast⟩ := List.map_eq_append_iff.mp htrace
  obtain ⟨e, rfl, he⟩ := List.map_eq_singleton_iff.mp hlast
  have hcmd : e.cmd = .restic (js "p") (.restore (js "s1")) := by
    revert he
    cases e.cmd with
    | restic projectId op =>
        cases op with
        | restore id =>
            intro he
            obtain ⟨rfl, rfl⟩ := Prod.mk.inj (Option.some.inj he)
            rfl
        | _ => exact fun he => by cases he
    | _ => exact fun he => by cases he
  have hth : th ∈ cfg.threads := hths ▸ List.mem_singleton_self th
  have hreachable := playExample_reachable (fun _ _ => trivial) hplay
  have hconfined := restic_process_confined hreachable hth hsplit hcmd ⟨exampleProject, exampleTimeouts⟩ exampleServerEnv
    (js "/tmp") (js "/tmp/restic-secrets-manager-1/restore")
  refine ⟨cfg, th, earlier, e, hreachable, hth, hsplit, hcmd, ?_, hconfined.1⟩
  refine Option.eq_none_iff_forall_ne_some.mpr fun value hvalue => ?_
  rcases hconfined.2.1 _ _ hvalue with hproject | ⟨-, ⟨hinherited, -⟩ | hdefault⟩
  · exact absurd (isInherited_projectVariables hproject) (show ¬ isInherited (js "JWT_KEY") = true by decide)
  · exact absurd hinherited (by decide)
  · simp only [List.mem_cons, Prod.mk.injEq, List.not_mem_nil, or_false] at hdefault
    rcases hdefault with ⟨hpath, -⟩ | ⟨hhome, -⟩
    · exact absurd hpath (by decide)
    · exact absurd hhome (by decide)

end Example

end SecretsManager
