import SecretsManager.Projects.RepositoryTargets
import SecretsManager.Restic.ResticInvocation

/-!
# Who made a snapshot

A push tags its snapshot with the name of the user, with a dash for what a tag of restic cannot hold, and the
history reads the name back from the tag. So a snapshot is shown with the sanitized name, which is the name itself
when it is a clean tag and is shown the same when it is pushed again.
-/

namespace SecretsManager

open Js

/-! ## The attribution of a listed snapshot -/

/-- The user and the host of a snapshot when they are texts, and its tags when they are a list: a member that is no
text is `none`. -/
structure SnapshotOwner where
  username : Option JsString
  hostname : Option JsString
  tags : Option (List (Option JsString))

structure PusherInfo where
  pushedBy : Option JsString
  username : Option JsString
  hostname : Option JsString
  deriving DecidableEq

/-- `${username}@${hostname}`, when restic reports both. -/
def resticUser (username hostname : Option JsString) : Option JsString :=
  match username.filter (· ≠ []), hostname.filter (· ≠ []) with
  | some username, some hostname => some (username ++ js "@" ++ hostname)
  | _, _ => none

def snapshotPusherInfo (snapshot : SnapshotOwner) : PusherInfo :=
  let tags := (snapshot.tags.getD []).filterMap id
  let fallback := resticUser snapshot.username snapshot.hostname
  let pushedBy :=
    match tags.find? (startsWith · pushedByPrefix) with
    | some pushedByTag =>
        let name := pushedByTag.drop pushedByPrefix.length
        if name = [] then fallback else some name
    | none => fallback
  ⟨pushedBy, snapshot.username.filter (· ≠ []), snapshot.hostname.filter (· ≠ [])⟩

/-! ## How restic records tags -/

/-- The tags that restic makes of a `--tag` value, which is a list with commas. A well-formed value without
separators is one tag. -/
structure TagRecording where
  tags : JsString → List JsString
  single : ∀ value, (∀ c ∈ value, isTagSeparator c = false) → isWellFormed value = true → tags value = [value]

/-- The values of the `--tag` options. -/
def tagValues : List JsString → List JsString
  | option :: value :: rest => if option = js "--tag" then value :: tagValues rest else tagValues (value :: rest)
  | _ => []

/-- The snapshot of a backup with these arguments, as a listing reports it. -/
def TagRecording.recorded (recording : TagRecording) (username hostname : Option JsString) (args : List JsString) :
    SnapshotOwner :=
  ⟨username, hostname, some (((tagValues args).flatMap recording.tags).map some)⟩

/-! ## Clean tags -/

/-- A name that is a tag as it stands. -/
structure CleanTag (name : JsString) : Prop where
  separators : ∀ c ∈ name, isTagSeparator c = false
  length : name.length ≤ 100
  head : ∀ c ∈ name.head?, c ≠ unit '-'
  last : ∀ c ∈ name.getLast?, c ≠ unit '-'

namespace Project

variable {d : CodeUnit} {s : JsString}

theorem dropWhile_head {c : CodeUnit} (h : c ∈ (s.dropWhile (· = d)).head?) : c ≠ d := by
  have hself := (dropWhile_eq_self_iff (fun c => decide (c = d)) (s.dropWhile (· = d))).mp
    (List.dropWhile_idempotent _ _)
  simpa using hself c h

theorem dropTrailing_prefix : dropTrailing d s <+: s := by
  rw [← List.reverse_suffix, dropTrailing, List.reverse_reverse]
  exact List.dropWhile_suffix _

theorem dropTrailing_last {c : CodeUnit} (h : c ∈ (dropTrailing d s).getLast?) : c ≠ d := by
  rw [dropTrailing, List.getLast?_reverse] at h
  exact dropWhile_head h

theorem dropTrailing_eq_self (h : ∀ c ∈ s.getLast?, c ≠ d) : dropTrailing d s = s := by
  have hself : s.reverse.dropWhile (· = d) = s.reverse :=
    (dropWhile_eq_self_iff _ _).mpr fun c hc => by simpa using h c (List.head?_reverse ▸ hc)
  rw [dropTrailing, hself, List.reverse_reverse]

theorem trimUnit_head {c : CodeUnit} (h : c ∈ (trimUnit d s).head?) : c ≠ d := by
  obtain ⟨more, hmore⟩ := dropTrailing_prefix (d := d) (s := s.dropWhile (· = d))
  refine dropWhile_head (s := s) ?_
  rw [← hmore, List.head?_append_of_ne_nil]
  · exact h
  · rintro hnil
    rw [trimUnit, hnil] at h
    cases h

theorem trimUnit_eq_self (hhead : ∀ c ∈ s.head?, c ≠ d) (hlast : ∀ c ∈ s.getLast?, c ≠ d) : trimUnit d s = s := by
  have hstart : s.dropWhile (· = d) = s :=
    (dropWhile_eq_self_iff _ _).mpr fun c hc => by simpa using hhead c hc
  rw [trimUnit, hstart, dropTrailing_eq_self hlast]

theorem length_trimUnit_le : (trimUnit d s).length ≤ s.length :=
  dropTrailing_prefix.length_le.trans (List.dropWhile_suffix _).length_le

theorem trimUnit_eq_nil_iff : trimUnit d s = [] ↔ ∀ c ∈ s, c = d := by
  constructor
  · intro h
    rw [trimUnit, dropTrailing, List.reverse_eq_nil_iff, List.dropWhile_eq_nil_iff] at h
    have hall : s.dropWhile (· = d) = [] := by
      by_contra hne
      obtain ⟨c, rest, hcons⟩ := List.exists_cons_of_ne_nil hne
      have hc : c ∈ (s.dropWhile (· = d)).head? := by rw [hcons]; rfl
      exact dropWhile_head hc (by simpa using h c (List.mem_reverse.mpr (List.mem_of_mem_head? hc)))
    simpa using List.dropWhile_eq_nil_iff.mp hall
  · intro h
    have hall : s.dropWhile (· = d) = [] := List.dropWhile_eq_nil_iff.mpr fun c hc => by simpa using h c hc
    rw [trimUnit, hall]
    rfl

end Project

/-! ## Sanitized names -/

section Sanitized
variable {c : CodeUnit} {s name : JsString} {inRun : Bool}

theorem mem_dashSeparators (h : c ∈ dashSeparators inRun s) : c = unit '-' ∨ c ∈ s ∧ isTagSeparator c = false := by
  induction s generalizing inRun with
  | nil => cases h
  | cons d s ih =>
      have hlater : ∀ {inRun}, c ∈ dashSeparators inRun s → c = unit '-' ∨ c ∈ d :: s ∧ isTagSeparator c = false :=
        fun h => (ih h).imp_right fun hc => ⟨List.mem_cons_of_mem _ hc.1, hc.2⟩
      unfold dashSeparators at h
      split_ifs at h with hseparator hrun
      · exact hlater h
      · exact (List.mem_cons.mp h).elim Or.inl hlater
      · rcases List.mem_cons.mp h with rfl | h
        · exact Or.inr ⟨List.mem_cons_self .., by simpa using hseparator⟩
        · exact hlater h

theorem dashSeparators_eq_self (h : ∀ c ∈ s, isTagSeparator c = false) : dashSeparators inRun s = s := by
  induction s generalizing inRun with
  | nil => rfl
  | cons d s ih =>
      rw [dashSeparators, if_neg (by simp [h d (List.mem_cons_self ..)]),
        ih fun c hc => h c (List.mem_cons_of_mem _ hc)]

theorem length_dashSeparators_le : (dashSeparators inRun s).length ≤ s.length := by
  induction s generalizing inRun with
  | nil => exact le_rfl
  | cons d s ih =>
      rw [dashSeparators]
      split_ifs
      · exact ih.trans (Nat.le_succ _)
      · exact Nat.succ_le_succ ih
      · exact Nat.succ_le_succ ih

/-- Only separators and dashes become dashes. -/
theorem dashSeparators_dashes_iff (inRun : Bool) : (∀ c ∈ dashSeparators inRun s, c = unit '-') ↔
    ∀ c ∈ s, isTagSeparator c = true ∨ c = unit '-' := by
  induction s generalizing inRun with
  | nil => simp [dashSeparators]
  | cons d s ih =>
      unfold dashSeparators
      split_ifs with hseparator hrun
      · simp [ih, hseparator]
      · simp [ih, hseparator]
      · simp [ih, hseparator]

theorem cleanTag_sanitizePusherTag (pushedBy : Option JsString) : CleanTag (sanitizePusherTag pushedBy) where
  separators c hc := by
    have hdash := mem_dashSeparators (Project.mem_trimUnit (List.mem_of_mem_take (Project.mem_trimUnit hc)))
    rcases hdash with rfl | hc
    · decide
    · exact hc.2
  length := Project.length_trimUnit_le.trans (List.length_take_le _ _)
  head _ := Project.trimUnit_head
  last _ := Project.dropTrailing_last

/-- A name is kept exactly when it is a clean tag. -/
theorem sanitizePusherTag_eq_self_iff : sanitizePusherTag (some name) = name ↔ CleanTag name := by
  constructor
  · intro h
    exact h ▸ cleanTag_sanitizePusherTag (some name)
  · intro h
    rw [sanitizePusherTag, Option.getD_some, dashSeparators_eq_self h.separators,
      Project.trimUnit_eq_self h.head h.last, List.take_of_length_le h.length, Project.trimUnit_eq_self h.head h.last]

/-- No tag is left of a name of separators and dashes only. -/
theorem sanitizePusherTag_eq_nil_iff : sanitizePusherTag (some name) = [] ↔
    ∀ c ∈ name, isTagSeparator c = true ∨ c = unit '-' := by
  rw [sanitizePusherTag, Option.getD_some, ← dashSeparators_dashes_iff false,
    ← Project.trimUnit_eq_nil_iff]
  cases htrimmed : Project.trimUnit (unit '-') (dashSeparators false name) with
  | nil => exact iff_of_true rfl rfl
  | cons c rest =>
      -- the first unit that is left is no dash, and the cut keeps it
      have hhead : c ≠ unit '-' := Project.trimUnit_head (by rw [htrimmed]; rfl)
      refine iff_of_false (fun h => hhead ?_) (List.cons_ne_nil _ _)
      exact Project.trimUnit_eq_nil_iff.mp h c (List.mem_cons_self ..)

/-! ### Surrogates -/

theorem isWellFormed_append {fixed : JsString}
    (h : ∀ c ∈ fixed, isHighSurrogate c = false ∧ isLowSurrogate c = false) :
    isWellFormed (fixed ++ s) = isWellFormed s := by
  induction fixed with
  | nil => rfl
  | cons c fixed ih =>
      rw [List.cons_append, isWellFormed_cons (h c (List.mem_cons_self ..)),
        ih fun d hd => h d (List.mem_cons_of_mem _ hd)]

theorem isWellFormed_concat (hc : isHighSurrogate c = false ∧ isLowSurrogate c = false) :
    isWellFormed (s ++ [c]) = isWellFormed s := by
  induction s using isWellFormed.induct with
  | case1 => simp [isWellFormed, hc]
  | case2 d =>
      cases hd : isHighSurrogate d <;> simp [isWellFormed, hc, hd]
  | case3 d e s hd ih => simp [isWellFormed, hd, ih]
  | case4 d e s hd ih =>
      simp only [List.cons_append] at ih
      simp [isWellFormed, hd, ih]

/-- A separator is no surrogate. -/
theorem not_surrogate_of_isTagSeparator (h : isTagSeparator c = true) :
    isHighSurrogate c = false ∧ isLowSurrogate c = false := by
  simp only [isTagSeparator, isWhiteSpace, Bool.or_eq_true, Bool.and_eq_true, decide_eq_true_eq, beq_iff_eq] at h
  simp only [isHighSurrogate, isLowSurrogate, Bool.and_eq_false_iff, decide_eq_false_iff_not]
  rcases h with ((h | rfl) | h) | h
  · omega
  · decide
  · omega
  · omega

theorem isWellFormed_dashSeparators (h : isWellFormed s = true) : isWellFormed (dashSeparators inRun s) = true := by
  induction s using isWellFormed.induct generalizing inRun with
  | case1 => rfl
  | case2 c =>
      have hc : isHighSurrogate c = false ∧ isLowSurrogate c = false := by simpa [isWellFormed] using h
      unfold dashSeparators
      split_ifs with hseparator
      · rfl
      · decide
      · exact (isWellFormed_cons hc).trans rfl
  | case3 c d s hc ih =>
      -- neither half of a pair is a separator
      have hd : isLowSurrogate d = true ∧ isWellFormed s = true := by simpa [isWellFormed, hc] using h
      have hkept : ∀ e, isHighSurrogate e = true ∨ isLowSurrogate e = true → isTagSeparator e = false := by
        intro e he
        by_contra hseparator
        have hnot := not_surrogate_of_isTagSeparator (by simpa using hseparator)
        rw [hnot.1, hnot.2] at he
        simp at he
      rw [dashSeparators, hkept c (Or.inl hc), if_neg Bool.false_ne_true, dashSeparators, hkept d (Or.inr hd.1),
        if_neg Bool.false_ne_true, isWellFormed, if_pos hc, hd.1, ih hd.2]
      rfl
  | case4 c d s hc ih =>
      have hrest : isLowSurrogate c = false ∧ isWellFormed (d :: s) = true := by simpa [isWellFormed, hc] using h
      have hsurrogate : isHighSurrogate c = false ∧ isLowSurrogate c = false := ⟨by simpa using hc, hrest.1⟩
      rw [dashSeparators]
      split_ifs with hseparator hrun
      · exact ih hrest.2
      · exact (isWellFormed_cons (by decide)).trans (ih hrest.2)
      · exact (isWellFormed_cons hsurrogate).trans (ih hrest.2)

/-- Trimming dashes splits no pair. -/
theorem isWellFormed_trimUnit (h : isWellFormed s = true) : isWellFormed (Project.trimUnit (unit '-') s) = true := by
  have hstart : isWellFormed (s.dropWhile (· = unit '-')) = true := by
    induction s with
    | nil => exact h
    | cons c s ih =>
        rw [List.dropWhile_cons]
        split_ifs with hc
        · have hdash : c = unit '-' := by simpa using hc
          exact ih ((isWellFormed_cons (hdash ▸ by decide)).symm.trans h)
        · exact h
  rw [Project.trimUnit]
  revert hstart
  generalize s.dropWhile (· = unit '-') = t
  induction t using List.reverseRecOn with
  | nil => exact id
  | append_singleton t c ih =>
      intro ht
      rw [Project.dropTrailing, List.reverse_append, List.reverse_singleton, List.singleton_append, List.dropWhile_cons]
      split_ifs with hc
      · have hdash : c = unit '-' := by simpa using hc
        exact ih ((isWellFormed_concat (hdash ▸ by decide)).symm.trans ht)
      · rw [List.reverse_cons, List.reverse_reverse]
        exact ht

/-- A name that is cut nowhere keeps its pairs. -/
theorem isWellFormed_sanitizePusherTag (hname : isWellFormed name = true) (hlength : name.length ≤ 100) :
    isWellFormed (sanitizePusherTag (some name)) = true := by
  rw [sanitizePusherTag, Option.getD_some,
    List.take_of_length_le (Project.length_trimUnit_le.trans (length_dashSeparators_le.trans hlength))]
  exact isWellFormed_trimUnit (isWellFormed_trimUnit (isWellFormed_dashSeparators hname))

end Sanitized

/-! ## From the push to the history -/

section RoundTrip
variable {P : Platform} {client : ResticClient} {target : JsString} {dir : Dir} {pushedBy username hostname : Option JsString}

theorem tagValues_append {words rest : List JsString} (h : ∀ word ∈ words, word ≠ js "--tag") :
    tagValues (words ++ rest) = tagValues rest := by
  induction words with
  | nil => rfl
  | cons word words ih =>
      have hrest := ih fun word hword => h word (List.mem_cons_of_mem _ hword)
      rw [List.cons_append, ← hrest]
      cases words ++ rest with
      | nil => rfl
      | cons value rest => rw [tagValues, if_neg (h word (List.mem_cons_self ..))]

theorem baseArgs_ne_tag {word : JsString} (h : word ∈ client.baseArgs P) : word ≠ js "--tag" := by
  rintro rfl
  exact absurd (dash_baseArgs h (by decide)) (by decide)

theorem tagValues_backup : tagValues (client.args P target (.backup dir pushedBy)) =
    js "restic-secrets-manager" ::
      if sanitizePusherTag pushedBy = [] then [] else [pushedByPrefix ++ sanitizePusherTag pushedBy] := by
  have hcommand : ∀ word ∈ [js "backup", js "--group-by", js "paths"], word ≠ js "--tag" := by decide
  have hlast : tagValues [js "--json", js "."] = [] := by
    rw [← List.append_nil [js "--json", js "."], tagValues_append (by decide)]
    rfl
  have hfixed : [js "backup", js "--group-by", js "paths", js "--tag", js "restic-secrets-manager"] =
      [js "backup", js "--group-by", js "paths"] ++ [js "--tag", js "restic-secrets-manager"] := rfl
  rw [ResticClient.args, List.append_assoc, List.append_assoc, tagValues_append fun _ => baseArgs_ne_tag, hfixed,
    List.append_assoc, tagValues_append hcommand, List.cons_append, List.singleton_append, tagValues, if_pos rfl]
  split_ifs
  · rw [List.nil_append, hlast]
  · rw [List.cons_append, List.singleton_append, tagValues, if_pos rfl, hlast]

theorem forall_of_all {p : CodeUnit → Bool} {s : JsString} (h : s.all (fun c => !p c) = true) :
    ∀ c ∈ s, p c = false := by
  simpa using h

theorem not_surrogate_pushedByPrefix : ∀ c ∈ pushedByPrefix, isHighSurrogate c = false ∧ isLowSurrogate c = false :=
  fun c hc => ⟨forall_of_all (by decide) c hc, forall_of_all (by decide) c hc⟩

/-- The history shows the tag, and what restic knows when there is none. -/
theorem pushedBy_recorded (recording : TagRecording) (h : isWellFormed (sanitizePusherTag pushedBy) = true) :
    (snapshotPusherInfo
      (recording.recorded username hostname (client.args P target (.backup dir pushedBy)))).pushedBy =
      if sanitizePusherTag pushedBy = [] then resticUser username hostname else some (sanitizePusherTag pushedBy) := by
  have hfixed : recording.tags (js "restic-secrets-manager") = [js "restic-secrets-manager"] :=
    recording.single _ (forall_of_all (by decide)) (by decide)
  have htag : recording.tags (pushedByPrefix ++ sanitizePusherTag pushedBy) =
      [pushedByPrefix ++ sanitizePusherTag pushedBy] := by
    refine recording.single _ (fun c hc => ?_) ?_
    · rcases List.mem_append.mp hc with hc | hc
      · exact forall_of_all (s := pushedByPrefix) (by decide) c hc
      · exact (cleanTag_sanitizePusherTag pushedBy).separators c hc
    · exact (isWellFormed_append not_surrogate_pushedByPrefix).trans h
  have htags : ∀ tags : List JsString, ((some (tags.map some)).getD []).filterMap id = tags := fun tags => by
    simp [List.filterMap_map]
  have hno : startsWith (js "restic-secrets-manager") pushedByPrefix = false := by decide
  rw [TagRecording.recorded, tagValues_backup, List.flatMap_cons, hfixed, snapshotPusherInfo]
  dsimp only
  rw [htags, List.singleton_append, List.find?_cons_of_neg (by simp [hno])]
  split_ifs with hnone
  · rfl
  · have hfind : [pushedByPrefix ++ sanitizePusherTag pushedBy].find? (startsWith · pushedByPrefix) =
        some (pushedByPrefix ++ sanitizePusherTag pushedBy) := List.find?_cons_of_pos (by simp)
    rw [List.flatMap_singleton, htag, hfind]
    dsimp only
    rw [List.drop_left, if_neg hnone]

/-- The user that the history shows for a backup. -/
def TagRecording.shownPusher (recording : TagRecording) (P : Platform) (client : ResticClient) (target : JsString) (dir : Dir)
    (username hostname pushedBy : Option JsString) : Option JsString :=
  (snapshotPusherInfo (recording.recorded username hostname (client.args P target (.backup dir pushedBy)))).pushedBy

/-- What restic knows holds an `@`, so it is no name of separators and dashes. -/
theorem resticUser_ne {name : JsString} (hname : ∀ c ∈ name, isTagSeparator c = true ∨ c = unit '-') :
    resticUser username hostname ≠ some name := by
  intro h
  unfold resticUser at h
  split at h
  · obtain rfl := Option.some.inj h
    have hat : unit '@' ∈ js "@" := by decide
    exact absurd (hname (unit '@') (by simp [hat])) (by decide)
  · cases h

/-- **A snapshot is shown with the name of its user.** For a well-formed name of at most 100 units the history shows
the sanitized name, or the user and host of restic when nothing is left of it; the name itself is shown exactly when
it is a clean tag; and a push under the shown name is shown the same. -/
theorem pushed_by_round_trip (recording : TagRecording) {name : JsString} (hname : isWellFormed name = true)
    (hlength : name.length ≤ 100) (client : ResticClient) (target : JsString) (dir : Dir)
    (username hostname : Option JsString) :
    let shown := recording.shownPusher P client target dir username hostname
    ((∀ c ∈ name, isTagSeparator c = true ∨ c = unit '-') → shown (some name) = resticUser username hostname) ∧
    ((∃ c ∈ name, isTagSeparator c = false ∧ c ≠ unit '-') → ∃ tag, CleanTag tag ∧ tag ≠ [] ∧
      tag = sanitizePusherTag (some name) ∧ shown (some name) = some tag ∧ shown (some tag) = some tag) ∧
    (shown (some name) = some name ↔ CleanTag name ∧ name ≠ []) := by
  intro shown
  have hwell := isWellFormed_sanitizePusherTag hname hlength
  have hall : ∀ pushedBy, isWellFormed (sanitizePusherTag pushedBy) = true → shown pushedBy =
      if sanitizePusherTag pushedBy = [] then resticUser username hostname else some (sanitizePusherTag pushedBy) :=
    fun _ h => pushedBy_recorded recording h
  have hstable : sanitizePusherTag (some (sanitizePusherTag (some name))) = sanitizePusherTag (some name) :=
    sanitizePusherTag_eq_self_iff.mpr (cleanTag_sanitizePusherTag _)
  have hshown := hall (some name) hwell
  have hagain := hall (some (sanitizePusherTag (some name))) (hstable.symm ▸ hwell)
  rw [hstable] at hagain
  refine ⟨fun hblank => ?_, fun hkept => ?_, fun h => ?_, fun h => ?_⟩
  · rw [hshown, if_pos (sanitizePusherTag_eq_nil_iff.mpr hblank)]
  · obtain ⟨c, hc, hseparator, hdash⟩ := hkept
    have htag : sanitizePusherTag (some name) ≠ [] := by
      intro hnil
      rcases sanitizePusherTag_eq_nil_iff.mp hnil c hc with h | h
      · rw [hseparator] at h
        cases h
      · exact hdash h
    rw [if_neg htag] at hshown hagain
    exact ⟨_, cleanTag_sanitizePusherTag _, htag, rfl, hshown, hagain⟩
  · rw [hshown] at h
    split_ifs at h with hnil
    · exact absurd h (resticUser_ne (sanitizePusherTag_eq_nil_iff.mp hnil))
    · have hself := Option.some.inj h
      exact ⟨sanitizePusherTag_eq_self_iff.mp hself, hself ▸ hnil⟩
  · have hself := sanitizePusherTag_eq_self_iff.mpr h.1
    rw [hself, if_neg h.2] at hshown
    exact hshown

end RoundTrip

section Example

/-- Restic splits the value at its commas and trims the parts. -/
def commaTags : TagRecording where
  tags value := (value.splitOn (unit ',')).map trim
  single value h _ := by
    have hblank : ∀ c ∈ value, isWhiteSpace c = false := fun c hc => by
      have hc := h c hc
      simp only [isTagSeparator, Bool.or_eq_false_iff] at hc
      exact hc.1.1.1
    have hcomma : value.splitOn (unit ',') = [value] := by
      rw [List.splitOn_eq_splitOnP]
      refine List.splitOnP_eq_singleton fun c hc => beq_eq_false_iff_ne.mpr ?_
      rintro rfl
      exact absurd (h _ hc) (by decide)
    rw [hcomma, List.map_singleton, trim_eq_self_of_forall hblank]

/-- `Alice, Ops` is shown as `Alice-Ops`, however often it is pushed. -/
theorem pushed_by_round_trip_alice :
    let shown := commaTags.shownPusher runPlatform ⟨exampleProject, exampleTimeouts⟩ (js "/tmp/restore") Dir.empty none none
    ∃ tag, CleanTag tag ∧ tag ≠ [] ∧ tag = sanitizePusherTag (some (js "Alice, Ops")) ∧
      shown (some (js "Alice, Ops")) = some tag ∧ shown (some tag) = some tag :=
  (pushed_by_round_trip commaTags (show isWellFormed (js "Alice, Ops") = true by decide) (by decide)
    ⟨exampleProject, exampleTimeouts⟩ (js "/tmp/restore") Dir.empty none none).2.1 ⟨unit 'A', by decide, by decide, by decide⟩

example : sanitizePusherTag (some (js "Alice, Ops")) = js "Alice-Ops" := by decide

end Example

end SecretsManager
