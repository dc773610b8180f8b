import Mathlib.Logic.Function.Basic
import SecretsManager.Js.Text
import SecretsManager.Library.Machine

/-!
# The clipboard

Every copy takes a number, and after a delay the copy of the last number clears the clipboard, if the clipboard can
be read only when it holds the text that was copied last. Calls, writes, timers and reads come in any order.

A secret in the clipboard needs a clear that is still to come: a clear that is writing already, or that of the last
call. So the calls that matter are those that take this clear away (a last call that fails, a clear that finds
another copy's text) and the writes that come after it.
-/

namespace SecretsManager.Clipboard

open Js Machine

/-! ## The page and the clipboard -/

/-- How far a call of `copyTextToClipboardWithAutoClear` has come. `written` and `notCopied` is before its `await` goes
on, `waiting` while its timer is set; `checked` tells that the clear has read the clipboard. -/
inductive Phase where
  | unused
  | writing
  | written
  | notCopied
  | failed
  | waiting
  | reading
  | read (current : JsString)
  | clearing (checked : Bool)
  | ended
  deriving DecidableEq

/-- What `copyTextToClipboard` does at once: it asks `writeText`, or has to copy by the text area. -/
inductive Start where
  | asked
  | fallback (copied : Bool)
  deriving DecidableEq

/-- The variables of the module, the calls by their number, and the clipboard with whether a copy of the page has
put the content there. -/
structure Page where
  copySequence : Nat
  lastCopiedText : JsString
  text : Nat → JsString
  phase : Nat → Phase
  content : JsString
  own : Bool

namespace Page

def setPhase (s : Page) (k : Nat) (p : Phase) : Page := { s with phase := Function.update s.phase k p }

/-- The text of the call gets into the clipboard. -/
def put (s : Page) (k : Nat) : Page := { s with content := s.text k, own := true }.setPhase k .written

/-- The call clears the clipboard. -/
def clear (s : Page) (k : Nat) : Page := { s with content := [], own := false }.setPhase k .ended

def copyTextToClipboardWithAutoClear (s : Page) (text : JsString) (start : Start) : Page :=
  let sequence := s.copySequence + 1
  let called := { s with copySequence := sequence, text := Function.update s.text sequence text }
  match start with
  | .asked => called.setPhase sequence .writing
  | .fallback true => called.put sequence
  | .fallback false => called.setPhase sequence .notCopied

/-- `copyTextToClipboard("")` at the end of `clearClipboard` -/
def writeEmpty (s : Page) (sequence : Nat) (checked : Bool) (start : Start) : Page :=
  match start with
  | .asked => s.setPhase sequence (.clearing checked)
  | .fallback true => s.clear sequence
  | .fallback false => s.setPhase sequence .ended

/-- The timer, and `clearClipboard` up to `readText`. Where it is missing the clipboard is cleared at once. -/
def timer (s : Page) (sequence : Nat) (readable : Bool) (start : Start) : Page :=
  if sequence = s.copySequence then
    if readable then s.setPhase sequence .reading else s.writeEmpty sequence false start
  else s.setPhase sequence .ended

/-- `clearClipboard` after `readText` was refused. -/
def refused (s : Page) (sequence : Nat) (start : Start) : Page :=
  if sequence = s.copySequence then s.writeEmpty sequence false start else s.setPhase sequence .ended

/-- `clearClipboard` after `readText` has answered. -/
def compared (s : Page) (sequence : Nat) (current : JsString) (start : Start) : Page :=
  if sequence ≠ s.copySequence then s.setPhase sequence .ended
  else if current ≠ s.lastCopiedText then s.setPhase sequence .ended
  else s.writeEmpty sequence true start

end Page

/-- What can happen next. `land` and `landEmpty` are writes that get into the clipboard, `fall` and `fallEmpty` writes
that are refused, with what the text area then does. `goOn` is the `await` of a copy, `answer` the moment at which
`readText` reads, and `outside` a copy made outside of the page. -/
inductive Event where
  | call (text : JsString) (start : Start)
  | land (k : Nat)
  | fall (k : Nat) (copied : Bool)
  | goOn (k : Nat)
  | timer (k : Nat) (readable : Bool) (start : Start)
  | answer (k : Nat)
  | refuse (k : Nat) (start : Start)
  | compare (k : Nat) (start : Start)
  | landEmpty (k : Nat)
  | fallEmpty (k : Nat) (copied : Bool)
  | outside (text : JsString)
  deriving DecidableEq

def step (s : Page) : Event → Option Page
  | .call text start => some (s.copyTextToClipboardWithAutoClear text start)
  | .land k => if s.phase k = .writing then some (s.put k) else none
  | .fall k copied =>
      if s.phase k = .writing then some (if copied then s.put k else s.setPhase k .notCopied) else none
  | .goOn k =>
      match s.phase k with
      | .written => some ({ s with lastCopiedText := s.text k }.setPhase k .waiting)
      | .notCopied => some (s.setPhase k .failed)
      | _ => none
  | .timer k readable start => if s.phase k = .waiting then some (s.timer k readable start) else none
  | .answer k => if s.phase k = .reading then some (s.setPhase k (.read s.content)) else none
  | .refuse k start => if s.phase k = .reading then some (s.refused k start) else none
  | .compare k start =>
      match s.phase k with
      | .read current => some (s.compared k current start)
      | _ => none
  | .landEmpty k =>
      match s.phase k with
      | .clearing _ => some (s.clear k)
      | _ => none
  | .fallEmpty k copied =>
      match s.phase k with
      | .clearing _ => some (if copied then s.clear k else s.setPhase k .ended)
      | _ => none
  | .outside text => some { s with content := text, own := false }

/-- The page with what is in the clipboard when it loads. -/
def start (content : JsString) : Page := ⟨0, [], fun _ => [], fun _ => .unused, content, false⟩

/-! ## Secrets in the clipboard -/

namespace Phase

/-- The clear of the call is still to come, if the call does not fail. -/
def Ahead : Phase → Prop
  | writing | written | waiting | reading | read _ => True
  | unused | notCopied | failed | clearing _ | ended => False

/-- The text of the call was in the clipboard. -/
def Copied : Phase → Prop
  | written | waiting | reading | read _ | clearing _ | ended => True
  | unused | writing | notCopied | failed => False

/-- Nothing of the call is pending. -/
def Quiet : Phase → Prop
  | unused | failed | ended => True
  | writing | written | notCopied | waiting | reading | read _ | clearing _ => False

end Phase

namespace Page

/-- The text of a copy is in the clipboard. -/
def HoldsSecret (s : Page) : Prop := s.own = true ∧ s.content ≠ []

/-- All timers and operations have finished. -/
def Quiescent (s : Page) : Prop := ∀ k, (s.phase k).Quiet

/-- The write of a clear is under way. -/
def Clearing (s : Page) : Prop := ∃ k checked, s.phase k = .clearing checked

/-- A clear is still to come. -/
def Covered (s : Page) : Prop := s.Clearing ∨ (s.phase s.copySequence).Ahead

/-- The content is no text that the page has copied. -/
def Foreign (s : Page) : Prop := s.content ≠ [] ∧ ∀ k, (s.phase k).Copied → s.text k ≠ s.content

/-- No secret needs the clear of the last call. -/
def Spares (s : Page) : Prop := s.HoldsSecret → s.Clearing

end Page

/-- The clear of the last call is not lost to a secret: that call does not fail, and its clear does not leave the
clipboard alone for a text other than that copied last, while a secret is there; and no write of an earlier call
comes when no clear is to come. -/
def Orderly (s : Page) : Event → Prop
  | .call _ (.fallback false) => s.Spares
  | .fall k false => k = s.copySequence → s.Spares
  | .land k | .fall k true => s.text k ≠ [] → s.Covered
  | .compare k _ => k = s.copySequence → s.phase k ≠ .read s.lastCopiedText → s.Spares
  | .call _ .asked | .call _ (.fallback true) | .goOn _ | .timer _ _ _ | .answer _ | .refuse _ _ | .landEmpty _
  | .fallEmpty _ _ | .outside _ => True

/-- No write of a clear fails. -/
def Event.Clears : Event → Prop
  | .timer _ _ start | .refuse _ start | .compare _ start => start ≠ .fallback false
  | .fallEmpty _ copied => copied = true
  | .call _ _ | .land _ | .fall _ _ | .goOn _ | .answer _ | .landEmpty _ | .outside _ => True

/-- No copy is made outside of the page between the moment at which a clear reads the clipboard and its write. -/
def Undisturbed (s : Page) : Event → Prop
  | .outside _ => ∀ k, s.phase k ≠ .clearing true ∧ (k = s.copySequence → ∀ current, s.phase k ≠ .read current)
  | .call _ _ | .land _ | .fall _ _ | .goOn _ | .timer _ _ _ | .answer _ | .refuse _ _ | .compare _ _ | .landEmpty _
  | .fallEmpty _ _ => True

/-- The event is one of a clear that can read the clipboard. -/
def OfReadingClear (s : Page) : Event → Prop
  | .timer _ readable _ => readable = true
  | .answer _ | .compare _ _ => True
  | .landEmpty k | .fallEmpty k _ => s.phase k = .clearing true
  | .call _ _ | .land _ | .fall _ _ | .goOn _ | .refuse _ _ | .outside _ => False

/-! ## Phases -/

section Phases
variable {s s' : Page} {e : Event} {k : Nat} {p : Phase}

@[simp] theorem setPhase_phase (s : Page) (k j : Nat) (p : Phase) :
    (s.setPhase k p).phase j = if j = k then p else s.phase j := Function.update_apply _ _ _ _

/-- The calls to come are not in use. -/
def Fresh (s : Page) : Prop := ∀ k, s.copySequence < k → s.phase k = .unused

theorem clearing_setPhase (h : s.Clearing) (hk : ∀ checked, s.phase k ≠ .clearing checked) :
    (s.setPhase k p).Clearing := by
  obtain ⟨j, checked, hj⟩ := h
  have hne : j ≠ k := fun heq => hk checked (heq ▸ hj)
  exact ⟨j, checked, by rw [setPhase_phase, if_neg hne, hj]⟩

/-- A clear is still to come after a step of a call that is no clear, unless it is the last one and gives its clear
up. -/
theorem covered_setPhase (h : s.Covered) (hk : ∀ checked, s.phase k ≠ .clearing checked)
    (hp : k = s.copySequence → (s.phase k).Ahead → p.Ahead ∨ ∃ checked, p = .clearing checked) :
    (s.setPhase k p).Covered := by
  rcases h with hclearing | hahead
  · exact Or.inl (clearing_setPhase hclearing hk)
  · by_cases hlast : k = s.copySequence
    · rcases hp hlast (hlast ▸ hahead) with hp | ⟨checked, rfl⟩
      · right
        show ((s.setPhase k p).phase s.copySequence).Ahead
        rwa [setPhase_phase, if_pos hlast.symm]
      · exact Or.inl ⟨k, checked, by rw [setPhase_phase, if_pos rfl]⟩
    · right
      show ((s.setPhase k p).phase s.copySequence).Ahead
      rwa [setPhase_phase, if_neg (Ne.symm hlast)]

theorem fresh_setPhase (h : Fresh s) (hk : s.phase k ≠ .unused) : Fresh (s.setPhase k p) := by
  intro j hj
  have hne : j ≠ k := fun heq => hk (heq ▸ h j hj)
  rw [setPhase_phase, if_neg hne]
  exact h j hj

end Phases

/-! ## Steps -/

section Steps
variable {s s' : Page} {e : Event} {k : Nat} {start : Start} {copied checked : Bool} {current : JsString}

theorem step_goOn (h : step s (.goOn k) = some s') :
    s.phase k = .written ∧ s' = { s with lastCopiedText := s.text k }.setPhase k .waiting ∨
      s.phase k = .notCopied ∧ s' = s.setPhase k .failed := by
  unfold step at h
  dsimp only at h
  split at h
  next hk => exact Or.inl ⟨hk, (Option.some.inj h).symm⟩
  next hk => exact Or.inr ⟨hk, (Option.some.inj h).symm⟩
  next => cases h

theorem step_compare (h : step s (.compare k start) = some s') :
    ∃ current, s.phase k = .read current ∧ s' = s.compared k current start := by
  unfold step at h
  dsimp only at h
  split at h
  next current hk => exact ⟨current, hk, (Option.some.inj h).symm⟩
  next => cases h

theorem step_landEmpty (h : step s (.landEmpty k) = some s') :
    ∃ checked, s.phase k = .clearing checked ∧ s' = s.clear k := by
  unfold step at h
  dsimp only at h
  split at h
  next checked hk => exact ⟨checked, hk, (Option.some.inj h).symm⟩
  next => cases h

theorem step_fallEmpty (h : step s (.fallEmpty k copied) = some s') :
    ∃ checked, s.phase k = .clearing checked ∧ s' = if copied then s.clear k else s.setPhase k .ended := by
  unfold step at h
  dsimp only at h
  split at h
  next checked hk => exact ⟨checked, hk, (Option.some.inj h).symm⟩
  next => cases h

/-- The clear of the last call goes on to its write only if it has read the text that was copied last. -/
theorem compared_cases (s : Page) (k : Nat) (current : JsString) (start : Start) :
    k = s.copySequence ∧ current = s.lastCopiedText ∧ s.compared k current start = s.writeEmpty k true start ∨
      (k = s.copySequence → current ≠ s.lastCopiedText) ∧ s.compared k current start = s.setPhase k .ended := by
  unfold Page.compared
  by_cases hlast : k = s.copySequence
  · by_cases hsame : current = s.lastCopiedText
    · exact Or.inl ⟨hlast, hsame, by rw [if_neg (not_not.mpr hlast), if_neg (not_not.mpr hsame)]⟩
    · exact Or.inr ⟨fun _ => hsame, by rw [if_neg (not_not.mpr hlast), if_pos hsame]⟩
  · exact Or.inr ⟨fun h => absurd h hlast, by rw [if_pos hlast]⟩

/-! ### Secrets are covered -/

/-- A clear is to come for every secret in the clipboard. -/
structure CoverInv (s : Page) : Prop where
  fresh : Fresh s
  covered : s.HoldsSecret → s.Covered

theorem CoverInv.setPhase (h : CoverInv s) {p : Phase} (hused : s.phase k ≠ .unused)
    (hk : ∀ checked, s.phase k ≠ .clearing checked)
    (hp : k = s.copySequence → (s.phase k).Ahead → p.Ahead ∨ ∃ checked, p = .clearing checked) :
    CoverInv (s.setPhase k p) :=
  ⟨fresh_setPhase h.fresh hused, fun hsecret => covered_setPhase (h.covered hsecret) hk hp⟩

theorem CoverInv.clear (h : CoverInv s) (hused : s.phase k ≠ .unused) : CoverInv (s.clear k) :=
  ⟨fresh_setPhase (s := { s with content := [], own := false }) h.fresh hused, fun hsecret => absurd rfl hsecret.2⟩

theorem CoverInv.writeEmpty (h : CoverInv s) (hused : s.phase k ≠ .unused)
    (hk : ∀ checked, s.phase k ≠ .clearing checked) (hstart : start ≠ .fallback false) :
    CoverInv (s.writeEmpty k checked start) := by
  cases start with
  | asked => exact h.setPhase hused hk fun _ _ => Or.inr ⟨checked, rfl⟩
  | fallback copied =>
      cases copied with
      | true => exact h.clear hused
      | false => exact absurd rfl hstart

/-- A call that is not the last one gives no clear up. -/
theorem CoverInv.outdated (h : CoverInv s) (hused : s.phase k ≠ .unused)
    (hk : ∀ checked, s.phase k ≠ .clearing checked) (hlast : k ≠ s.copySequence) : CoverInv (s.setPhase k .ended) :=
  h.setPhase hused hk fun heq => absurd heq hlast

/-- The last call gives its clear up when no secret is left to it. -/
theorem CoverInv.giveUp (h : CoverInv s) {p : Phase} (hused : s.phase k ≠ .unused)
    (hk : ∀ checked, s.phase k ≠ .clearing checked) (hspares : k = s.copySequence → s.Spares) :
    CoverInv (s.setPhase k p) := by
  refine ⟨fresh_setPhase h.fresh hused, fun hsecret => ?_⟩
  by_cases hlast : k = s.copySequence
  · exact Or.inl (clearing_setPhase (hspares hlast hsecret) hk)
  · exact covered_setPhase (h.covered hsecret) hk fun heq => absurd heq hlast

theorem CoverInv.put (h : CoverInv s) (hwriting : s.phase k = .writing) (hcovered : s.text k ≠ [] → s.Covered) :
    CoverInv (s.put k) := by
  have hused : s.phase k ≠ .unused := by simp [hwriting]
  refine ⟨fresh_setPhase (s := { s with content := s.text k, own := true }) h.fresh hused, fun hsecret => ?_⟩
  exact covered_setPhase (s := { s with content := s.text k, own := true }) (hcovered hsecret.2) (by simp [hwriting])
    fun _ _ => Or.inl trivial

theorem CoverInv.call (h : CoverInv s) (text : JsString) (hspares : start = .fallback false → s.Spares) :
    CoverInv (s.copyTextToClipboardWithAutoClear text start) := by
  have hfresh : ∀ (t : Page) (p : Phase), t.copySequence = s.copySequence + 1 → t.phase = s.phase →
      Fresh (t.setPhase (s.copySequence + 1) p) := by
    intro t p hsequence hphase j hj
    have hlt : s.copySequence + 1 < j := hsequence ▸ hj
    rw [setPhase_phase, if_neg (by omega), hphase]
    exact h.fresh j (by omega)
  have hahead : ∀ (t : Page) (p : Phase), t.copySequence = s.copySequence + 1 → p.Ahead →
      (t.setPhase (s.copySequence + 1) p).Covered := by
    intro t p hsequence hp
    right
    show ((t.setPhase (s.copySequence + 1) p).phase t.copySequence).Ahead
    rwa [setPhase_phase, if_pos hsequence]
  cases start with
  | asked => exact ⟨hfresh _ _ rfl rfl, fun _ => hahead _ _ rfl trivial⟩
  | fallback copied =>
      cases copied with
      | true => exact ⟨hfresh _ _ rfl rfl, fun _ => hahead _ _ rfl trivial⟩
      | false =>
          refine ⟨hfresh _ _ rfl rfl, fun hsecret => Or.inl ?_⟩
          have hunused : s.phase (s.copySequence + 1) = .unused := h.fresh _ (Nat.lt_succ_self _)
          exact clearing_setPhase (hspares rfl hsecret) (by simp [hunused])

theorem coverInv_step (h : CoverInv s) (horderly : Orderly s e) (hclears : e.Clears) (hstep : step s e = some s') :
    CoverInv s' := by
  cases e with
  | call text start =>
      cases hstep
      exact h.call text fun hstart => by
        subst hstart
        exact horderly
  | land k =>
      obtain ⟨hwriting, ⟨⟩⟩ := Option.ite_none_right_eq_some.mp hstep
      exact h.put hwriting horderly
  | fall k copied =>
      obtain ⟨hwriting, ⟨⟩⟩ := Option.ite_none_right_eq_some.mp hstep
      cases copied with
      | true => exact h.put hwriting horderly
      | false => exact h.giveUp (by simp [hwriting]) (by simp [hwriting]) horderly
  | goOn k =>
      rcases step_goOn hstep with ⟨hwritten, rfl⟩ | ⟨hnot, rfl⟩
      · have hset := h.setPhase (k := k) (p := .waiting) (by simp [hwritten]) (by simp [hwritten])
          fun _ _ => Or.inl trivial
        exact ⟨hset.fresh, hset.covered⟩
      · exact h.setPhase (by simp [hnot]) (by simp [hnot]) fun _ hahead => absurd hahead (by simp [hnot, Phase.Ahead])
  | timer k readable start =>
      obtain ⟨hwaiting, ⟨⟩⟩ := Option.ite_none_right_eq_some.mp hstep
      unfold Page.timer
      split_ifs with hlast hreadable
      · exact h.setPhase (by simp [hwaiting]) (by simp [hwaiting]) fun _ _ => Or.inl trivial
      · exact h.writeEmpty (by simp [hwaiting]) (by simp [hwaiting]) hclears
      · exact h.outdated (by simp [hwaiting]) (by simp [hwaiting]) hlast
  | answer k =>
      obtain ⟨hreading, ⟨⟩⟩ := Option.ite_none_right_eq_some.mp hstep
      exact h.setPhase (by simp [hreading]) (by simp [hreading]) fun _ _ => Or.inl trivial
  | refuse k start =>
      obtain ⟨hreading, ⟨⟩⟩ := Option.ite_none_right_eq_some.mp hstep
      unfold Page.refused
      split_ifs with hlast
      · exact h.writeEmpty (by simp [hreading]) (by simp [hreading]) hclears
      · exact h.outdated (by simp [hreading]) (by simp [hreading]) hlast
  | compare k start =>
      obtain ⟨current, hread, rfl⟩ := step_compare hstep
      rcases compared_cases s k current start with ⟨-, -, heq⟩ | ⟨hdiffers, heq⟩ <;> rw [heq]
      · exact h.writeEmpty (by simp [hread]) (by simp [hread]) hclears
      · exact h.giveUp (by simp [hread]) (by simp [hread]) fun hlast =>
          horderly hlast fun hsame => hdiffers hlast (Phase.read.inj (hread.symm.trans hsame))
  | landEmpty k =>
      obtain ⟨checked, hclearing, rfl⟩ := step_landEmpty hstep
      exact h.clear (by simp [hclearing])
  | fallEmpty k copied =>
      obtain ⟨checked, hclearing, rfl⟩ := step_fallEmpty hstep
      obtain rfl : copied = true := hclears
      exact h.clear (by simp [hclearing])
  | outside text =>
      cases hstep
      exact ⟨h.fresh, fun hsecret => absurd hsecret.1 nofun⟩

theorem coverInv_start (content : JsString) : CoverInv (Clipboard.start content) :=
  ⟨fun _ _ => rfl, fun hsecret => absurd hsecret.1 nofun⟩

/-- Nothing is to come when all is quiet. -/
theorem not_covered_of_quiescent (h : s.Quiescent) : ¬ s.Covered := by
  rintro (⟨k, checked, hclearing⟩ | hahead)
  · have hquiet := h k
    rw [hclearing] at hquiet
    exact hquiet
  · have hquiet := h s.copySequence
    revert hahead hquiet
    cases s.phase s.copySequence <;> exact fun hahead hquiet => by first | exact hahead | exact hquiet

/-! ### Content from outside -/

/-- The text is one that the page has copied. -/
def Known (s : Page) (text : JsString) : Prop := ∃ j, (s.phase j).Copied ∧ s.text j = text

/-- Between a clear's read and its write nothing comes from outside, and `lastCopiedText` was in the clipboard. -/
structure ReadInv (s : Page) : Prop where
  fresh : Fresh s
  last : ∀ k, (s.phase k).Copied → s.phase k = .written ∨ Known s s.lastCopiedText
  read : ∀ current, s.phase s.copySequence = .read current → current = s.content ∨ ¬ s.Foreign
  checked : ∀ k, s.phase k = .clearing true → ¬ s.Foreign

theorem not_foreign_of_known (h : Known s s.content) : ¬ s.Foreign := by
  obtain ⟨j, hcopied, htext⟩ := h
  exact fun hforeign => hforeign.2 j hcopied htext

/-- A text that was copied stays so. -/
theorem known_mono {text : JsString} (h : Known s text)
    (hkeep : ∀ j, (s.phase j).Copied → (s'.phase j).Copied ∧ s'.text j = s.text j) : Known s' text := by
  obtain ⟨j, hcopied, htext⟩ := h
  exact ⟨j, (hkeep j hcopied).1, (hkeep j hcopied).2.trans htext⟩

theorem not_foreign_mono (h : ¬ s.Foreign) (hcontent : s'.content = s.content)
    (hkeep : ∀ j, (s.phase j).Copied → (s'.phase j).Copied ∧ s'.text j = s.text j) : ¬ s'.Foreign := by
  rintro ⟨hne, hnone⟩
  refine h ⟨hcontent ▸ hne, fun j hcopied => ?_⟩
  rw [← hcontent, ← (hkeep j hcopied).2]
  exact hnone j (hkeep j hcopied).1

theorem copied_setPhase {p : Phase} (hp : (s.phase k).Copied → p.Copied) (j : Nat) (hcopied : (s.phase j).Copied) :
    ((s.setPhase k p).phase j).Copied ∧ (s.setPhase k p).text j = s.text j := by
  refine ⟨?_, rfl⟩
  rw [setPhase_phase]
  split_ifs with hj
  · exact hp (hj ▸ hcopied)
  · exact hcopied

theorem ReadInv.setPhase (h : ReadInv s) {p : Phase} (hused : s.phase k ≠ .unused)
    (hp : (s.phase k).Copied → p.Copied) (hlast : p.Copied → p = .written ∨ Known s s.lastCopiedText)
    (hread : k = s.copySequence → ∀ current, p = .read current → current = s.content ∨ ¬ s.Foreign)
    (hchecked : p = .clearing true → ¬ s.Foreign) : ReadInv (s.setPhase k p) := by
  have hkeep := copied_setPhase hp
  refine ⟨fresh_setPhase h.fresh hused, fun j hcopied => ?_, fun current hcurrent => ?_, fun j hclearing => ?_⟩
  · rw [setPhase_phase] at hcopied ⊢
    split_ifs at hcopied ⊢ with hj
    · exact (hlast hcopied).imp_right fun hknown => known_mono hknown hkeep
    · exact (h.last j hcopied).imp_right fun hknown => known_mono hknown hkeep
  · have hcurrent : (s.setPhase k p).phase s.copySequence = .read current := hcurrent
    rw [setPhase_phase] at hcurrent
    split_ifs at hcurrent with hj
    · exact (hread hj.symm current hcurrent).imp_right fun hnot => not_foreign_mono (s := s) hnot rfl hkeep
    · exact (h.read current hcurrent).imp_right fun hnot => not_foreign_mono (s := s) hnot rfl hkeep
  · rw [setPhase_phase] at hclearing
    split_ifs at hclearing with hj
    · exact not_foreign_mono (hchecked hclearing) rfl hkeep
    · exact not_foreign_mono (h.checked j hclearing) rfl hkeep

/-- A call goes on to another phase after its text was copied, and not on to a clear. -/
theorem ReadInv.goOn (h : ReadInv s) {p : Phase} (hcopied : (s.phase k).Copied) (hwritten : s.phase k ≠ .written)
    (hp : p.Copied) (hread : ∀ current, p ≠ .read current) (hclearing : p ≠ .clearing true) :
    ReadInv (s.setPhase k p) := by
  have hknown := (h.last k hcopied).resolve_left hwritten
  refine h.setPhase (fun hunused => ?_) (fun _ => hp) (fun _ => Or.inr hknown)
    (fun _ current hcurrent => absurd hcurrent (hread current)) fun heq => absurd heq hclearing
  rw [hunused] at hcopied
  exact hcopied

/-- The content may become one that is not foreign. -/
theorem ReadInv.setContent (h : ReadInv s) {content : JsString} {own : Bool}
    (hnot : ¬ Page.Foreign { s with content := content, own := own }) :
    ReadInv { s with content := content, own := own } :=
  ⟨h.fresh, h.last, fun _ _ => Or.inr hnot, fun _ _ => hnot⟩

theorem not_foreign_nil (h : s.content = []) : ¬ s.Foreign := fun hforeign => hforeign.1 h

theorem ReadInv.clear (h : ReadInv s) (hcopied : (s.phase k).Copied) (hwritten : s.phase k ≠ .written) :
    ReadInv (s.clear k) :=
  (h.setContent (not_foreign_nil rfl)).goOn hcopied hwritten trivial nofun nofun

theorem ReadInv.put (h : ReadInv s) (hwriting : s.phase k = .writing) : ReadInv (s.put k) := by
  have hset := h.setPhase (k := k) (p := .written) (by simp [hwriting]) (fun _ => trivial) (fun _ => Or.inl rfl)
    (fun _ _ => nofun) nofun
  exact hset.setContent (not_foreign_of_known ⟨k, by simp [Phase.Copied], rfl⟩)

theorem ReadInv.writeEmpty (h : ReadInv s) (hcopied : (s.phase k).Copied) (hwritten : s.phase k ≠ .written)
    (hchecked : checked = true → ¬ s.Foreign) : ReadInv (s.writeEmpty k checked start) := by
  cases start with
  | asked =>
      have hknown := (h.last k hcopied).resolve_left hwritten
      refine h.setPhase (fun hunused => ?_) (fun _ => trivial) (fun _ => Or.inr hknown) (fun _ _ => nofun)
        fun heq => hchecked (Phase.clearing.inj heq)
      rw [hunused] at hcopied
      exact hcopied
  | fallback copied =>
      cases copied with
      | true => exact h.clear hcopied hwritten
      | false => exact h.goOn hcopied hwritten trivial nofun nofun

/-- The number of the new call was not in use. -/
theorem ReadInv.called (h : ReadInv s) (text : JsString) {p : Phase} (hp : p.Copied → p = .written)
    (hread : ∀ current, p ≠ .read current) (hclearing : p ≠ .clearing true) :
    ReadInv (Page.setPhase
      { s with
        copySequence := s.copySequence + 1
        text := Function.update s.text (s.copySequence + 1) text } (s.copySequence + 1) p) := by
  have hkeep : ∀ j, (s.phase j).Copied → ((Function.update s.phase (s.copySequence + 1) p) j).Copied ∧
      Function.update s.text (s.copySequence + 1) text j = s.text j := by
    intro j hcopied
    have hne : j ≠ s.copySequence + 1 := by
      rintro rfl
      rw [h.fresh _ (Nat.lt_succ_self _)] at hcopied
      exact hcopied
    rw [Function.update_of_ne hne, Function.update_of_ne hne]
    exact ⟨hcopied, rfl⟩
  refine ⟨fun j hj => ?_, fun j hcopied => ?_, fun current hcurrent => ?_, fun j hj => ?_⟩
  · have hlt : s.copySequence + 1 < j := hj
    rw [setPhase_phase, if_neg (by omega)]
    exact h.fresh j (by omega)
  · rw [setPhase_phase] at hcopied ⊢
    split_ifs at hcopied ⊢ with hnew
    · exact Or.inl (hp hcopied)
    · exact (h.last j hcopied).imp_right fun hknown => known_mono hknown hkeep
  · have hcurrent : (Page.setPhase _ (s.copySequence + 1) p).phase (s.copySequence + 1) = .read current := hcurrent
    rw [setPhase_phase, if_pos rfl] at hcurrent
    exact absurd hcurrent (hread current)
  · rw [setPhase_phase] at hj
    split_ifs at hj
    · exact absurd hj hclearing
    · exact not_foreign_mono (h.checked j hj) rfl hkeep

theorem ReadInv.call (h : ReadInv s) (text : JsString) (start : Start) :
    ReadInv (s.copyTextToClipboardWithAutoClear text start) := by
  cases start with
  | asked => exact h.called text nofun nofun nofun
  | fallback copied =>
      cases copied with
      | true =>
          have hcalled := h.called text (p := .written) (fun _ => rfl) nofun nofun
          exact hcalled.setContent (not_foreign_of_known ⟨s.copySequence + 1, by simp [Phase.Copied], rfl⟩)
      | false => exact h.called text nofun nofun nofun

/-- A clear that goes on to its write clears a text of the page. -/
theorem ReadInv.not_foreign_of_read (h : ReadInv s) (hread : s.phase k = .read current)
    (hlast : k = s.copySequence) (hsame : current = s.lastCopiedText) : ¬ s.Foreign := by
  rcases h.read current (hlast ▸ hread) with hcontent | hnot
  · have hknown := (h.last k (by rw [hread]; trivial)).resolve_left (by simp [hread])
    rw [← hsame, hcontent] at hknown
    exact not_foreign_of_known hknown
  · exact hnot

theorem readInv_step (h : ReadInv s) (hundisturbed : Undisturbed s e) (hstep : step s e = some s') : ReadInv s' := by
  cases e with
  | call text start =>
      cases hstep
      exact h.call text start
  | land k =>
      obtain ⟨hwriting, ⟨⟩⟩ := Option.ite_none_right_eq_some.mp hstep
      exact h.put hwriting
  | fall k copied =>
      obtain ⟨hwriting, ⟨⟩⟩ := Option.ite_none_right_eq_some.mp hstep
      cases copied with
      | true => exact h.put hwriting
      | false =>
          exact h.setPhase (by simp [hwriting]) (by simp [hwriting, Phase.Copied]) nofun (fun _ _ => nofun) nofun
  | goOn k =>
      rcases step_goOn hstep with ⟨hwritten, rfl⟩ | ⟨hnot, rfl⟩
      · have hknown : Known s (s.text k) := ⟨k, by rw [hwritten]; trivial, rfl⟩
        have hset : ReadInv { s with lastCopiedText := s.text k } :=
          ⟨h.fresh, fun _ _ => Or.inr hknown, h.read, h.checked⟩
        exact hset.setPhase (by simp [hwritten]) (fun _ => trivial) (fun _ => Or.inr hknown) (fun _ _ => nofun) nofun
      · exact h.setPhase (by simp [hnot]) (by simp [hnot, Phase.Copied]) nofun (fun _ _ => nofun) nofun
  | timer k readable start =>
      obtain ⟨hwaiting, ⟨⟩⟩ := Option.ite_none_right_eq_some.mp hstep
      have hcopied : (s.phase k).Copied := by rw [hwaiting]; trivial
      unfold Page.timer
      split_ifs
      · exact h.goOn hcopied (by simp [hwaiting]) trivial nofun nofun
      · exact h.writeEmpty hcopied (by simp [hwaiting]) nofun
      · exact h.goOn hcopied (by simp [hwaiting]) trivial nofun nofun
  | answer k =>
      obtain ⟨hreading, ⟨⟩⟩ := Option.ite_none_right_eq_some.mp hstep
      have hknown := (h.last k (by rw [hreading]; trivial)).resolve_left (by simp [hreading])
      refine h.setPhase (by simp [hreading]) (fun _ => trivial) (fun _ => Or.inr hknown)
        (fun _ current hcurrent => ?_) nofun
      exact Or.inl (Phase.read.inj hcurrent).symm
  | refuse k start =>
      obtain ⟨hreading, ⟨⟩⟩ := Option.ite_none_right_eq_some.mp hstep
      have hcopied : (s.phase k).Copied := by rw [hreading]; trivial
      unfold Page.refused
      split_ifs
      · exact h.writeEmpty hcopied (by simp [hreading]) nofun
      · exact h.goOn hcopied (by simp [hreading]) trivial nofun nofun
  | compare k start =>
      obtain ⟨current, hread, rfl⟩ := step_compare hstep
      have hcopied : (s.phase k).Copied := by rw [hread]; trivial
      rcases compared_cases s k current start with ⟨hlast, hsame, heq⟩ | ⟨-, heq⟩ <;> rw [heq]
      · exact h.writeEmpty hcopied (by simp [hread]) fun _ => h.not_foreign_of_read hread hlast hsame
      · exact h.goOn hcopied (by simp [hread]) trivial nofun nofun
  | landEmpty k =>
      obtain ⟨checked, hclearing, rfl⟩ := step_landEmpty hstep
      exact h.clear (by rw [hclearing]; trivial) (by simp [hclearing])
  | fallEmpty k copied =>
      obtain ⟨checked, hclearing, rfl⟩ := step_fallEmpty hstep
      have hcopied : (s.phase k).Copied := by rw [hclearing]; trivial
      split_ifs
      · exact h.clear hcopied (by simp [hclearing])
      · exact h.goOn hcopied (by simp [hclearing]) trivial nofun nofun
  | outside text =>
      cases hstep
      exact ⟨h.fresh, h.last, fun current hread => absurd hread ((hundisturbed _).2 rfl current),
        fun k hclearing => absurd hclearing (hundisturbed k).1⟩

theorem readInv_start (content : JsString) : ReadInv (Clipboard.start content) :=
  ⟨fun _ _ => rfl, fun _ => False.elim, fun _ => nofun, fun _ => nofun⟩

/-- A clear that can read the clipboard leaves foreign content alone. -/
theorem ReadInv.content_eq (h : ReadInv s) (hstep : step s e = some s') (hclear : OfReadingClear s e)
    (hforeign : s.Foreign) : s'.content = s.content := by
  cases e with
  | timer k readable start =>
      obtain rfl : readable = true := hclear
      obtain ⟨-, ⟨⟩⟩ := Option.ite_none_right_eq_some.mp hstep
      unfold Page.timer
      split_ifs with hlast hreadable
      · rfl
      · exact absurd rfl hreadable
      · rfl
  | answer k =>
      obtain ⟨-, ⟨⟩⟩ := Option.ite_none_right_eq_some.mp hstep
      rfl
  | compare k start =>
      obtain ⟨current, hread, rfl⟩ := step_compare hstep
      rcases compared_cases s k current start with ⟨hlast, hsame, -⟩ | ⟨-, heq⟩
      · exact absurd hforeign (h.not_foreign_of_read hread hlast hsame)
      · rw [heq]
        rfl
  | landEmpty k | fallEmpty k => exact absurd hforeign (h.checked k hclear)
  | call | land | fall | goOn | refuse | outside => exact hclear.elim

/-! ### Secrets that stay -/

/-- No copy begins, none is made outside, and no empty text gets into the clipboard. -/
def Idle (s : Page) : Event → Prop
  | .call _ _ | .outside _ => False
  | .land k | .fall k true => s.text k ≠ []
  | .fall _ false | .goOn _ | .timer _ _ _ | .answer _ | .refuse _ _ | .compare _ _ | .landEmpty _
  | .fallEmpty _ _ => True

/-- A secret for which no clear is to come. -/
def Stuck (s : Page) : Prop := s.HoldsSecret ∧ ¬ s.Covered

theorem not_covered_setPhase (h : ¬ s.Covered) {p : Phase} (hp : ∀ checked, p ≠ .clearing checked)
    (hlast : k = s.copySequence → ¬ p.Ahead) : ¬ (s.setPhase k p).Covered := by
  rintro (⟨j, checked, hj⟩ | hahead)
  · rw [setPhase_phase] at hj
    split_ifs at hj
    · exact hp checked hj
    · exact h (Or.inl ⟨j, checked, hj⟩)
  · have hahead : ((s.setPhase k p).phase s.copySequence).Ahead := hahead
    rw [setPhase_phase] at hahead
    split_ifs at hahead with hk
    · exact hlast hk.symm hahead
    · exact h (Or.inr hahead)

/-- The call whose clear is still to come is not the last one of a page without such a clear. -/
theorem outdated_of_not_covered (h : ¬ s.Covered) (hahead : (s.phase k).Ahead) : k ≠ s.copySequence :=
  fun hlast => h (Or.inr (hlast ▸ hahead))

/-- The write of an earlier call gets in when no clear is to come. -/
theorem stuck_put (hcovered : ¬ s.Covered) (hwriting : s.phase k = .writing) (hne : s.text k ≠ []) :
    Stuck (s.put k) := by
  have hlast := outdated_of_not_covered hcovered (k := k) (by rw [hwriting]; trivial)
  exact ⟨⟨rfl, hne⟩, not_covered_setPhase (s := { s with content := s.text k, own := true }) hcovered nofun
    fun heq => absurd heq hlast⟩

/-- The last call gives its clear up while a secret needs it. -/
theorem stuck_giveUp {p : Phase} (hlast : k = s.copySequence) (hspares : ¬ s.Spares)
    (hp : ∀ checked, p ≠ .clearing checked) (hahead : ¬ p.Ahead) : Stuck (s.setPhase k p) := by
  obtain ⟨hsecret, hclearing⟩ := Classical.not_imp.mp hspares
  refine ⟨hsecret, ?_⟩
  rintro (⟨j, checked, hj⟩ | hnew)
  · rw [setPhase_phase] at hj
    split_ifs at hj
    · exact hp checked hj
    · exact hclearing ⟨j, checked, hj⟩
  · have hnew : ((s.setPhase k p).phase s.copySequence).Ahead := hnew
    rw [setPhase_phase, if_pos hlast.symm] at hnew
    exact hahead hnew

/-- Every event that breaks the condition leaves a secret without a clear. -/
theorem stuck_of_not_orderly (horderly : ¬ Orderly s e) (hstep : step s e = some s') : Stuck s' := by
  cases e with
  | call text start =>
      cases hstep
      match start with
      | .asked | .fallback true => exact absurd trivial horderly
      | .fallback false =>
          exact stuck_giveUp (s := { s with
            copySequence := s.copySequence + 1
            text := Function.update s.text (s.copySequence + 1) text }) rfl horderly nofun id
  | land k =>
      obtain ⟨hwriting, ⟨⟩⟩ := Option.ite_none_right_eq_some.mp hstep
      obtain ⟨hne, hcovered⟩ := Classical.not_imp.mp horderly
      exact stuck_put hcovered hwriting hne
  | fall k copied =>
      obtain ⟨hwriting, ⟨⟩⟩ := Option.ite_none_right_eq_some.mp hstep
      cases copied with
      | true =>
          obtain ⟨hne, hcovered⟩ := Classical.not_imp.mp horderly
          exact stuck_put hcovered hwriting hne
      | false =>
          obtain ⟨hlast, hspares⟩ := Classical.not_imp.mp horderly
          exact stuck_giveUp hlast hspares nofun id
  | compare k start =>
      obtain ⟨current, hread, rfl⟩ := step_compare hstep
      obtain ⟨hlast, hrest⟩ := Classical.not_imp.mp horderly
      obtain ⟨hdiffers, hspares⟩ := Classical.not_imp.mp hrest
      rcases compared_cases s k current start with ⟨-, hsame, -⟩ | ⟨-, heq⟩
      · exact absurd (hsame ▸ hread) hdiffers
      · rw [heq]
        exact stuck_giveUp hlast hspares nofun id
  | goOn | timer | answer | refuse | landEmpty | fallEmpty | outside => exact absurd trivial horderly

/-- Without a further copy the secret stays. -/
theorem stuck_step (h : Stuck s) (hidle : Idle s e) (hstep : step s e = some s') : Stuck s' := by
  obtain ⟨hsecret, hcovered⟩ := h
  cases e with
  | call | outside => exact hidle.elim
  | land k =>
      obtain ⟨hwriting, ⟨⟩⟩ := Option.ite_none_right_eq_some.mp hstep
      exact stuck_put hcovered hwriting hidle
  | fall k copied =>
      obtain ⟨hwriting, ⟨⟩⟩ := Option.ite_none_right_eq_some.mp hstep
      cases copied with
      | true => exact stuck_put hcovered hwriting hidle
      | false => exact ⟨hsecret, not_covered_setPhase hcovered nofun fun _ => id⟩
  | goOn k =>
      rcases step_goOn hstep with ⟨hwritten, rfl⟩ | ⟨hnot, rfl⟩
      · have hlast := outdated_of_not_covered hcovered (k := k) (by rw [hwritten]; trivial)
        exact ⟨hsecret, not_covered_setPhase (s := { s with lastCopiedText := s.text k }) hcovered nofun
          fun heq => absurd heq hlast⟩
      · exact ⟨hsecret, not_covered_setPhase hcovered nofun fun _ => id⟩
  | timer k readable start =>
      obtain ⟨hwaiting, ⟨⟩⟩ := Option.ite_none_right_eq_some.mp hstep
      have hlast := outdated_of_not_covered hcovered (k := k) (by rw [hwaiting]; trivial)
      rw [Page.timer, if_neg hlast]
      exact ⟨hsecret, not_covered_setPhase hcovered nofun fun heq => absurd heq hlast⟩
  | answer k =>
      obtain ⟨hreading, ⟨⟩⟩ := Option.ite_none_right_eq_some.mp hstep
      have hlast := outdated_of_not_covered hcovered (k := k) (by rw [hreading]; trivial)
      exact ⟨hsecret, not_covered_setPhase hcovered nofun fun heq => absurd heq hlast⟩
  | refuse k start =>
      obtain ⟨hreading, ⟨⟩⟩ := Option.ite_none_right_eq_some.mp hstep
      have hlast := outdated_of_not_covered hcovered (k := k) (by rw [hreading]; trivial)
      rw [Page.refused, if_neg hlast]
      exact ⟨hsecret, not_covered_setPhase hcovered nofun fun heq => absurd heq hlast⟩
  | compare k start =>
      obtain ⟨current, hread, rfl⟩ := step_compare hstep
      have hlast := outdated_of_not_covered hcovered (k := k) (by rw [hread]; trivial)
      rw [Page.compared, if_pos hlast]
      exact ⟨hsecret, not_covered_setPhase hcovered nofun fun heq => absurd heq hlast⟩
  | landEmpty k =>
      obtain ⟨checked, hclearing, -⟩ := step_landEmpty hstep
      exact absurd (Or.inl ⟨k, checked, hclearing⟩) hcovered
  | fallEmpty k copied =>
      obtain ⟨checked, hclearing, -⟩ := step_fallEmpty hstep
      exact absurd (Or.inl ⟨k, checked, hclearing⟩) hcovered

end Steps

/-! ## Runs -/

section Runs
variable {s s' s'' : Page} {e : Event} {events : List Event} {content : JsString}

/-- **Copied secrets are cleared.** When every event of a run is orderly and the writes of the clears succeed, no secret
is in the clipboard once all is quiet. When no copy made outside comes between the read and the write of a clear, no
clear that can read the clipboard changes foreign content. -/
theorem copied_cleared (content : JsString) (events : List Event) (s : Page)
    (h : run step (Clipboard.start content) events = some s) :
    (Along step Orderly (Clipboard.start content) events → (∀ e ∈ events, e.Clears) → s.Quiescent → ¬ s.HoldsSecret) ∧
      (Along step Undisturbed (Clipboard.start content) events →
        ∀ e s', step s e = some s' → OfReadingClear s e → s.Foreign → s'.content = s.content) := by
  constructor
  · intro horderly hclears hquiescent hsecret
    have hclears : Along step (fun _ e => e.Clears) (Clipboard.start content) events :=
      along_iff.mpr fun before e after _ heq _ => hclears e (by simp [heq])
    have hinv : CoverInv s :=
      run_invariant (fun hs hcond hstep => coverInv_step hs hcond.1 hcond.2 hstep) h (horderly.and hclears)
        (coverInv_start content)
    exact not_covered_of_quiescent hquiescent (hinv.covered hsecret)
  · intro hundisturbed e s' hstep hclear hforeign
    have hinv : ReadInv s := run_invariant readInv_step h hundisturbed (readInv_start content)
    exact hinv.content_eq hstep hclear hforeign

/-- An event that is not orderly leaves a secret in the clipboard for as long as no further copy is made. -/
theorem secret_stays (hstep : step s e = some s') (horderly : ¬ Orderly s e) (h : run step s' events = some s'')
    (hidle : Along step Idle s' events) : s''.HoldsSecret :=
  (run_invariant stuck_step h hidle (stuck_of_not_orderly horderly hstep)).1

end Runs

/-- Two copies that overlap, and the timers of both. -/
def overlappingCopies : List Event :=
  [.call (js "a") .asked, .call (js "b") .asked, .land 1, .land 2, .goOn 1, .goOn 2, .timer 1 true .asked,
    .timer 2 true .asked, .answer 2, .compare 2 .asked, .landEmpty 2]

/-- A copy made outside after a copy of the page, and what the clear then reads. -/
def copyThenOutside : List Event :=
  [.call (js "a") .asked, .land 1, .goOn 1, .outside (js "x"), .timer 1 true .asked, .answer 1]

/-- The clear of the later copy empties the clipboard; the copy made outside is left alone. -/
theorem copied_cleared_overlapping :
    (∃ s, run step (start (js "x")) overlappingCopies = some s ∧ ¬ s.HoldsSecret) ∧
      ∃ s s', run step (start []) copyThenOutside = some s ∧ step s (.compare 1 .asked) = some s' ∧
        s'.content = js "x" := by
  constructor
  · refine ⟨_, rfl, (copied_cleared (js "x") overlappingCopies _ rfl).1 ?_ ?_ ?_⟩
    · refine .cons trivial rfl (.cons trivial rfl (.cons (fun _ => Or.inr trivial) rfl
        (.cons (fun _ => Or.inr trivial) rfl (.cons trivial rfl (.cons trivial rfl (.cons trivial rfl
        (.cons trivial rfl (.cons trivial rfl (.cons (fun _ hne => absurd rfl hne) rfl
        (.cons trivial rfl trivial))))))))))
    · simp [overlappingCopies, Event.Clears]
    · intro k
      match k with
      | 0 | 1 | 2 | _ + 3 => trivial
  · refine ⟨_, _, rfl, rfl, ?_⟩
    refine (copied_cleared [] copyThenOutside _ rfl).2 ?_ (.compare 1 .asked) _ rfl trivial ⟨nofun, fun k => ?_⟩
    · refine .cons trivial rfl (.cons trivial rfl (.cons trivial rfl (.cons (fun k => ?_) rfl (.cons trivial rfl
        (.cons trivial rfl trivial)))))
      match k with
      | 0 | 1 | _ + 2 => exact ⟨nofun, fun _ _ => nofun⟩
    · match k with
      | 1 => exact fun _ => by decide
      | 0 | _ + 2 => exact False.elim

/-- A copy that fails outdates the clear of the copy before it, whose secret stays. And a copy made outside between the
read of a clear and its write is cleared. -/
theorem not_copied_cleared_failedCopy :
    (∃ s, run step (start []) [.call (js "a") .asked, .land 1, .goOn 1, .call (js "b") .asked, .fall 2 false, .goOn 2,
        .timer 1 true .asked] = some s ∧ s.Quiescent ∧ s.HoldsSecret ∧ s.content = js "a") ∧
      ∃ s s', run step (start []) [.call (js "a") .asked, .land 1, .goOn 1, .timer 1 true .asked, .answer 1,
        .compare 1 .asked, .outside (js "x")] = some s ∧ step s (.landEmpty 1) = some s' ∧
        OfReadingClear s (.landEmpty 1) ∧ s.Foreign ∧ s'.content ≠ s.content := by
  refine ⟨⟨_, rfl, fun k => ?_, ⟨rfl, nofun⟩, rfl⟩, ⟨_, _, rfl, rfl, rfl, ⟨nofun, fun k => ?_⟩, nofun⟩⟩
  · match k with
    | 0 | 1 | 2 | _ + 3 => trivial
  · match k with
    | 1 => exact fun _ => by decide
    | 0 | _ + 2 => exact False.elim

end SecretsManager.Clipboard
