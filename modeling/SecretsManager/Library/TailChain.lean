import Mathlib.Logic.Function.Basic
import Mathlib.Tactic.SplitIfs

/-!
# Chains of calls by their tails

Calls come under keys. A call waits for the tail of the last call of its key, when the key has an entry whose tail
is not drained yet, and goes at once otherwise; it is then the entry of its key. A drained tail lets the call
behind it go, and takes the entry away later, unless a newer call has replaced it (`TailChain.Linked`).
-/

namespace SecretsManager

inductive ChainMode where
  | unmade
  | waiting (previous : Nat)
  | active
  | drained
  | cleaned
  deriving DecidableEq

namespace ChainMode

/-- The tail is not drained yet. -/
def isOpen : ChainMode → Bool
  | .waiting _ => true
  | .active => true
  | _ => false

/-- The call waits for none before it. -/
def isFree : ChainMode → Bool
  | .active => true
  | .drained => true
  | .cleaned => true
  | _ => false

def isDrained : ChainMode → Bool
  | .drained => true
  | .cleaned => true
  | _ => false

end ChainMode

/-- The calls by their numbers, with the call that waits for each, and the entry of every key. -/
structure TailChain (κ : Type) where
  made : Nat
  key : Nat → κ
  mode : Nat → ChainMode
  next : Nat → Option Nat
  entry : κ → Option Nat

namespace TailChain

variable {κ : Type}

def empty (key : Nat → κ) : TailChain κ := ⟨0, key, fun _ => .unmade, fun _ => none, fun _ => none⟩

/-- The open call that a new call of the key waits for. -/
def previous (c : TailChain κ) (key : κ) : Option Nat := (c.entry key).filter fun k => (c.mode k).isOpen

section Operations
variable [DecidableEq κ]

def call (c : TailChain κ) (key : κ) : TailChain κ where
  made := c.made + 1
  key := Function.update c.key c.made key
  mode := Function.update c.mode c.made (match c.previous key with | some k => .waiting k | none => .active)
  next := match c.previous key with | some k => Function.update c.next k (some c.made) | none => c.next
  entry := Function.update c.entry key (some c.made)

def drain (c : TailChain κ) (k : Nat) : TailChain κ :=
  { c with
    mode := match c.next k with
      | some j => Function.update (Function.update c.mode k .drained) j .active
      | none => Function.update c.mode k .drained }

def clean (c : TailChain κ) (k : Nat) : TailChain κ :=
  { c with
    mode := Function.update c.mode k .cleaned
    entry := if c.entry (c.key k) = some k then Function.update c.entry (c.key k) none else c.entry }

end Operations

/-! ## The invariant -/

/-- A waiting call is next to the last call before it of its key, all calls before a free one are drained, and the
entry of a key is its last call, until that is cleaned up. -/
structure Linked (c : TailChain κ) : Prop where
  made : ∀ k, c.mode k = .unmade ↔ c.made ≤ k
  next : ∀ j k, c.next j = some k → j < k ∧ k < c.made ∧ ((c.mode j).isOpen = true → c.mode k = .waiting j)
  waiting : ∀ j k, c.mode k = .waiting j → c.next j = some k ∧ (c.mode j).isOpen = true ∧ j < k ∧ c.key j = c.key k ∧
    ∀ i < k, c.key i = c.key k → i ≤ j
  free : ∀ j k, j < k → c.key j = c.key k → (c.mode k).isFree = true → (c.mode j).isDrained = true
  entry : ∀ key k, c.entry key = some k → c.key k = key ∧ k < c.made ∧ c.mode k ≠ .cleaned ∧
    ∀ j < c.made, c.key j = key → j ≤ k
  noEntry : ∀ key, c.entry key = none → ∀ k < c.made, c.key k = key → (c.mode k).isDrained = true

variable {c : TailChain κ} {key : κ} {k : Nat}

theorem linked_empty (key : Nat → κ) : Linked (empty key) where
  made k := iff_of_true rfl (Nat.zero_le k)
  next j k h := by cases h
  waiting j k h := by cases h
  free j k _ _ h := by cases h
  entry key k h := by cases h
  noEntry key _ k h := absurd h (Nat.not_lt_zero k)

theorem Linked.lt_made (h : Linked c) (hk : c.mode k ≠ .unmade) : k < c.made :=
  Nat.lt_of_not_le fun hle => hk ((h.made k).mpr hle)

theorem previous_eq_some : c.previous key = some k ↔ c.entry key = some k ∧ (c.mode k).isOpen = true :=
  Option.filter_eq_some_iff

theorem isDrained_of_not_isOpen {mode : ChainMode} (hmade : mode ≠ .unmade) (h : mode.isOpen = false) :
    mode.isDrained = true := by
  cases mode with
  | unmade => exact absurd rfl hmade
  | waiting _ | active => cases h
  | drained | cleaned => rfl

/-- When no call of the key is open, all of its calls are drained. -/
theorem Linked.drained_of_previous (h : Linked c) (hnone : c.previous key = none) {j : Nat} (hj : j < c.made)
    (hkey : c.key j = key) : (c.mode j).isDrained = true := by
  cases hentry : c.entry key with
  | none => exact h.noEntry key hentry j hj hkey
  | some k =>
      obtain ⟨hkeyk, hk, -, hlast⟩ := h.entry key k hentry
      have hclosed : (c.mode k).isOpen = false := by
        rw [← Bool.not_eq_true]
        intro hopen
        rw [previous_eq_some.mpr ⟨hentry, hopen⟩] at hnone
        cases hnone
      have hmade : c.mode k ≠ .unmade := fun hunmade => absurd ((h.made k).mp hunmade) (Nat.not_le_of_lt hk)
      have hdrained := isDrained_of_not_isOpen hmade hclosed
      rcases Nat.lt_or_eq_of_le (hlast j hj hkey) with hlt | rfl
      · refine h.free j k hlt (hkey.trans hkeyk.symm) ?_
        cases hmode : c.mode k with
        | unmade | waiting _ | active =>
            rw [hmode] at hdrained
            cases hdrained
        | drained | cleaned => rfl
      · exact hdrained

/-- The last call of a key has none behind it. -/
theorem Linked.next_of_entry (h : Linked c) (hentry : c.entry key = some k) (hopen : (c.mode k).isOpen = true) :
    c.next k = none := by
  obtain ⟨hkey, -, -, hlast⟩ := h.entry key k hentry
  by_contra hne
  obtain ⟨j, hj⟩ := Option.ne_none_iff_exists'.mp hne
  obtain ⟨hlt, hmade, hwaits⟩ := h.next k j hj
  have hkeyj := (h.waiting k j (hwaits hopen)).2.2.2.1
  exact absurd hlt (Nat.not_lt_of_le (hlast j hmade (hkeyj.symm.trans hkey)))

theorem mode_drain (c : TailChain κ) (k i : Nat) : (c.drain k).mode i =
    if c.next k = some i then .active else if i = k then .drained else c.mode i := by
  unfold TailChain.drain
  cases hnext : c.next k with
  | none =>
      by_cases hi : i = k
      · subst hi
        simp
      · simp [hi]
  | some j =>
      by_cases hij : i = j
      · subst hij
        simp
      · by_cases hi : i = k
        · subst hi
          simp [hij, Ne.symm hij]
        · simp [hij, hi, Ne.symm hij]

/-- The call behind a drained one is free. -/
theorem Linked.drain (h : Linked c) (hactive : c.mode k = .active) : Linked (c.drain k) := by
  have hkmade : k < c.made := h.lt_made (by rw [hactive]; nofun)
  -- the call behind it
  have hbehind : ∀ j, c.next k = some j → c.mode j = .waiting k ∧ k < j ∧ j < c.made := fun j hj => by
    obtain ⟨hlt, hmade, hwaits⟩ := h.next k j hj
    exact ⟨hwaits (by rw [hactive]; rfl), hlt, hmade⟩
  have hmode := mode_drain c k
  have hself : (c.drain k).mode k = .drained := by
    rw [hmode, if_neg, if_pos rfl]
    exact fun hnext => absurd (hbehind k hnext).2.1 (Nat.lt_irrefl k)
  have hkept : ∀ i, c.next k ≠ some i → i ≠ k → (c.drain k).mode i = c.mode i := fun i hi hik => by
    rw [hmode, if_neg hi, if_neg hik]
  have hdrained : ∀ i, (c.mode i).isDrained = true → ((c.drain k).mode i).isDrained = true := fun i hi => by
    by_cases hik : i = k
    · rw [hik, hself]
      rfl
    · rw [hkept i (fun hnext => ?_) hik]
      · exact hi
      · rw [(hbehind i hnext).1] at hi
        cases hi
  have hopen : ∀ i, i ≠ k → ((c.drain k).mode i).isOpen = (c.mode i).isOpen := fun i hik => by
    by_cases hnext : c.next k = some i
    · rw [hmode, if_pos hnext, (hbehind i hnext).1]
      rfl
    · rw [hkept i hnext hik]
  refine ⟨fun i => ?_, fun j i hnext => ?_, fun j i hwaiting => ?_, fun j i hlt hkey hfree => ?_,
    fun key i hentry => ?_, fun key hentry i hi hkey => ?_⟩
  · show (c.drain k).mode i = .unmade ↔ c.made ≤ i
    rw [← h.made i, hmode]
    split_ifs with hnext hik
    · rw [(hbehind i hnext).1]
      exact ⟨nofun, nofun⟩
    · rw [hik, hactive]
      exact ⟨nofun, nofun⟩
    · exact Iff.rfl
  · obtain ⟨hlt, hi, hwaits⟩ := h.next j i hnext
    refine ⟨hlt, hi, fun hopenj => ?_⟩
    have hjk : j ≠ k := by
      rintro rfl
      rw [hself] at hopenj
      cases hopenj
    have hwaiting := hwaits ((hopen j hjk).symm.trans hopenj)
    have hik : i ≠ k := by
      rintro rfl
      rw [hactive] at hwaiting
      cases hwaiting
    rw [hkept i (fun hki => ?_) hik]
    · exact hwaiting
    · rw [(hbehind i hki).1] at hwaiting
      cases hwaiting
      exact hjk rfl
  · have hki : c.next k ≠ some i := fun hki => by
      rw [hmode, if_pos hki] at hwaiting
      cases hwaiting
    have hik : i ≠ k := by
      rintro rfl
      rw [hself] at hwaiting
      cases hwaiting
    rw [hkept i hki hik] at hwaiting
    obtain ⟨hnext, hopenj, hrest⟩ := h.waiting j i hwaiting
    have hjk : j ≠ k := by
      rintro rfl
      exact hki hnext
    exact ⟨hnext, (hopen j hjk).trans hopenj, hrest⟩
  · by_cases hki : c.next k = some i
    · obtain ⟨-, -, -, hkeyk, hlast⟩ := h.waiting k i (hbehind i hki).1
      have hjk : j ≤ k := hlast j hlt hkey
      rcases Nat.lt_or_eq_of_le hjk with hjk | rfl
      · exact hdrained j (h.free j k hjk (Eq.trans hkey hkeyk.symm) (by rw [hactive]; rfl))
      · rw [hself]
        rfl
    · by_cases hik : i = k
      · subst hik
        exact hdrained j (h.free j i hlt hkey (by rw [hactive]; rfl))
      · rw [hkept i hki hik] at hfree
        exact hdrained j (h.free j i hlt hkey hfree)
  · obtain ⟨hkey, hi, hclean, hlast⟩ := h.entry key i hentry
    refine ⟨hkey, hi, ?_, hlast⟩
    rw [hmode]
    split_ifs
    · nofun
    · nofun
    · exact hclean
  · exact hdrained i (h.noEntry key hentry i hi hkey)

/-- No call is behind one that is not made. -/
theorem Linked.next_made (h : Linked c) : c.next c.made = none := by
  by_contra hne
  obtain ⟨j, hj⟩ := Option.ne_none_iff_exists'.mp hne
  obtain ⟨hlt, hmade, -⟩ := h.next _ j hj
  omega

variable [DecidableEq κ]

theorem key_call_self (c : TailChain κ) (key : κ) : (c.call key).key c.made = key := Function.update_self ..

theorem key_call_of_ne {i : Nat} (hi : i ≠ c.made) (key : κ) : (c.call key).key i = c.key i :=
  Function.update_of_ne hi ..

theorem mode_call_self (c : TailChain κ) (key : κ) : (c.call key).mode c.made =
    match c.previous key with | some k => .waiting k | none => .active := Function.update_self ..

theorem mode_call_of_ne {i : Nat} (hi : i ≠ c.made) (key : κ) : (c.call key).mode i = c.mode i :=
  Function.update_of_ne hi ..

theorem next_call (c : TailChain κ) (key : κ) (i : Nat) :
    (c.call key).next i = if c.previous key = some i then some c.made else c.next i := by
  unfold TailChain.call
  cases hprevious : c.previous key with
  | none => rw [if_neg nofun]
  | some k =>
      dsimp only
      by_cases hi : i = k
      · rw [hi, Function.update_self, if_pos rfl]
      · rw [Function.update_of_ne hi, if_neg fun heq => hi (Option.some.inj heq).symm]

theorem entry_call (c : TailChain κ) (key : κ) : (c.call key).entry = Function.update c.entry key (some c.made) := rfl

theorem Linked.call (h : Linked c) (key : κ) : Linked (c.call key) := by
  -- the modes and keys of the old calls stay
  have hold : ∀ {i}, i < c.made → (c.call key).mode i = c.mode i ∧ (c.call key).key i = c.key i := fun hi =>
    ⟨mode_call_of_ne (Nat.ne_of_lt hi) key, key_call_of_ne (Nat.ne_of_lt hi) key⟩
  have hnewKey := key_call_self c key
  have hnewMode := mode_call_self c key
  have hnewOpen : ((c.call key).mode c.made).isOpen = true := by
    rw [hnewMode]
    cases c.previous key <;> rfl
  have hunmade : ∀ {i}, c.made + 1 ≤ i → (c.call key).mode i = .unmade := fun {i} hi => by
    have hne : i ≠ c.made := by omega
    exact (mode_call_of_ne hne key).trans ((h.made i).mpr (by omega))
  have hcases : ∀ i, i < c.made ∨ i = c.made ∨ c.made + 1 ≤ i := fun i => by omega
  refine ⟨fun k => ?_, fun j k hnext => ?_, fun j k hwaiting => ?_, fun j k hlt hkey hfree => ?_,
    fun key' k hentry => ?_, fun key' hentry k hk hkey => ?_⟩
  · rcases hcases k with hk | rfl | hk
    · rw [(hold hk).1, h.made]
      exact iff_of_false (Nat.not_le_of_lt hk) (Nat.not_le_of_lt (Nat.lt_succ_of_lt hk))
    · refine iff_of_false (fun hun => ?_) (Nat.not_succ_le_self _)
      rw [hun] at hnewOpen
      cases hnewOpen
    · exact iff_of_true (hunmade hk) hk
  · have hkept : c.next j = some k → j < k ∧ k < c.made + 1 ∧
        (((c.call key).mode j).isOpen = true → (c.call key).mode k = .waiting j) := by
      intro hjk
      obtain ⟨hlt, hk, hwaits⟩ := h.next j k hjk
      rw [(hold (Nat.lt_trans hlt hk)).1, (hold hk).1]
      exact ⟨hlt, Nat.lt_succ_of_lt hk, hwaits⟩
    rw [next_call] at hnext
    split_ifs at hnext with hprevious
    · cases hnext
      refine ⟨(h.entry key j (previous_eq_some.mp hprevious).1).2.1, Nat.lt_succ_self _, fun _ => ?_⟩
      rw [hnewMode, hprevious]
    · exact hkept hnext
  · rcases hcases k with hk | rfl | hk
    · rw [(hold hk).1] at hwaiting
      obtain ⟨hnext, hopen, hlt, hkey, hlast⟩ := h.waiting j k hwaiting
      have hj := Nat.lt_trans hlt hk
      rw [(hold hj).1, (hold hj).2, (hold hk).2]
      refine ⟨?_, hopen, hlt, hkey, fun i hi hik => hlast i hi ((hold (Nat.lt_trans hi hk)).2.symm.trans hik)⟩
      rw [next_call, if_neg fun hprevious => ?_]
      · exact hnext
      · obtain ⟨hentry, hopen₀⟩ := previous_eq_some.mp hprevious
        rw [h.next_of_entry hentry hopen₀] at hnext
        cases hnext
    · rw [hnewMode] at hwaiting
      cases hprevious : c.previous key with
      | none =>
          rw [hprevious] at hwaiting
          cases hwaiting
      | some k₀ =>
          rw [hprevious] at hwaiting
          cases hwaiting
          obtain ⟨hentry, hopen⟩ := previous_eq_some.mp hprevious
          obtain ⟨hkey, hj, -, hlast⟩ := h.entry key j hentry
          rw [(hold hj).1, (hold hj).2, hnewKey]
          refine ⟨?_, hopen, hj, hkey, fun i hi hik => hlast i hi ((hold hi).2.symm.trans hik)⟩
          rw [next_call, if_pos hprevious]
    · rw [hunmade hk] at hwaiting
      cases hwaiting
  · rcases hcases k with hk | rfl | hk
    · have hj := Nat.lt_trans hlt hk
      rw [(hold hj).2, (hold hk).2] at hkey
      rw [(hold hk).1] at hfree
      rw [(hold hj).1]
      exact h.free j k hlt hkey hfree
    · rw [(hold hlt).2, hnewKey] at hkey
      rw [hnewMode] at hfree
      rw [(hold hlt).1]
      cases hprevious : c.previous key with
      | none => exact h.drained_of_previous hprevious hlt hkey
      | some k₀ =>
          rw [hprevious] at hfree
          cases hfree
    · rw [hunmade hk] at hfree
      cases hfree
  · by_cases hkey : key' = key
    · subst hkey
      rw [entry_call, Function.update_self] at hentry
      cases hentry
      refine ⟨hnewKey, Nat.lt_succ_self _, fun hclean => ?_, fun j hj _ => Nat.le_of_lt_succ hj⟩
      rw [hclean] at hnewOpen
      cases hnewOpen
    · rw [entry_call, Function.update_of_ne hkey] at hentry
      obtain ⟨hkeyk, hk, hclean, hlast⟩ := h.entry key' k hentry
      rw [(hold hk).1, (hold hk).2]
      refine ⟨hkeyk, Nat.lt_succ_of_lt hk, hclean, fun j hj hkeyj => ?_⟩
      rcases hcases j with hj' | rfl | hj'
      · exact hlast j hj' ((hold hj').2.symm.trans hkeyj)
      · exact absurd (hkeyj.symm.trans hnewKey) hkey
      · exact absurd hj (Nat.not_lt_of_le hj')
  · by_cases hkey' : key' = key
    · subst hkey'
      rw [entry_call, Function.update_self] at hentry
      cases hentry
    · rw [entry_call, Function.update_of_ne hkey'] at hentry
      rcases hcases k with hk' | rfl | hk'
      · rw [(hold hk').1]
        exact h.noEntry key' hentry k hk' ((hold hk').2.symm.trans hkey)
      · exact absurd (hkey.symm.trans hnewKey) hkey'
      · exact absurd hk (Nat.not_lt_of_le hk')

theorem Linked.clean (h : Linked c) (hk : c.mode k = .drained) : Linked (c.clean k) := by
  have hkmade : k < c.made := h.lt_made (by rw [hk]; nofun)
  have hself : (c.clean k).mode k = .cleaned := Function.update_self ..
  have hkept : ∀ i, i ≠ k → (c.clean k).mode i = c.mode i := fun i hi => Function.update_of_ne hi ..
  have hdrained : ∀ i, (c.mode i).isDrained = true → ((c.clean k).mode i).isDrained = true := fun i hi => by
    by_cases hik : i = k
    · rw [hik, hself]
      rfl
    · rw [hkept i hik]
      exact hi
  have hopen : ∀ i, ((c.clean k).mode i).isOpen = (c.mode i).isOpen := fun i => by
    by_cases hik : i = k
    · rw [hik, hself, hk]
      rfl
    · rw [hkept i hik]
  have hwaiting : ∀ i j, (c.clean k).mode i = .waiting j ↔ c.mode i = .waiting j := fun i j => by
    by_cases hik : i = k
    · rw [hik, hself, hk]
      exact ⟨nofun, nofun⟩
    · rw [hkept i hik]
  have hentry : (c.clean k).entry =
      if c.entry (c.key k) = some k then Function.update c.entry (c.key k) none else c.entry := rfl
  refine ⟨fun i => ?_, fun j i hnext => ?_, fun j i hwaits => ?_, fun j i hlt hkey hfree => ?_,
    fun key i hin => ?_, fun key hnone i hi hkey => ?_⟩
  · by_cases hik : i = k
    · rw [hik, hself]
      exact iff_of_false nofun (Nat.not_le_of_lt hkmade)
    · rw [hkept i hik]
      exact h.made i
  · obtain ⟨hlt, hi, hwaits⟩ := h.next j i hnext
    exact ⟨hlt, hi, fun hopenj => (hwaiting i j).mpr (hwaits ((hopen j).symm.trans hopenj))⟩
  · obtain ⟨hnext, hopenj, hrest⟩ := h.waiting j i ((hwaiting i j).mp hwaits)
    exact ⟨hnext, (hopen j).trans hopenj, hrest⟩
  · refine hdrained j (h.free j i hlt hkey ?_)
    by_cases hik : i = k
    · rw [hik, hk]
      rfl
    · rw [hkept i hik] at hfree
      exact hfree
  · have hold : c.entry key = some i ∧ i ≠ k := by
      rw [hentry] at hin
      split_ifs at hin with hself'
      · by_cases hkey : key = c.key k
        · subst hkey
          rw [Function.update_self] at hin
          cases hin
        · rw [Function.update_of_ne hkey] at hin
          refine ⟨hin, ?_⟩
          rintro rfl
          exact hkey (h.entry key i hin).1.symm
      · refine ⟨hin, ?_⟩
        rintro rfl
        rw [(h.entry key i hin).1] at hself'
        exact hself' hin
    obtain ⟨hkey, hi, hclean, hlast⟩ := h.entry key i hold.1
    exact ⟨hkey, hi, by rw [hkept i hold.2]; exact hclean, hlast⟩
  · rw [hentry] at hnone
    split_ifs at hnone with hself'
    · by_cases hkey' : key = c.key k
      · -- the last call of the key is drained, and so are all before it
        subst hkey'
        rcases Nat.lt_or_eq_of_le ((h.entry _ k hself').2.2.2 i hi hkey) with hlt | rfl
        · exact hdrained i (h.free i k hlt hkey (by rw [hk]; rfl))
        · rw [hself]
          rfl
      · rw [Function.update_of_ne hkey'] at hnone
        exact hdrained i (h.noEntry key hnone i hi hkey)
    · exact hdrained i (h.noEntry key hnone i hi hkey)

end TailChain

end SecretsManager
