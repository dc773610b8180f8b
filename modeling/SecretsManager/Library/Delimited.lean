import Mathlib.Data.List.Basic
import Mathlib.Logic.Function.Basic

/-!
# Self-delimiting encodings

An encoding of values by lists of symbols is self-delimiting when a text that starts with an encoding
starts with the encoding of one value only, so that encodings can be written one after the other and
still be told apart. The combinators below build such encodings of tuples and of bracketed, separated
lists, and `Spells` builds them from a symbol-by-symbol reader, the way a quoted string is read back.
-/

namespace SecretsManager.Delimited

variable {A B U : Type}

/-- A text starts with the encoding of at most one value, and the rest of the text is then fixed. -/
def SelfDelimiting (enc : A → List U) : Prop :=
  ∀ ⦃a b : A⦄ ⦃x y : List U⦄, enc a ++ x = enc b ++ y → a = b ∧ x = y

theorem SelfDelimiting.injective {enc : A → List U} (h : SelfDelimiting enc) :
    Function.Injective enc := by
  intro a b hab
  exact (h (x := []) (y := []) (by rw [hab])).1

theorem SelfDelimiting.comp {enc : B → List U} (h : SelfDelimiting enc) {f : A → B}
    (hf : Function.Injective f) : SelfDelimiting (fun a => enc (f a)) := by
  intro a b x y hab
  obtain ⟨hfab, hxy⟩ := h hab
  exact ⟨hf hfab, hxy⟩

/-- A fixed text in front of every encoding. -/
theorem SelfDelimiting.lead {enc : A → List U} (h : SelfDelimiting enc) (pre : List U) :
    SelfDelimiting (fun a => pre ++ enc a) := by
  intro a b x y hab
  rw [List.append_assoc, List.append_assoc] at hab
  exact h (List.append_cancel_left hab)

/-- A fixed text behind every encoding. -/
theorem SelfDelimiting.trail {enc : A → List U} (h : SelfDelimiting enc) (post : List U) :
    SelfDelimiting (fun a => enc a ++ post) := by
  intro a b x y hab
  rw [List.append_assoc, List.append_assoc] at hab
  obtain ⟨rfl, hxy⟩ := h hab
  exact ⟨rfl, List.append_cancel_left hxy⟩

/-- Two encodings with a fixed text between them. -/
theorem SelfDelimiting.pair {encA : A → List U} {encB : B → List U} (hA : SelfDelimiting encA)
    (hB : SelfDelimiting encB) (mid : List U) :
    SelfDelimiting (fun p : A × B => encA p.1 ++ mid ++ encB p.2) := by
  rintro ⟨a, b⟩ ⟨a', b'⟩ x y h
  simp only [List.append_assoc] at h
  obtain ⟨rfl, hrest⟩ := hA h
  obtain ⟨rfl, hxy⟩ := hB (List.append_cancel_left hrest)
  exact ⟨rfl, hxy⟩

/-- The members of a list one after the other, `sep` between two of them and `close` after the last. -/
def sepBy (sep : List U) (close : U) (enc : A → List U) (l : List A) : List U :=
  sep.intercalate (l.map enc) ++ [close]

theorem sepBy_nil (sep : List U) (close : U) (enc : A → List U) : sepBy sep close enc [] = [close] :=
  rfl

theorem sepBy_singleton (sep : List U) (close : U) (enc : A → List U) (a : A) :
    sepBy sep close enc [a] = enc a ++ [close] := by
  simp [sepBy, List.intercalate]

theorem sepBy_cons_cons (sep : List U) (close : U) (enc : A → List U) (a b : A) (l : List A) :
    sepBy sep close enc (a :: b :: l) = enc a ++ (sep ++ sepBy sep close enc (b :: l)) := by
  simp [sepBy, List.intercalate]

/-- The separated list is self-delimiting when `close` starts neither a member nor the separator. -/
theorem SelfDelimiting.sepBy {enc : A → List U} (h : SelfDelimiting enc) {s close : U}
    {sep : List U} (hs : s ≠ close) (hstart : ∀ a, ∃ u v, enc a = u :: v ∧ u ≠ close) :
    SelfDelimiting (Delimited.sepBy (s :: sep) close enc) := by
  intro l
  induction l with
  | nil =>
      intro m x y hlm
      rw [sepBy_nil] at hlm
      match m with
      | [] => exact ⟨rfl, by simpa [sepBy_nil] using hlm⟩
      | [b] =>
          obtain ⟨u, v, hb, hu⟩ := hstart b
          rw [sepBy_singleton, hb] at hlm
          exact absurd (List.cons.inj hlm).1.symm hu
      | b :: b' :: m =>
          obtain ⟨u, v, hb, hu⟩ := hstart b
          rw [sepBy_cons_cons, hb] at hlm
          exact absurd (List.cons.inj hlm).1.symm hu
  | cons a l ih =>
      intro m x y hlm
      match l, m with
      | [], [] =>
          obtain ⟨u, v, ha, hu⟩ := hstart a
          rw [sepBy_singleton, sepBy_nil, ha] at hlm
          exact absurd (List.cons.inj hlm).1 hu
      | _ :: _, [] =>
          obtain ⟨u, v, ha, hu⟩ := hstart a
          rw [sepBy_cons_cons, sepBy_nil, ha] at hlm
          exact absurd (List.cons.inj hlm).1 hu
      | [], [b] =>
          simp only [sepBy_singleton, List.append_assoc] at hlm
          obtain ⟨rfl, hxy⟩ := h hlm
          exact ⟨rfl, List.append_cancel_left hxy⟩
      | [], b :: b' :: m =>
          simp only [sepBy_singleton, sepBy_cons_cons, List.append_assoc] at hlm
          exact absurd (List.cons.inj (h hlm).2).1.symm hs
      | a' :: l, [b] =>
          simp only [sepBy_singleton, sepBy_cons_cons, List.append_assoc] at hlm
          exact absurd (List.cons.inj (h hlm).2).1 hs
      | a' :: l, b :: b' :: m =>
          simp only [sepBy_cons_cons, List.append_assoc] at hlm
          obtain ⟨rfl, hrest⟩ := h hlm
          obtain ⟨hl, hxy⟩ := ih (List.append_cancel_left hrest)
          exact ⟨by rw [hl], hxy⟩

/-! ## Texts read symbol by symbol -/

section Reader
variable (read : List U → Option (A × List U))

/-- `Spells read l w`: the text `w` is read back as the values `l`, whatever follows it. -/
inductive Spells : List A → List U → Prop
  | nil : Spells [] []
  | cons {a : A} {l : List A} {v w : List U} (hread : ∀ x, read (v ++ x) = some (a, x))
      (htail : Spells l w) : Spells (a :: l) (v ++ w)

/-- Two spelled texts, closed by a symbol that the reader refuses, are told apart. -/
theorem Spells.closed {read : List U → Option (A × List U)} {close : U}
    (hclose : ∀ x, read (close :: x) = none) {l m : List A} {v w : List U} (hl : Spells read l v)
    (hm : Spells read m w) {x y : List U} (h : v ++ close :: x = w ++ close :: y) :
    l = m ∧ x = y := by
  induction hl generalizing m w with
  | nil =>
      cases hm with
      | nil => exact ⟨rfl, (List.cons.inj h).2⟩
      | @cons b m v' w' hread htail =>
          have hb := hread (w' ++ close :: y)
          rw [← List.append_assoc, ← h, List.nil_append, hclose] at hb
          cases hb
  | @cons a l v₁ v₂ hread htail ih =>
      have ha := hread (v₂ ++ close :: x)
      rw [← List.append_assoc, h] at ha
      cases hm with
      | nil =>
          rw [List.nil_append, hclose] at ha
          cases ha
      | @cons b m w₁ w₂ hread' htail' =>
          rw [List.append_assoc, hread', Option.some.injEq, Prod.mk.injEq] at ha
          obtain ⟨rfl, hrest⟩ := ha
          obtain ⟨rfl, hxy⟩ := ih htail' hrest.symm
          exact ⟨rfl, hxy⟩

/-- Every value that is read takes some of the text. -/
def Shrinks : Prop := ∀ ⦃s : List U⦄ ⦃r : A × List U⦄, read s = some r → r.2.length < s.length

theorem Spells.length_le {read : List U → Option (A × List U)} (hread : Shrinks read) {l : List A} {w : List U}
    (h : Spells read l w) : l.length ≤ w.length := by
  induction h with
  | nil => exact Nat.le_refl _
  | @cons a l v w hv htail ih =>
      have hlt : w.length < (v ++ w).length := hread (hv w)
      rw [List.length_append] at hlt ⊢
      rw [List.length_cons]
      omega

variable [DecidableEq U] (close : U)

/-- Reads values up to the closing symbol, fewer than `n` of them. -/
def readClosed : Nat → List U → Option (List A × List U)
  | 0, _ => none
  | n + 1, s =>
      if s.head? = some close then some ([], s.tail)
      else (read s).bind fun r => (readClosed n r.2).map fun l => (r.1 :: l.1, l.2)

variable {read close}

/-- A spelled text is read up to its closing symbol. -/
theorem Spells.readClosed (hclose : ∀ x, read (close :: x) = none) {l : List A} {w : List U} (h : Spells read l w)
    {n : Nat} (hn : l.length < n) (x : List U) : Delimited.readClosed read close n (w ++ close :: x) = some (l, x) := by
  induction h generalizing n with
  | nil =>
      obtain ⟨n, rfl⟩ : ∃ m, n = m + 1 := ⟨n - 1, by omega⟩
      exact if_pos rfl
  | @cons a l v w hread htail ih =>
      rw [List.length_cons] at hn
      obtain ⟨n, rfl⟩ : ∃ m, n = m + 1 := ⟨n - 1, by omega⟩
      have hfirst := hread (w ++ close :: x)
      rw [List.append_assoc]
      have hhead : (v ++ (w ++ close :: x)).head? ≠ some close := by
        intro hhead
        obtain ⟨rest, hrest⟩ := List.head?_eq_some_iff.mp hhead
        rw [hrest, hclose] at hfirst
        cases hfirst
      rw [Delimited.readClosed, if_neg hhead, hfirst, Option.bind_some, ih (by omega)]
      rfl

theorem shrinks_readClosed (hread : Shrinks read) (n : Nat) : Shrinks (Delimited.readClosed read close n) := by
  induction n with
  | zero =>
      intro s r h
      cases h
  | succ n ih =>
      intro s r h
      rw [Delimited.readClosed] at h
      split_ifs at h with hhead
      · obtain ⟨rest, rfl⟩ := List.head?_eq_some_iff.mp hhead
        cases h
        exact Nat.lt_succ_self _
      · obtain ⟨first, hfirst, h⟩ := Option.bind_eq_some_iff.mp h
        obtain ⟨l, hl, rfl⟩ := Option.map_eq_some_iff.mp h
        have hrest : l.2.length < first.2.length := ih hl
        exact Nat.lt_trans hrest (hread hfirst)

end Reader

end SecretsManager.Delimited
