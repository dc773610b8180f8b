import Mathlib.Algebra.GroupWithZero.Nat
import Mathlib.Data.List.DropRight
import Mathlib.Data.List.Lex
import Mathlib.Order.Fin.Basic

/-!
# JavaScript strings

A JavaScript string is a sequence of UTF-16 code units, with surrogates that may or may not be paired.
Comparison (`<`, `sort`), `length`, `trim` and regular expressions without the `u` flag work on the
units; only `for (const c of s)` walks over code points.
-/

namespace SecretsManager

/-- A UTF-16 code unit. -/
abbrev CodeUnit := Fin 65536

/-- A JavaScript string. `<` is the order of its relational operators: unit by unit. -/
abbrev JsString := List CodeUnit

instance instNeZeroCodeUnits : NeZero 65536 := ⟨by decide⟩

instance instLawfulBEqJsString : LawfulBEq JsString := inferInstance

namespace Js

/-- The UTF-16 encoding of a code point. -/
def unitsOfChar (c : Char) : JsString :=
  let n := c.toNat
  if n < 0x10000 then [Fin.ofNat 65536 n]
  else [Fin.ofNat 65536 (0xd800 + (n - 0x10000) / 0x400), Fin.ofNat 65536 (0xdc00 + (n - 0x10000) % 0x400)]

/-- A string literal of the source. -/
def js (s : String) : JsString := s.toList.flatMap unitsOfChar

/-- The code unit of a character literal below `U+10000`. -/
def unit (c : Char) : CodeUnit := Fin.ofNat 65536 c.toNat

/-! ## White space and `trim` -/

/-- `WhiteSpace` and `LineTerminator` of the language: what `trim` removes. -/
def isWhiteSpace (c : CodeUnit) : Bool :=
  let n := c.val
  (9 ≤ n && n ≤ 13) || n == 0x20 || n == 0xa0 || n == 0x1680 || (0x2000 ≤ n && n ≤ 0x200a) ||
    n == 0x2028 || n == 0x2029 || n == 0x202f || n == 0x205f || n == 0x3000 || n == 0xfeff

def trimStart (s : JsString) : JsString := s.dropWhile isWhiteSpace

def trimEnd (s : JsString) : JsString := (s.reverse.dropWhile isWhiteSpace).reverse

def trim (s : JsString) : JsString := trimEnd (trimStart s)

/-- The string neither starts nor ends with white space. -/
def Trimmed (s : JsString) : Prop :=
  (∀ c ∈ s.head?, isWhiteSpace c = false) ∧ ∀ c ∈ s.getLast?, isWhiteSpace c = false

instance (s : JsString) : Decidable (Trimmed s) := inferInstanceAs (Decidable (_ ∧ _))

theorem dropWhile_eq_self_iff (p : CodeUnit → Bool) (s : JsString) :
    s.dropWhile p = s ↔ ∀ c ∈ s.head?, p c = false := by
  cases s with
  | nil => simp
  | cons c s =>
      cases hc : p c with
      | false => simp [hc]
      | true =>
          simp only [List.dropWhile_cons, hc, if_true, List.head?_cons, Option.mem_some_iff,
            forall_eq', Bool.true_eq_false, iff_false]
          intro h
          have hle := (List.dropWhile_suffix p (l := s)).length_le
          rw [h, List.length_cons] at hle
          omega

theorem trimStart_eq_self_iff (s : JsString) :
    trimStart s = s ↔ ∀ c ∈ s.head?, isWhiteSpace c = false :=
  dropWhile_eq_self_iff _ s

theorem trimEnd_eq_self_iff (s : JsString) :
    trimEnd s = s ↔ ∀ c ∈ s.getLast?, isWhiteSpace c = false := by
  rw [trimEnd, List.reverse_eq_iff, dropWhile_eq_self_iff, List.head?_reverse]

theorem trimStart_length_le (s : JsString) : (trimStart s).length ≤ s.length :=
  (List.dropWhile_suffix _).length_le

theorem trimEnd_length_le (s : JsString) : (trimEnd s).length ≤ s.length := by
  have h := (List.dropWhile_suffix isWhiteSpace (l := s.reverse)).length_le
  simpa [trimEnd] using h

/-- `trim` keeps exactly the strings without white space at either end. -/
theorem trim_eq_self_iff (s : JsString) : trim s = s ↔ Trimmed s := by
  constructor
  · intro h
    have hstart : trimStart s = s := by
      refine (List.dropWhile_suffix _).eq_of_length (le_antisymm (trimStart_length_le s) ?_)
      have := trimEnd_length_le (trimStart s)
      rw [← trim, h] at this
      exact this
    rw [trim, hstart] at h
    exact ⟨(trimStart_eq_self_iff s).mp hstart, (trimEnd_eq_self_iff s).mp h⟩
  · intro h
    rw [trim, (trimStart_eq_self_iff s).mpr h.1, (trimEnd_eq_self_iff s).mpr h.2]

/-- Only what follows the last other character can be trimmed at the end. -/
theorem trimEnd_append_cons (s : JsString) {c : CodeUnit} (hc : isWhiteSpace c = false) (v : JsString) :
    trimEnd (s ++ c :: v) = s ++ c :: trimEnd v := by
  have hstop : (c :: s.reverse).dropWhile isWhiteSpace = c :: s.reverse := by
    rw [List.dropWhile_cons, hc]
    rfl
  have hdrop : (v.reverse ++ c :: s.reverse).dropWhile isWhiteSpace =
      v.reverse.dropWhile isWhiteSpace ++ c :: s.reverse := by
    rw [List.dropWhile_append]
    split_ifs with hnil
    · rw [hstop, List.isEmpty_iff.mp hnil, List.nil_append]
    · rfl
  rw [trimEnd, List.reverse_append, List.reverse_cons, List.append_assoc, List.singleton_append, hdrop,
    List.reverse_append, List.reverse_cons, List.reverse_reverse, List.append_assoc,
    List.singleton_append]
  rfl

theorem trimEnd_trimEnd (s : JsString) : trimEnd (trimEnd s) = trimEnd s := by
  rw [trimEnd, trimEnd, List.reverse_reverse, List.dropWhile_idempotent]

theorem trim_cons {c : CodeUnit} (hc : isWhiteSpace c = false) (s : JsString) :
    trim (c :: s) = c :: trimEnd s := by
  have hstart : trimStart (c :: s) = c :: s := (trimStart_eq_self_iff _).mpr (by simpa using hc)
  rw [trim, hstart]
  exact trimEnd_append_cons [] hc s

/-- Trimming the end first changes nothing. -/
theorem trim_trimEnd (s : JsString) : trim (trimEnd s) = trim s := by
  have hsplit : s = s.takeWhile isWhiteSpace ++ trimStart s := List.takeWhile_append_dropWhile.symm
  have hws : ∀ c ∈ s.takeWhile isWhiteSpace, isWhiteSpace c = true := fun c hc =>
    List.mem_takeWhile_imp hc
  cases hrest : trimStart s with
  | nil =>
      have hall : ∀ c ∈ s.reverse, isWhiteSpace c = true := by
        intro c hc
        rw [hsplit, hrest, List.append_nil] at hc
        exact hws c (List.mem_reverse.mp hc)
      have hnil : trimEnd s = [] := by
        rw [trimEnd, List.dropWhile_eq_nil_iff.mpr hall, List.reverse_nil]
      rw [hnil, trim, trim, hrest]
      rfl
  | cons c r =>
      have hc : isWhiteSpace c = false := by
        have hself : trimStart (c :: r) = c :: r := by
          rw [← hrest, trimStart, trimStart, List.dropWhile_idempotent]
        simpa using (trimStart_eq_self_iff _).mp hself
      have hend : trimEnd s = s.takeWhile isWhiteSpace ++ c :: trimEnd r := by
        rw [hrest] at hsplit
        conv_lhs => rw [hsplit]
        exact trimEnd_append_cons _ hc r
      have hstart : trimStart (trimEnd s) = c :: trimEnd r := by
        rw [hend, trimStart, List.dropWhile_append_of_pos hws, List.dropWhile_cons, hc]
        rfl
      rw [trim, hstart, trim, hrest, ← List.nil_append (c :: trimEnd r), trimEnd_append_cons [] hc,
        trimEnd_trimEnd, ← List.nil_append (c :: r), trimEnd_append_cons [] hc]

theorem trim_trim (s : JsString) : trim (trim s) = trim s := by
  have hstart : trim (trimStart s) = trim s := by rw [trim, trimStart, trimStart, List.dropWhile_idempotent]; rfl
  conv_lhs => rw [trim.eq_def s]
  rw [trim_trimEnd, hstart]

/-! ## Searching -/

def startsWith (s pre : JsString) : Bool := pre.isPrefixOf s

def endsWith (s suf : JsString) : Bool := suf.reverse.isPrefixOf s.reverse

def includes (s sub : JsString) : Bool := s.tails.any (startsWith · sub)

@[simp] theorem startsWith_iff (s pre : JsString) : startsWith s pre = true ↔ pre <+: s := by
  simp [startsWith]

@[simp] theorem endsWith_iff (s suf : JsString) : endsWith s suf = true ↔ suf <:+ s := by
  simp [endsWith, List.reverse_prefix]

/-! ## Code points -/

def isHighSurrogate (c : CodeUnit) : Bool := 0xd800 ≤ c.val && c.val ≤ 0xdbff

def isLowSurrogate (c : CodeUnit) : Bool := 0xdc00 ≤ c.val && c.val ≤ 0xdfff

/-- The pieces that `for (const char of s)` walks over: surrogate pairs and single units. -/
def codePoints : JsString → List JsString
  | [] => []
  | [c] => [[c]]
  | c :: d :: s =>
      if isHighSurrogate c && isLowSurrogate d then [c, d] :: codePoints s
      else [c] :: codePoints (d :: s)

/-- `char.codePointAt(0)` of such a piece. -/
def codePointAt : JsString → Nat
  | [c, d] => 0x10000 + (c.val - 0xd800) * 0x400 + (d.val - 0xdc00)
  | c :: _ => c.val
  | [] => 0

@[simp] theorem codePointAt_singleton (c : CodeUnit) : codePointAt [c] = c.val := rfl

theorem le_codePointAt_pair (c d : CodeUnit) : 0x10000 ≤ codePointAt [c, d] := by
  change 0x10000 ≤ 0x10000 + (c.val - 0xd800) * 0x400 + (d.val - 0xdc00)
  generalize (c.val - 0xd800) * 0x400 = high
  generalize d.val - 0xdc00 = low
  omega

@[simp] theorem flatten_codePoints (s : JsString) : (codePoints s).flatten = s := by
  fun_induction codePoints s <;> simp_all

/-! ## Well-formed strings -/

/-- `s.isWellFormed()`: every surrogate is one of a pair, so the text survives its way through UTF-8. -/
def isWellFormed : JsString → Bool
  | [] => true
  | [c] => !(isHighSurrogate c || isLowSurrogate c)
  | c :: d :: s =>
      if isHighSurrogate c then isLowSurrogate d && isWellFormed s
      else !isLowSurrogate c && isWellFormed (d :: s)

/-- A unit on its own: `U+FFFD` for a surrogate. -/
def wellFormedUnit (c : CodeUnit) : CodeUnit := if isHighSurrogate c || isLowSurrogate c then 0xfffd else c

/-- `s.toWellFormed()`: what is left of a text after its way through UTF-8. -/
def toWellFormed : JsString → JsString
  | [] => []
  | [c] => [wellFormedUnit c]
  | c :: d :: s =>
      if isHighSurrogate c && isLowSurrogate d then c :: d :: toWellFormed s
      else wellFormedUnit c :: toWellFormed (d :: s)

theorem not_surrogate_wellFormedUnit (c : CodeUnit) :
    isHighSurrogate (wellFormedUnit c) = false ∧ isLowSurrogate (wellFormedUnit c) = false := by
  unfold wellFormedUnit
  split_ifs with h
  · decide
  · simpa using h

theorem isWellFormed_cons {c : CodeUnit} {s : JsString} (hc : isHighSurrogate c = false ∧ isLowSurrogate c = false) :
    isWellFormed (c :: s) = isWellFormed s := by
  cases s with
  | nil => simp [isWellFormed, hc]
  | cons d s => simp [isWellFormed, hc]

theorem isWellFormed_toWellFormed (s : JsString) : isWellFormed (toWellFormed s) = true := by
  fun_induction toWellFormed s with
  | case1 => rfl
  | case2 c => exact (isWellFormed_cons (not_surrogate_wellFormedUnit c)).trans rfl
  | case3 c d s hpair ih =>
      obtain ⟨hhigh, hlow⟩ := Bool.and_eq_true_iff.mp hpair
      rw [isWellFormed, if_pos hhigh, hlow, ih]
      rfl
  | case4 c d s _ ih => rw [isWellFormed_cons (not_surrogate_wellFormedUnit c), ih]

theorem toWellFormed_of_isWellFormed {s : JsString} (h : isWellFormed s = true) : toWellFormed s = s := by
  fun_induction isWellFormed s with
  | case1 => rfl
  | case2 c =>
      rw [toWellFormed, wellFormedUnit, if_neg (by simpa using h)]
  | case3 c d s hhigh ih =>
      obtain ⟨hlow, hrest⟩ := Bool.and_eq_true_iff.mp h
      rw [toWellFormed, if_pos (by rw [hhigh, hlow]; rfl), ih hrest]
  | case4 c d s hhigh ih =>
      obtain ⟨hlow, hrest⟩ := Bool.and_eq_true_iff.mp h
      have hc : wellFormedUnit c = c := if_neg (by simpa [hhigh] using hlow)
      rw [toWellFormed, if_neg (by simp [hhigh]), hc, ih hrest]

theorem toWellFormed_idem (s : JsString) : toWellFormed (toWellFormed s) = toWellFormed s :=
  toWellFormed_of_isWellFormed (isWellFormed_toWellFormed s)

/-! ## Digits -/

/-- The lower-case hexadecimal digit of `n < 16`. -/
def hexDigit (n : Nat) : CodeUnit := if n < 10 then Fin.ofNat 65536 (0x30 + n) else Fin.ofNat 65536 (0x57 + n)

/-- The value of a hexadecimal digit, in either case. -/
def hexValue (c : CodeUnit) : Option Nat :=
  if 0x30 ≤ c.val ∧ c.val ≤ 0x39 then some (c.val - 0x30)
  else if 0x61 ≤ c.val ∧ c.val ≤ 0x66 then some (c.val - 0x57)
  else if 0x41 ≤ c.val ∧ c.val ≤ 0x46 then some (c.val - 0x37)
  else none

/-- `n.toString(16).padStart(4, "0")` for `n < 0x10000`. -/
def hex4 (n : Nat) : JsString :=
  [hexDigit (n / 0x1000 % 16), hexDigit (n / 0x100 % 16), hexDigit (n / 0x10 % 16), hexDigit (n % 16)]

theorem hexValue_hexDigit : ∀ n, n < 16 → hexValue (hexDigit n) = some n := by
  decide

/-- The unit that four hexadecimal digits name. -/
def unitOfHex (a b c d : CodeUnit) : Option CodeUnit := do
  let a ← hexValue a
  let b ← hexValue b
  let c ← hexValue c
  let d ← hexValue d
  pure (Fin.ofNat 65536 (a * 0x1000 + b * 0x100 + c * 0x10 + d))

theorem hex4_eq (c : CodeUnit) :
    ∃ h₁ h₂ h₃ h₄, hex4 c.val = [h₁, h₂, h₃, h₄] ∧ unitOfHex h₁ h₂ h₃ h₄ = some c := by
  refine ⟨_, _, _, _, rfl, ?_⟩
  have hc := c.isLt
  simp only [unitOfHex, hexValue_hexDigit _ (Nat.mod_lt _ (by decide : 0 < 16)), Option.bind_eq_bind,
    Option.bind_some, Option.pure_def, Option.some.injEq]
  apply Fin.ext
  simp only [Fin.ofNat]
  omega

end Js

end SecretsManager
