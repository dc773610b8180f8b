import SecretsManager.Model.Secret

/-!
# The `.env` export

The serializer walks over the code points of a value to decide whether it must be quoted, and over them
again to escape it. What it takes for plain text is every character above the space, other than the
delete character, the quotes, the backslash, `#` and `=`.
-/

namespace SecretsManager

open Js

/-- The source of `ENV_KEY_PATTERN`. -/
def envKeyPattern : JsString := js "^[A-Za-z_][A-Za-z0-9_]*$"

def isEnvKeyStart (c : CodeUnit) : Bool :=
  (0x41 ≤ c.val && c.val ≤ 0x5a) || (0x61 ≤ c.val && c.val ≤ 0x7a) || c = unit '_'

def isEnvKeyUnit (c : CodeUnit) : Bool := isEnvKeyStart c || (0x30 ≤ c.val && c.val ≤ 0x39)

/-- `ENV_KEY_PATTERN.test(key)` -/
def isEnvSafeKey : JsString → Bool
  | [] => false
  | c :: rest => isEnvKeyStart c && rest.all isEnvKeyUnit

/-- The message of a `SecretEnvError`. -/
def secretEnvError (invalidKeys : List JsString) : JsString :=
  js "Cannot export as .env: invalid key(s) " ++ (js ", ").intercalate (invalidKeys.map quote) ++
    js ". Keys must match " ++ envKeyPattern ++ js ". Use the JSON export instead."

/-- The characters of the source's `for (const char of value)` that call for quotes. -/
def charNeedsQuoting (char : JsString) : Bool :=
  let code := codePointAt char
  code ≤ 0x20 || code = 0x7f || char = [unit '"'] || char = [unit '\''] || char = [unit '\\'] ||
    char = [unit '#'] || char = [unit '=']

def needsQuoting (value : JsString) : Bool :=
  value.length = 0 || (codePoints value).any charNeedsQuoting

/-- One turn of the loop of `escapeEnvValue`. -/
def escapeChar (char : JsString) : JsString :=
  if char = [unit '\\'] then js "\\\\"
  else if char = [unit '"'] then js "\\\""
  else if char = [unit '\n'] then js "\\n"
  else if char = [unit '\r'] then js "\\r"
  else if char = [unit '\t'] then js "\\t"
  else if codePointAt char ≤ 0x1f ∨ codePointAt char = 0x7f then js "\\u" ++ hex4 (codePointAt char)
  else char

def escapeEnvValue (value : JsString) : JsString :=
  if needsQuoting value = false then value
  else unit '"' :: ((codePoints value).flatMap escapeChar ++ [unit '"'])

/-- `KEY=value` -/
def envLine (p : JsString × JsString) : JsString := p.1 ++ unit '=' :: escapeEnvValue p.2

def secretDataToEnvContent (data : SecretData) : Except JsString JsString :=
  let invalidKeys := data.keys.filter fun key => isEnvSafeKey key = false
  if 0 < invalidKeys.length then .error (secretEnvError invalidKeys)
  else if data.keys.length = 0 then .ok []
  else .ok ((js "\n").intercalate (data.entries.map envLine) ++ js "\n")

/-- The secret can be exported: its keys are names of environment variables. -/
def SecretData.EnvSafe (data : SecretData) : Prop := ∀ key ∈ data.keys, isEnvSafeKey key = true

instance (data : SecretData) : Decidable data.EnvSafe :=
  inferInstanceAs (Decidable (∀ key ∈ data.keys, _))

/-! ## Keys -/

theorem isEnvKeyUnit_of_mem {key : JsString} (h : isEnvSafeKey key = true) {c : CodeUnit} (hc : c ∈ key) :
    isEnvKeyUnit c = true := by
  cases key with
  | nil => cases hc
  | cons d rest =>
      obtain ⟨hd, hrest⟩ := Bool.and_eq_true_iff.mp h
      rcases List.mem_cons.mp hc with rfl | hc
      · rw [isEnvKeyUnit, hd]
        rfl
      · exact List.all_eq_true.mp hrest c hc

/-- A key has no white space, no `=` and no bracket. -/
theorem isWhiteSpace_of_isEnvKeyUnit {c : CodeUnit} (h : isEnvKeyUnit c = true) :
    isWhiteSpace c = false := by
  have hrange : 0x30 ≤ c.val ∧ c.val ≤ 0x7a := by
    have hunit : (unit '_').val = 0x5f := rfl
    simp only [isEnvKeyUnit, isEnvKeyStart, Bool.or_eq_true, Bool.and_eq_true, decide_eq_true_eq,
      Fin.ext_iff, hunit] at h
    omega
  simp only [isWhiteSpace, Bool.or_eq_false_iff, Bool.and_eq_false_imp, beq_eq_false_iff_ne,
    decide_eq_true_eq, decide_eq_false_iff_not]
  omega

theorem ne_of_isEnvKeyUnit {c : CodeUnit} (h : isEnvKeyUnit c = true) {d : CodeUnit}
    (hd : isEnvKeyUnit d = false) : c ≠ d := by
  rintro rfl
  rw [h] at hd
  cases hd

/-! ## Values -/

/-- A code point is a single unit or a surrogate pair. -/
theorem codePoints_cases {s : JsString} {char : JsString} (h : char ∈ codePoints s) :
    (∃ c, char = [c]) ∨ ∃ c d, char = [c, d] ∧ isHighSurrogate c = true ∧ isLowSurrogate d = true := by
  fun_induction codePoints s with
  | case1 => cases h
  | case2 c => exact Or.inl ⟨c, List.mem_singleton.mp h⟩
  | case3 c d s hcd ih =>
      rcases List.mem_cons.mp h with rfl | h
      · exact Or.inr ⟨c, d, rfl, Bool.and_eq_true_iff.mp hcd⟩
      · exact ih h
  | case4 c d s hcd ih =>
      rcases List.mem_cons.mp h with rfl | h
      · exact Or.inl ⟨c, rfl⟩
      · exact ih h

theorem isHighSurrogate_val {c : CodeUnit} (h : isHighSurrogate c = true) : 0xd800 ≤ c.val := by
  simp only [isHighSurrogate, Bool.and_eq_true, decide_eq_true_eq] at h
  exact h.1

theorem isLowSurrogate_val {c : CodeUnit} (h : isLowSurrogate c = true) : 0xdc00 ≤ c.val := by
  simp only [isLowSurrogate, Bool.and_eq_true, decide_eq_true_eq] at h
  exact h.1

/-- A value that is exported as it is has no character that the import takes for anything but text. -/
theorem plain_of_needsQuoting_eq_false {value : JsString} (h : needsQuoting value = false) :
    value ≠ [] ∧ ∀ c ∈ value, 0x20 < c.val ∧ c ≠ unit '"' ∧ c ≠ unit '\'' := by
  rw [needsQuoting, Bool.or_eq_false_iff, List.any_eq_false] at h
  refine ⟨fun hnil => absurd h.1 (by simp [hnil]), fun c hc => ?_⟩
  rw [← flatten_codePoints value, List.mem_flatten] at hc
  obtain ⟨char, hchar, hc⟩ := hc
  have hplain := h.2 char hchar
  rcases codePoints_cases hchar with ⟨d, rfl⟩ | ⟨d, e, rfl, hd, he⟩
  · obtain rfl := List.mem_singleton.mp hc
    simp only [charNeedsQuoting, codePointAt_singleton, Bool.or_eq_true, decide_eq_true_eq, not_or,
      List.cons.injEq, and_true] at hplain
    obtain ⟨⟨⟨⟨⟨⟨hlow, -⟩, hquote⟩, happ⟩, -⟩, -⟩, -⟩ := hplain
    exact ⟨Nat.lt_of_not_le fun h => hlow (decide_eq_true h), hquote, happ⟩
  · have hval : 0xd800 ≤ c.val := by
      rcases List.mem_cons.mp hc with rfl | hc
      · exact isHighSurrogate_val hd
      · obtain rfl := List.mem_singleton.mp hc
        exact (by decide : 0xd800 ≤ 0xdc00).trans (isLowSurrogate_val he)
    refine ⟨by omega, ?_, ?_⟩ <;> rintro rfl <;> exact absurd hval (by decide)

/-- No escaped character starts a new line. -/
theorem newline_notMem_escapeChar {s char : JsString} (h : char ∈ codePoints s) {c : CodeUnit}
    (hc : c ∈ escapeChar char) : c ≠ unit '\n' ∧ c ≠ unit '\r' := by
  have hhex : ∀ n : CodeUnit, ∀ c ∈ js "\\u" ++ hex4 n.val, c ≠ unit '\n' ∧ c ≠ unit '\r' := by
    have hdigit : ∀ m, m < 16 → hexDigit m ≠ unit '\n' ∧ hexDigit m ≠ unit '\r' := by decide
    intro n c hc
    rcases List.mem_append.mp hc with hc | hc
    · rcases List.mem_pair.mp hc with rfl | rfl <;> decide
    · simp only [hex4, List.mem_cons, List.not_mem_nil, or_false] at hc
      rcases hc with rfl | rfl | rfl | rfl <;> exact hdigit _ (Nat.mod_lt _ (by decide))
  have hpair : ∀ a b : CodeUnit, c ∈ [a, b] → (a ≠ unit '\n' ∧ a ≠ unit '\r') →
      (b ≠ unit '\n' ∧ b ≠ unit '\r') → c ≠ unit '\n' ∧ c ≠ unit '\r' := by
    intro a b hc ha hb
    rcases List.mem_pair.mp hc with rfl | rfl
    · exact ha
    · exact hb
  unfold escapeChar at hc
  split_ifs at hc with h₁ h₂ h₃ h₄ h₅ h₆
  · exact hpair _ _ hc (by decide) (by decide)
  · exact hpair _ _ hc (by decide) (by decide)
  · exact hpair _ _ hc (by decide) (by decide)
  · exact hpair _ _ hc (by decide) (by decide)
  · exact hpair _ _ hc (by decide) (by decide)
  · rcases codePoints_cases h with ⟨d, rfl⟩ | ⟨d, e, rfl, hd, he⟩
    · exact hhex d c hc
    · have hpair := le_codePointAt_pair d e
      omega
  · rcases codePoints_cases h with ⟨d, rfl⟩ | ⟨d, e, rfl, hd, he⟩
    · obtain rfl := List.mem_singleton.mp hc
      exact ⟨fun hn => h₃ (by rw [hn]), fun hr => h₄ (by rw [hr])⟩
    · have hne : ∀ x : CodeUnit, 0xd800 ≤ x.val → x ≠ unit '\n' ∧ x ≠ unit '\r' := by
        intro x hx
        constructor <;> rintro rfl <;> exact absurd hx (by decide)
      exact hpair d e hc (hne d (isHighSurrogate_val hd))
        (hne e ((by decide : 0xd800 ≤ 0xdc00).trans (isLowSurrogate_val he)))

/-- An exported value is on one line. -/
theorem newline_notMem_escapeEnvValue (value : JsString) {c : CodeUnit}
    (hc : c ∈ escapeEnvValue value) : c ≠ unit '\n' ∧ c ≠ unit '\r' := by
  unfold escapeEnvValue at hc
  split_ifs at hc with h
  · have hlow := ((plain_of_needsQuoting_eq_false h).2 c hc).1
    constructor <;> rintro rfl <;> exact absurd hlow (by decide)
  · rcases List.mem_cons.mp hc with rfl | hc
    · decide
    · rcases List.mem_append.mp hc with hc | hc
      · obtain ⟨char, hchar, hc⟩ := List.mem_flatMap.mp hc
        exact newline_notMem_escapeChar hchar hc
      · obtain rfl := List.mem_singleton.mp hc
        decide

/-- With valid keys the export is a line for each entry. -/
theorem secretDataToEnvContent_eq {data : SecretData} (hsafe : data.EnvSafe)
    (hne : data.entries ≠ []) :
    secretDataToEnvContent data = .ok ((js "\n").intercalate (data.entries.map envLine) ++ js "\n") := by
  have hvalid : data.keys.filter (fun key => isEnvSafeKey key = false) = [] := by
    rw [List.filter_eq_nil_iff]
    intro key hkey
    rw [hsafe key hkey]
    decide
  have hkeys : data.keys.length ≠ 0 := by
    rw [JsObject.keys, List.length_map]
    exact fun h => hne (List.length_eq_zero_iff.mp h)
  simp only [secretDataToEnvContent, hvalid]
  rw [if_neg (by decide), if_neg hkeys]

theorem envSafe_of_export {data : SecretData} {text : JsString}
    (h : secretDataToEnvContent data = .ok text) : data.EnvSafe := by
  intro key hkey
  by_contra hinvalid
  have hmem : key ∈ data.keys.filter fun key => isEnvSafeKey key = false :=
    List.mem_filter.mpr ⟨hkey, decide_eq_true ((Bool.not_eq_true _).mp hinvalid)⟩
  rw [secretDataToEnvContent, if_pos (List.length_pos_of_mem hmem)] at h
  cases h

end SecretsManager
