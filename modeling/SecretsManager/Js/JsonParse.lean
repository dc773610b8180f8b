import SecretsManager.Js.KeyOrder
import SecretsManager.Model.Secret

/-!
# `JSON.parse`

The grammar of the language, read unit by unit. White space stands only between tokens, a string has no control
characters, and a property that is repeated keeps its place with the last value. The readers of nested values take
a bound on the depth of their calls, for which twice the length of the text is always enough (`values_eq`).
-/

namespace SecretsManager

open Delimited

/-- A value, when it stands inside another. -/
def Json.inside : Json → JsValue
  | .scalar v => v
  | .object _ => .object
  | .array _ => .array

/-- A value, when it is a member of an array. -/
def Json.member : Json → Option (JsObject JsValue)
  | .object props => some props
  | .scalar _ | .array _ => none

namespace Js

/-! ## Tokens -/

/-- Tab, line feed, carriage return and space. -/
def isJsonSpace (c : CodeUnit) : Bool := c = 9 || c = 10 || c = 13 || c = 32

/-- The next unit that is no white space, and what follows it. -/
def nextUnit (s : JsString) : Option (CodeUnit × JsString) :=
  match s.dropWhile isJsonSpace with
  | [] => none
  | c :: rest => some (c, rest)

/-- What follows the unit `c`, when that comes next. -/
def expectUnit (c : CodeUnit) (s : JsString) : Option JsString :=
  (nextUnit s).bind fun r => if r.1 = c then some r.2 else none

/-- Reads one unit of a string. -/
def readStringUnit : JsString → Option (CodeUnit × JsString)
  | [] => none
  | c :: rest =>
      if c.val < 0x20 then none
      else if c = unit '\\' ∧ rest.head? = some (unit '/') then some (unit '/', rest.tail)
      else readUnit (c :: rest)

/-- Reads a string from behind its opening quote. -/
def readString (s : JsString) : Option (JsString × JsString) := readClosed readStringUnit (unit '"') s.length s

def isDigit (c : CodeUnit) : Bool := 0x30 ≤ c.val && c.val ≤ 0x39

/-- One digit or more. -/
def readDigits (s : JsString) : Option (JsString × JsString) :=
  if s.takeWhile isDigit = [] then none else some (s.takeWhile isDigit, s.dropWhile isDigit)

def readSign (signs : List CodeUnit) (s : JsString) : JsString × JsString :=
  if s.head?.any (signs.contains ·) then (s.take 1, s.drop 1) else ([], s)

/-- No digit follows a leading zero. -/
def readInteger (s : JsString) : Option (JsString × JsString) :=
  if s.head? = some (unit '0') then some (s.take 1, s.drop 1) else readDigits s

def readFraction (s : JsString) : Option (JsString × JsString) :=
  if s.head? = some (unit '.') then (readDigits s.tail).map fun r => (unit '.' :: r.1, r.2) else some ([], s)

def readExponent (s : JsString) : Option (JsString × JsString) :=
  if s.head? = some (unit 'e') ∨ s.head? = some (unit 'E') then
    (readDigits (readSign [unit '+', unit '-'] s.tail).2).map fun r =>
      (s.take 1 ++ (readSign [unit '+', unit '-'] s.tail).1 ++ r.1, r.2)
  else some ([], s)

/-- The text of a number. -/
def readNumber (s : JsString) : Option (JsString × JsString) := do
  let sign := readSign [unit '-'] s
  let integer ← readInteger sign.2
  let fraction ← readFraction integer.2
  let exponent ← readExponent fraction.2
  pure (sign.1 ++ integer.1 ++ fraction.1 ++ exponent.1, exponent.2)

def readLiteral (word : JsString) (v : JsValue) (s : JsString) : Option (Json × JsString) :=
  if startsWith s word then some (.scalar v, s.drop word.length) else none

/-! ## Values -/

section Values
variable (number : JsString → JsNumber)

mutual

def readValue : Nat → JsString → Option (Json × JsString)
  | 0, _ => none
  | n + 1, s => (nextUnit s).bind fun r =>
      if r.1 = unit '"' then (readString r.2).map fun t => (.scalar (.str t.1), t.2)
      else if r.1 = unit '\x7b' then
        match expectUnit (unit '\x7d') r.2 with
        | some rest => some (.object .empty, rest)
        | none => (readMembers n .empty r.2).map fun o => (.object o.1, o.2)
      else if r.1 = unit '[' then
        match expectUnit (unit ']') r.2 with
        | some rest => some (.array [], rest)
        | none => (readElements n [] r.2).map fun l => (.array l.1, l.2)
      else if r.1 = unit 't' then readLiteral (js "true") (.bool true) (r.1 :: r.2)
      else if r.1 = unit 'f' then readLiteral (js "false") (.bool false) (r.1 :: r.2)
      else if r.1 = unit 'n' then readLiteral (js "null") .null (r.1 :: r.2)
      else (readNumber (r.1 :: r.2)).map fun t => (.scalar (.num (number t.1)), t.2)

/-- The properties of an object, after those read before. -/
def readMembers : Nat → JsObject JsValue → JsString → Option (JsObject JsValue × JsString)
  | 0, _, _ => none
  | n + 1, o, s =>
      (expectUnit (unit '"') s).bind fun s => (readString s).bind fun key =>
        (expectUnit (unit ':') key.2).bind fun s => (readValue n s).bind fun v => (nextUnit v.2).bind fun r =>
          if r.1 = unit ',' then readMembers n (o.define key.1 v.1.inside) r.2
          else if r.1 = unit '\x7d' then some (o.define key.1 v.1.inside, r.2)
          else none

/-- The members of an array, after those read before. -/
def readElements : Nat → List (Option (JsObject JsValue)) → JsString → Option (List (Option (JsObject JsValue)) × JsString)
  | 0, _, _ => none
  | n + 1, items, s => (readValue n s).bind fun v => (nextUnit v.2).bind fun r =>
      if r.1 = unit ',' then readElements n (items ++ [v.1.member]) r.2
      else if r.1 = unit ']' then some (items ++ [v.1.member], r.2)
      else none

end

/-- `JSON.parse(text)`, with the value of the text of a number and the message of the error for a text. -/
def jsonParse (message : JsString → JsString) (text : JsString) : Except JsString Json :=
  match readValue number (2 * text.length + 1) text with
  | some v => if v.2.dropWhile isJsonSpace = [] then .ok v.1 else .error (message text)
  | none => .error (message text)

end Values

/-! ## Every token takes some of the text -/

theorem nextUnit_length {s : JsString} {r : CodeUnit × JsString} (h : nextUnit s = some r) : r.2.length < s.length := by
  have hle := (List.dropWhile_suffix isJsonSpace (l := s)).length_le
  unfold nextUnit at h
  split at h
  · cases h
  · rename_i c rest hdrop
    cases h
    rw [hdrop, List.length_cons] at hle
    exact hle

theorem expectUnit_eq_some {c : CodeUnit} {s rest : JsString} (h : expectUnit c s = some rest) :
    nextUnit s = some (c, rest) := by
  obtain ⟨r, hr, h⟩ := Option.bind_eq_some_iff.mp h
  split_ifs at h with hc
  rw [hr, ← hc, ← Option.some.inj h]

theorem expectUnit_length {c : CodeUnit} {s rest : JsString} (h : expectUnit c s = some rest) : rest.length < s.length :=
  nextUnit_length (expectUnit_eq_some h)

theorem shrinks_readEscape : Shrinks readEscape := by
  intro s r h
  unfold readEscape at h
  split at h
  · cases h
  · split_ifs at h
    · split at h
      · obtain ⟨c, -, rfl⟩ := Option.map_eq_some_iff.mp h
        simp only [List.length_cons]
        omega
      · cases h
    · obtain ⟨c, -, rfl⟩ := Option.map_eq_some_iff.mp h
      exact Nat.lt_succ_self _

theorem shrinks_readUnit : Shrinks readUnit := by
  intro s r h
  cases s with
  | nil => cases h
  | cons c rest =>
      rw [readUnit_cons] at h
      split_ifs at h
      · exact (shrinks_readEscape h).trans (Nat.lt_succ_self _)
      · cases h
        exact Nat.lt_succ_self _

theorem shrinks_readStringUnit : Shrinks readStringUnit := by
  intro s r h
  cases s with
  | nil => cases h
  | cons c rest =>
      rw [readStringUnit] at h
      split_ifs at h
      · cases h
        rw [List.length_cons, List.length_tail]
        omega
      · exact shrinks_readUnit h

theorem shrinks_readString : Shrinks readString := fun _ _ h => shrinks_readClosed shrinks_readStringUnit _ h

theorem shrinks_readDigits : Shrinks readDigits := by
  intro s r h
  unfold readDigits at h
  split_ifs at h with hnone
  cases h
  have hlength := congrArg List.length (List.takeWhile_append_dropWhile (p := isDigit) (l := s))
  rw [List.length_append] at hlength
  have hpos := List.length_pos_of_ne_nil hnone
  show (s.dropWhile isDigit).length < s.length
  omega

theorem readSign_length (signs : List CodeUnit) (s : JsString) : (readSign signs s).2.length ≤ s.length := by
  unfold readSign
  split_ifs
  · exact (List.drop_suffix 1 s).length_le
  · exact le_rfl

theorem shrinks_readInteger : Shrinks readInteger := by
  intro s r h
  unfold readInteger at h
  split_ifs at h with hzero
  · obtain ⟨rest, rfl⟩ := List.head?_eq_some_iff.mp hzero
    cases h
    exact Nat.lt_succ_self _
  · exact shrinks_readDigits h

theorem readFraction_length {s : JsString} {r : JsString × JsString} (h : readFraction s = some r) :
    r.2.length ≤ s.length := by
  unfold readFraction at h
  split_ifs at h
  · obtain ⟨digits, hdigits, rfl⟩ := Option.map_eq_some_iff.mp h
    have hlt := shrinks_readDigits hdigits
    rw [List.length_tail] at hlt
    exact hlt.le.trans (Nat.sub_le ..)
  · cases h
    exact le_rfl

theorem readExponent_length {s : JsString} {r : JsString × JsString} (h : readExponent s = some r) :
    r.2.length ≤ s.length := by
  unfold readExponent at h
  split_ifs at h
  · obtain ⟨digits, hdigits, rfl⟩ := Option.map_eq_some_iff.mp h
    have hlt := shrinks_readDigits hdigits
    have hsign := readSign_length [unit '+', unit '-'] s.tail
    rw [List.length_tail] at hsign
    exact (hlt.le.trans hsign).trans (Nat.sub_le ..)
  · cases h
    exact le_rfl

theorem shrinks_readNumber : Shrinks readNumber := by
  intro s r h
  obtain ⟨integer, hinteger, h⟩ := Option.bind_eq_some_iff.mp h
  obtain ⟨fraction, hfraction, h⟩ := Option.bind_eq_some_iff.mp h
  obtain ⟨exponent, hexponent, h⟩ := Option.bind_eq_some_iff.mp h
  cases h
  have hsign := readSign_length [unit '-'] s
  have hlt := shrinks_readInteger hinteger
  exact (readExponent_length hexponent).trans_lt
    ((readFraction_length hfraction).trans_lt (hlt.trans_le hsign))

theorem readLiteral_length {word : JsString} {v : JsValue} {s : JsString} {r : Json × JsString} (hword : word ≠ [])
    (h : readLiteral word v s = some r) : r.2.length < s.length := by
  unfold readLiteral at h
  split_ifs at h with hstarts
  cases h
  have hle := ((startsWith_iff s word).mp hstarts).length_le
  have hpos := List.length_pos_of_ne_nil hword
  rw [List.length_drop]
  omega

section Values
variable {number : JsString → JsNumber}

theorem shrinks_values (n : Nat) : Shrinks (readValue number n) ∧ (∀ o, Shrinks (readMembers number n o)) ∧
    ∀ items, Shrinks (readElements number n items) := by
  induction n with
  | zero =>
      refine ⟨fun s r h => ?_, fun o s r h => ?_, fun items s r h => ?_⟩
      · cases h
      · cases h
      · cases h
  | succ n ih =>
      obtain ⟨hvalue, hmembers, helements⟩ := ih
      refine ⟨fun s r h => ?_, fun o s r h => ?_, fun items s r h => ?_⟩
      · rw [readValue] at h
        obtain ⟨first, hfirst, h⟩ := Option.bind_eq_some_iff.mp h
        have hlt := nextUnit_length hfirst
        have hle : (first.1 :: first.2).length ≤ s.length := hlt
        split_ifs at h
        · obtain ⟨t, ht, rfl⟩ := Option.map_eq_some_iff.mp h
          exact (shrinks_readString ht).trans hlt
        · split at h
          · rename_i rest hrest
            cases h
            exact (expectUnit_length hrest).trans hlt
          · obtain ⟨o, ho, rfl⟩ := Option.map_eq_some_iff.mp h
            exact (hmembers _ ho).trans hlt
        · split at h
          · rename_i rest hrest
            cases h
            exact (expectUnit_length hrest).trans hlt
          · obtain ⟨l, hl, rfl⟩ := Option.map_eq_some_iff.mp h
            exact (helements _ hl).trans hlt
        · exact (readLiteral_length (by decide) h).trans_le hle
        · exact (readLiteral_length (by decide) h).trans_le hle
        · exact (readLiteral_length (by decide) h).trans_le hle
        · obtain ⟨t, ht, rfl⟩ := Option.map_eq_some_iff.mp h
          exact (shrinks_readNumber ht).trans_le hle
      · rw [readMembers] at h
        obtain ⟨s₁, hquote, h⟩ := Option.bind_eq_some_iff.mp h
        obtain ⟨key, hkey, h⟩ := Option.bind_eq_some_iff.mp h
        obtain ⟨s₂, hcolon, h⟩ := Option.bind_eq_some_iff.mp h
        obtain ⟨v, hv, h⟩ := Option.bind_eq_some_iff.mp h
        obtain ⟨next, hnext, h⟩ := Option.bind_eq_some_iff.mp h
        have hlt : next.2.length < s.length :=
          (nextUnit_length hnext).trans ((hvalue hv).trans ((expectUnit_length hcolon).trans
            ((shrinks_readString hkey).trans (expectUnit_length hquote))))
        split_ifs at h
        · exact (hmembers _ h).trans hlt
        · cases h
          exact hlt
      · rw [readElements] at h
        obtain ⟨v, hv, h⟩ := Option.bind_eq_some_iff.mp h
        obtain ⟨next, hnext, h⟩ := Option.bind_eq_some_iff.mp h
        have hlt : next.2.length < s.length := (nextUnit_length hnext).trans (hvalue hv)
        split_ifs at h
        · exact (helements _ h).trans hlt
        · cases h
          exact hlt

/-- The readers agree on a text that both bounds are enough for. -/
theorem values_eq (n m : Nat) (s : JsString) :
    (2 * s.length < n → 2 * s.length < m → readValue number n s = readValue number m s ∧
      ∀ o, readMembers number n o s = readMembers number m o s) ∧
    (2 * s.length + 1 < n → 2 * s.length + 1 < m →
      ∀ items, readElements number n items s = readElements number m items s) := by
  induction n generalizing m s with
  | zero => exact ⟨fun hn => absurd hn (Nat.not_lt_zero _), fun hn => absurd hn (Nat.not_lt_zero _)⟩
  | succ n ih =>
      refine ⟨fun hn hm => ?_, fun hn hm items => ?_⟩
      · obtain ⟨m, rfl⟩ : ∃ k, m = k + 1 := ⟨m - 1, by omega⟩
        refine ⟨?_, fun o => ?_⟩
        · rw [readValue, readValue]
          refine Option.bind_congr fun first hfirst => ?_
          have hlt := nextUnit_length hfirst
          obtain ⟨hmembers, helements⟩ := ih m first.2
          rw [(hmembers (by omega) (by omega)).2, helements (by omega) (by omega)]
        · rw [readMembers, readMembers]
          refine Option.bind_congr fun s₁ hquote => Option.bind_congr fun key hkey => Option.bind_congr fun s₂ hcolon => ?_
          have hs₂ : s₂.length < s.length :=
            (expectUnit_length hcolon).trans ((shrinks_readString hkey).trans (expectUnit_length hquote))
          rw [((ih m s₂).1 (by omega) (by omega)).1]
          refine Option.bind_congr fun v hv => Option.bind_congr fun next hnext => ?_
          have hlt := (nextUnit_length hnext).trans (((shrinks_values m).1 hv).trans hs₂)
          rw [((ih m next.2).1 (by omega) (by omega)).2]
      · obtain ⟨m, rfl⟩ : ∃ k, m = k + 1 := ⟨m - 1, by omega⟩
        rw [readElements, readElements, ((ih m s).1 (by omega) (by omega)).1]
        refine Option.bind_congr fun v hv => Option.bind_congr fun next hnext => ?_
        have hlt := (nextUnit_length hnext).trans ((shrinks_values m).1 hv)
        rw [(ih m next.2).2 (by omega) (by omega)]

end Values

/-! ## Reading back what `JSON.stringify` writes -/

theorem nextUnit_space (space : JsString) (hspace : space.all isJsonSpace = true) {c : CodeUnit}
    (hc : isJsonSpace c = false) (rest : JsString) : nextUnit (space ++ c :: rest) = some (c, rest) := by
  have hdrop : (space ++ c :: rest).dropWhile isJsonSpace = c :: rest := by
    rw [List.dropWhile_append_of_pos (List.all_eq_true.mp hspace), List.dropWhile_cons, hc]
    rfl
  rw [nextUnit, hdrop]

theorem expectUnit_space (space : JsString) (hspace : space.all isJsonSpace = true) {c : CodeUnit}
    (hc : isJsonSpace c = false) (rest : JsString) : expectUnit c (space ++ c :: rest) = some rest := by
  rw [expectUnit, nextUnit_space space hspace hc, Option.bind_some, if_pos rfl]

theorem expectUnit_ne {c d : CodeUnit} {s rest : JsString} (h : nextUnit s = some (d, rest)) (hne : d ≠ c) :
    expectUnit c s = none := by
  rw [expectUnit, h, Option.bind_some, if_neg hne]

/-- Units that are no control characters and start no escaped slash are read as before. -/
theorem readStringUnit_eq {c : CodeUnit} (hc : 0x20 ≤ c.val) {rest : JsString}
    (hslash : c = unit '\\' → rest.head? ≠ some (unit '/')) : readStringUnit (c :: rest) = readUnit (c :: rest) := by
  rw [readStringUnit, if_neg (by omega), if_neg fun h => hslash h.1 h.2]

theorem readStringUnit_quoteUnit (c : CodeUnit) (x : JsString) : readStringUnit (quoteUnit c ++ x) = some (c, x) := by
  rw [← readUnit_quoteUnit c x]
  unfold quoteUnit
  split_ifs with h₁ h₂ h₃ h₄ h₅ h₆ h₇ h₈
  all_goals try exact readStringUnit_eq (by decide) fun _ h => absurd (Option.some.inj h) (by decide)
  refine readStringUnit_eq ?_ fun h => absurd h h₂
  by_contra hlt
  exact h₈ (by simp; omega)

theorem spells_string (s : JsString) : Spells readStringUnit s (quoteUnits s) := by
  have hplain : ∀ c x, isHighSurrogate c = true ∨ isLowSurrogate c = true → readStringUnit ([c] ++ x) = some (c, x) := by
    intro c x hc
    obtain ⟨hquote, hslash⟩ := surrogate_ne hc
    have hval : 0x20 ≤ c.val := by
      rcases hc with hc | hc
      · simp [isHighSurrogate] at hc
        omega
      · simp [isLowSurrogate] at hc
        omega
    rw [List.singleton_append, readStringUnit_eq hval fun h => absurd h hslash]
    exact readUnit_plain hquote hslash x
  fun_induction quoteUnits s with
  | case1 => exact .nil
  | case2 c => simpa using Spells.cons (readStringUnit_quoteUnit c) .nil
  | case3 c d s h ih =>
      rw [Bool.and_eq_true] at h
      exact .cons (fun x => hplain c x (Or.inl h.1)) (.cons (fun x => hplain d x (Or.inr h.2)) ih)
  | case4 c d s h ih => exact .cons (readStringUnit_quoteUnit c) ih

theorem readString_quoteUnits (s x : JsString) : readString (quoteUnits s ++ unit '"' :: x) = some (s, x) := by
  refine (spells_string s).readClosed (fun y => ?_) ?_ x
  · rw [readStringUnit_eq (by decide) fun h => absurd h (by decide), readUnit_cons, if_pos rfl]
  · have hle := (spells_string s).length_le shrinks_readStringUnit
    rw [List.length_append, List.length_cons]
    omega

section Objects
variable (number : JsString → JsNumber)

theorem readValue_quote (n : Nat) {space : JsString} (hspace : space.all isJsonSpace = true) (s x : JsString) :
    readValue number (n + 1) (space ++ (quote s ++ x)) = some (.scalar (.str s), x) := by
  have hnext : nextUnit (space ++ (quote s ++ x)) = some (unit '"', quoteUnits s ++ unit '"' :: x) := by
    rw [← nextUnit_space space hspace (c := unit '"') (by decide)]
    simp [quote]
  rw [readValue, hnext, Option.bind_some, if_pos rfl, readString_quoteUnits]
  rfl

/-- One property of an object, with what follows it. -/
theorem readMembers_member (n : Nat) (o : JsObject JsValue) {space : JsString} (hspace : space.all isJsonSpace = true)
    (key : JsString) {text x : JsString} {v : Json} (hv : readValue number (n + 1) (text ++ x) = some (v, x)) :
    readMembers number (n + 2) o (space ++ (quote key ++ (js ":" ++ (text ++ x)))) =
      (nextUnit x).bind fun r =>
        if r.1 = unit ',' then readMembers number (n + 1) (o.define key v.inside) r.2
        else if r.1 = unit '\x7d' then some (o.define key v.inside, r.2)
        else none := by
  have hquote : expectUnit (unit '"') (space ++ (quote key ++ (js ":" ++ (text ++ x)))) =
      some (quoteUnits key ++ unit '"' :: (unit ':' :: (text ++ x))) := by
    rw [← expectUnit_space space hspace (c := unit '"') (by decide)]
    simp [quote, js, unitsOfChar, unit]
  have hcolon : expectUnit (unit ':') (unit ':' :: (text ++ x)) = some (text ++ x) :=
    expectUnit_space [] rfl (by decide) _
  rw [readMembers, hquote, Option.bind_some, readString_quoteUnits, Option.bind_some, hcolon, Option.bind_some, hv,
    Option.bind_some]

/-- One property of an object of strings, with what follows it. -/
theorem readMembers_property (n : Nat) (o : JsObject JsValue) {space : JsString}
    (hspace : space.all isJsonSpace = true) (p : JsString × JsString) (x : JsString) :
    readMembers number (n + 2) o (space ++ (spacedPropertyText p ++ x)) =
      (nextUnit x).bind fun r =>
        if r.1 = unit ',' then readMembers number (n + 1) (o.define p.1 (.str p.2)) r.2
        else if r.1 = unit '\x7d' then some (o.define p.1 (.str p.2), r.2)
        else none := by
  have hv : readValue number (n + 1) (js " " ++ quote p.2 ++ x) = some (.scalar (.str p.2), x) := by
    rw [List.append_assoc]
    exact readValue_quote number n (by decide) p.2 x
  have htext : spacedPropertyText p ++ x = quote p.1 ++ (js ":" ++ (js " " ++ quote p.2 ++ x)) := by
    simp [spacedPropertyText, js, unitsOfChar]
  rw [htext, readMembers_member number n o hspace p.1 hv]
  rfl

/-- The properties of an object of strings, up to its bracket. -/
theorem readMembers_entries {l : List (JsString × JsString)} (hl : l ≠ []) {n : Nat} (hn : l.length < n)
    (o : JsObject JsValue) {space : JsString} (hspace : space.all isJsonSpace = true) (x : JsString) :
    readMembers number n o (space ++ (sepBy (js ",\n  ") (unit '\n') spacedPropertyText l ++ unit '\x7d' :: x)) =
      some (l.foldl (fun o p => o.define p.1 (.str p.2)) o, x) := by
  induction l generalizing n o space with
  | nil => exact absurd rfl hl
  | cons p l ih =>
      rw [List.length_cons] at hn
      obtain ⟨n, rfl⟩ : ∃ k, n = k + 2 := ⟨n - 2, by omega⟩
      cases l with
      | nil =>
          have hnext : nextUnit ([unit '\n'] ++ unit '\x7d' :: x) = some (unit '\x7d', x) :=
            nextUnit_space _ (by decide) (by decide) x
          rw [sepBy_singleton, List.append_assoc, readMembers_property number n o hspace, hnext, Option.bind_some,
            if_neg (show unit '\x7d' ≠ unit ',' by decide), if_pos rfl]
          rfl
      | cons q l =>
          have hnext : ∀ y, nextUnit (js ",\n  " ++ y) = some (unit ',', js "\n  " ++ y) := fun y =>
            nextUnit_space [] rfl (by decide) _
          rw [sepBy_cons_cons, List.append_assoc, List.append_assoc, readMembers_property number n o hspace, hnext,
            Option.bind_some, if_pos rfl]
          exact ih (List.cons_ne_nil _ _) (by omega) _ (by decide)

theorem quote_of_sepBy {l : List (JsString × JsString)} (hl : l ≠ []) (x : JsString) :
    ∃ y, sepBy (js ",\n  ") (unit '\n') spacedPropertyText l ++ x = unit '"' :: y := by
  cases l with
  | nil => exact absurd rfl hl
  | cons p l =>
      cases l with
      | nil => exact ⟨_, by rw [sepBy_singleton]; rfl⟩
      | cons q l => exact ⟨_, by rw [sepBy_cons_cons]; rfl⟩

/-- An object of strings, as `JSON.stringify(o, null, 2)` writes it. -/
def objectText (o : JsObject JsString) : JsString :=
  if o.entries = [] then js "\x7b\x7d"
  else js "\x7b\n  " ++ sepBy (js ",\n  ") (unit '\n') spacedPropertyText o.entries ++ js "\x7d"

theorem stringifyIndented_eq (o : JsObject JsString) : stringifyIndented o = objectText o ++ js "\n" := by
  unfold stringifyIndented objectText
  split_ifs
  · rfl
  · rw [List.append_assoc, List.append_assoc, List.append_assoc]
    rfl

/-- A text of an object with properties is parsed by them. -/
theorem jsonParse_members (message : JsString → JsString) {members space : JsString} {o : JsObject JsValue} {k : Nat}
    (hspace : space.all isJsonSpace = true) (hfirst : expectUnit (unit '\x7d') members = none)
    (hmembers : ∀ n, k < n → readMembers number n .empty members = some (o, space)) :
    jsonParse number message (unit '\x7b' :: members) = .ok (.object o) := by
  have hend : space.dropWhile isJsonSpace = [] := List.dropWhile_eq_nil_iff.mpr (List.all_eq_true.mp hspace)
  have hopened : nextUnit (unit '\x7b' :: members) = some (unit '\x7b', members) :=
    nextUnit_space [] rfl (by decide) members
  have henough : readMembers number (2 * (unit '\x7b' :: members).length) .empty members = some (o, space) := by
    rw [List.length_cons, ((values_eq _ (2 * (members.length + 1) + k + 1) members).1 (by omega) (by omega)).2]
    exact hmembers _ (by omega)
  have hvalue : readValue number (2 * (unit '\x7b' :: members).length + 1) (unit '\x7b' :: members) =
      some (.object o, space) := by
    rw [readValue, hopened, Option.bind_some, if_neg (show unit '\x7b' ≠ unit '"' by decide), if_pos rfl]
    dsimp only
    rw [hfirst, henough]
    rfl
  rw [jsonParse, hvalue]
  exact if_pos hend

/-- **`JSON.parse` undoes `JSON.stringify`** on an object of strings, with white space behind it. -/
theorem jsonParse_objectText (message : JsString → JsString) (o : JsObject JsString) {space : JsString}
    (hspace : space.all isJsonSpace = true) :
    jsonParse number message (objectText o ++ space) =
      .ok (.object (o.entries.foldl (fun o p => o.define p.1 (.str p.2)) .empty)) := by
  by_cases hempty : o.entries = []
  · have hend : space.dropWhile isJsonSpace = [] := List.dropWhile_eq_nil_iff.mpr (List.all_eq_true.mp hspace)
    have htext : objectText o ++ space = unit '\x7b' :: (unit '\x7d' :: space) := by
      rw [objectText, if_pos hempty]
      rfl
    have hopened : nextUnit (unit '\x7b' :: (unit '\x7d' :: space)) = some (unit '\x7b', unit '\x7d' :: space) :=
      nextUnit_space [] rfl (by decide) _
    have hclose : expectUnit (unit '\x7d') (unit '\x7d' :: space) = some space :=
      expectUnit_space [] rfl (by decide) space
    rw [htext, jsonParse, readValue, hopened, Option.bind_some, if_neg (show unit '\x7b' ≠ unit '"' by decide), if_pos rfl,
      hclose, hempty]
    exact if_pos hend
  · let members := js "\n  " ++ (sepBy (js ",\n  ") (unit '\n') spacedPropertyText o.entries ++ unit '\x7d' :: space)
    have htext : objectText o ++ space = unit '\x7b' :: members := by
      rw [objectText, if_neg hempty]
      simp [js, unitsOfChar, unit, members]
    have hfirst : expectUnit (unit '\x7d') members = none := by
      obtain ⟨y, hy⟩ := quote_of_sepBy hempty (unit '\x7d' :: space)
      have hnext : nextUnit members = some (unit '"', y) := by
        rw [← nextUnit_space (js "\n  ") (by decide) (c := unit '"') (by decide) y, ← hy]
      exact expectUnit_ne hnext (by decide)
    rw [htext]
    exact jsonParse_members number message hspace hfirst fun n hn =>
      readMembers_entries number hempty hn .empty (by decide) space

end Objects

end Js

/-! ## The platform -/

section Platform
open Js JsObject SortedBy

/-- The `JSON.parse` of the platform is that of the language. -/
def Platform.ParsesJson (P : Platform) (number : JsString → JsNumber) (message : JsString → JsString) : Prop :=
  P.jsonParse = Js.jsonParse number message

variable {P : Platform} {number : JsString → JsNumber} {message : JsString → JsString}

theorem get?_foldl_define_str (data : SecretData) (k : JsString) :
    (data.entries.foldl (fun o p => o.define p.1 (.str p.2)) (empty : JsObject JsValue)).get? k =
      (data.get? k).map JsValue.str := by
  have hdistinct : Distinct Prod.fst (data.entries.map fun p => (p.1, JsValue.str p.2)) := by
    rw [Distinct, List.map_map]
    exact data.distinct
  have hfold : data.entries.foldl (fun o p => o.define p.1 (.str p.2)) (empty : JsObject JsValue) =
      fromEntries (data.entries.map fun p => (p.1, JsValue.str p.2)) := by
    rw [fromEntries, List.foldl_map]
  apply Option.ext
  intro v
  rw [hfold, get?_eq_some_iff, mem_entries_fromEntries hdistinct, List.mem_map, Option.map_eq_some_iff]
  constructor
  · rintro ⟨p, hp, heq⟩
    cases heq
    exact ⟨p.2, get?_eq_some_iff.mpr hp, rfl⟩
  · rintro ⟨value, hvalue, rfl⟩
    exact ⟨(k, value), get?_eq_some_iff.mp hvalue, rfl⟩

/-- Such a platform reads back what it writes. -/
theorem Platform.ParsesJson.parsesBack (h : P.ParsesJson number message) (data : SecretData) : P.ParsesBack data := by
  refine ⟨_, ?_, get?_foldl_define_str data⟩
  rw [h, stringifyIndented_eq]
  exact jsonParse_objectText number message data (by decide)

end Platform

end SecretsManager
