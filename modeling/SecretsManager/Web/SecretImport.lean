import SecretsManager.Secrets.SecretEnv
import SecretsManager.Secrets.SecretsHash

/-!
# The `.env` import

The web client reads pasted text line by line. It trims the line, then the part after the `=`, and only
then looks at the quotes, and `trim` removes every Unicode space. So a value comes back from the export
exactly when it was quoted or neither starts nor ends with white space
(`parseSecretImport_export_iff`).
-/

namespace SecretsManager

open Js SortedBy

structure SecretImportRow where
  key : JsString
  value : JsString
  deriving DecidableEq

structure SecretImportResult where
  rows : List SecretImportRow
  warnings : List JsString
  deriving DecidableEq

/-! ## The parser -/

/-- `text.split(/\r\n|\n|\r/)` -/
def splitLines : JsString → List JsString
  | [] => [[]]
  | [c] => if c = unit '\n' ∨ c = unit '\r' then [[], []] else [[c]]
  | c :: d :: s =>
      if c = unit '\r' ∧ d = unit '\n' then [] :: splitLines s
      else if c = unit '\n' ∨ c = unit '\r' then [] :: splitLines (d :: s)
      else (splitLines (d :: s)).modifyHead (c :: ·)

/-- What `.` matches in a regular expression. -/
def isDot (c : CodeUnit) : Bool :=
  c ≠ unit '\n' && c ≠ unit '\r' && c.val ≠ 0x2028 && c.val ≠ 0x2029

/-- The replacement of a match of a backslash and one unit. -/
def unescapeUnit (c : CodeUnit) : JsString :=
  if c = unit 'n' then [unit '\n']
  else if c = unit 'r' then [unit '\r']
  else if c = unit 't' then [unit '\t']
  else if c = unit '"' then [unit '"']
  else if c = unit '\\' then [unit '\\']
  else [unit '\\', c]

/-- `value.replace(/\\(u[0-9a-fA-F]{4}|.)/g, …)` -/
def unescapeDoubleQuoted : JsString → JsString
  | [] => []
  | [c] => [c]
  | c :: e :: h₁ :: h₂ :: h₃ :: h₄ :: s =>
      if c ≠ unit '\\' then c :: unescapeDoubleQuoted (e :: h₁ :: h₂ :: h₃ :: h₄ :: s)
      else if e = unit 'u' then
        match unitOfHex h₁ h₂ h₃ h₄ with
        | some d => d :: unescapeDoubleQuoted s
        | none => unescapeUnit e ++ unescapeDoubleQuoted (h₁ :: h₂ :: h₃ :: h₄ :: s)
      else if isDot e then unescapeUnit e ++ unescapeDoubleQuoted (h₁ :: h₂ :: h₃ :: h₄ :: s)
      else c :: unescapeDoubleQuoted (e :: h₁ :: h₂ :: h₃ :: h₄ :: s)
  | c :: e :: s =>
      if c = unit '\\' ∧ isDot e = true then unescapeUnit e ++ unescapeDoubleQuoted s
      else c :: unescapeDoubleQuoted (e :: s)

/-- The value of a line, without its quotes. -/
def unquoteValue (value : JsString) : JsString :=
  let inner := (value.drop 1).dropLast
  if startsWith value (js "'") && endsWith value (js "'") && 2 ≤ value.length then inner
  else if startsWith value (js "\"") && endsWith value (js "\"") && 2 ≤ value.length then
    unescapeDoubleQuoted inner
  else value

/-- Adds the row, or gives the row of the key the new value with a warning. -/
def addRow (result : SecretImportResult) (key value : JsString) : SecretImportResult :=
  if result.rows.any fun row => row.key = key then
    { rows := result.rows.map fun row => if row.key = key then { row with value := value } else row
      warnings := result.warnings ++ [js "Duplicate key '" ++ key ++ js "': the last value wins"] }
  else { result with rows := result.rows ++ [⟨key, value⟩] }

/-- One turn of the loop over the lines. -/
def parseEnvLine (result : SecretImportResult) (numbered : JsString × Nat) :
    Except JsString SecretImportResult :=
  let line := trim numbered.1
  let invalid := js "Invalid .env line " ++ js (toString (numbered.2 + 1))
  if line.length = 0 || startsWith line (js "#") then .ok result
  else
    let withoutExport :=
      if startsWith line (js "export ") then trim (line.drop (js "export ").length) else line
    match withoutExport.findIdx? (· = unit '=') with
    | none => .error (invalid ++ js ": expected KEY=value")
    | some eq =>
        let key := trim (withoutExport.take eq)
        if key.length = 0 then .error (invalid ++ js ": the key is empty")
        else if isEnvSafeKey key = false then
          .error (invalid ++ js ": invalid key " ++ quote key ++ js " (keys must match " ++ envKeyPattern ++
            js ")")
        else .ok (addRow result key (unquoteValue (trim (withoutExport.drop (eq + 1)))))

def parseEnvImport (text : JsString) : Except JsString SecretImportResult := do
  let result ← (splitLines text).zipIdx.foldlM parseEnvLine ⟨[], []⟩
  if result.rows.length = 0 then .error (js "Nothing to import: no KEY=value line found") else .ok result

/-- One turn of the loop of `parseJsonImport`. -/
def parseJsonEntry (rows : List SecretImportRow) (p : JsString × JsValue) :
    Except JsString (List SecretImportRow) :=
  if p.1.length = 0 then .error (js "Invalid JSON import: empty key")
  else if p.2.isScalar then .ok (rows ++ [⟨p.1, p.2.toJsString⟩])
  else .error (js "Invalid JSON import: value for key '" ++ p.1 ++ js "' must be a scalar")

section Platform
variable (P : Platform)

def parseJsonImport (trimmed : JsString) : Except JsString SecretImportResult :=
  match P.jsonParse trimmed with
  | .error _ => .error (js "Invalid JSON: the pasted content is not valid JSON")
  | .ok (.object props) => (props.entries.foldlM parseJsonEntry []).map fun rows => ⟨rows, []⟩
  | .ok (.scalar _) | .ok (.array _) =>
      .error (js "Invalid JSON import: a flat JSON object is expected")

def parseSecretImport (text : JsString) : Except JsString SecretImportResult :=
  let trimmed := trim text
  if trimmed.length = 0 then .error (js "Nothing to import: paste .env or JSON content first")
  else if startsWith trimmed (js "\x7b") || startsWith trimmed (js "[") then parseJsonImport P trimmed
  else parseEnvImport text

end Platform

/-! ## Unescaping -/

theorem unescape_cons {c : CodeUnit} (hc : c ≠ unit '\\') (s : JsString) :
    unescapeDoubleQuoted (c :: s) = c :: unescapeDoubleQuoted s := by
  match s with
  | [] => rfl
  | [e] | [e, _] | [e, _, _] | [e, _, _, _] | e :: _ :: _ :: _ :: _ :: _ =>
      simp [unescapeDoubleQuoted, hc]

theorem unescape_dot {e : CodeUnit} (hu : e ≠ unit 'u') (hdot : isDot e = true) (s : JsString) :
    unescapeDoubleQuoted (unit '\\' :: e :: s) = unescapeUnit e ++ unescapeDoubleQuoted s := by
  match s with
  | [] | [_] | [_, _] | [_, _, _] | _ :: _ :: _ :: _ :: _ =>
      simp [unescapeDoubleQuoted, hu, hdot]

theorem unescape_hex (c : CodeUnit) (s : JsString) :
    unescapeDoubleQuoted (js "\\u" ++ hex4 c.val ++ s) = c :: unescapeDoubleQuoted s := by
  obtain ⟨h₁, h₂, h₃, h₄, hhex, hval⟩ := hex4_eq c
  rw [hhex]
  change unescapeDoubleQuoted (unit '\\' :: unit 'u' :: h₁ :: h₂ :: h₃ :: h₄ :: s) = _
  rw [unescapeDoubleQuoted, if_neg (by decide), if_pos rfl, hval]

theorem unescape_escapeChar {value char : JsString} (h : char ∈ codePoints value) (s : JsString) :
    unescapeDoubleQuoted (escapeChar char ++ s) = char ++ unescapeDoubleQuoted s := by
  unfold escapeChar
  split_ifs with h₁ h₂ h₃ h₄ h₅ h₆
  · rw [h₁]
    exact unescape_dot (by decide) (by decide) s
  · rw [h₂]
    exact unescape_dot (by decide) (by decide) s
  · rw [h₃]
    exact unescape_dot (by decide) (by decide) s
  · rw [h₄]
    exact unescape_dot (by decide) (by decide) s
  · rw [h₅]
    exact unescape_dot (by decide) (by decide) s
  · rcases codePoints_cases h with ⟨d, rfl⟩ | ⟨d, e, rfl, -, -⟩
    · exact unescape_hex d s
    · have hpair := le_codePointAt_pair d e
      omega
  · rcases codePoints_cases h with ⟨d, rfl⟩ | ⟨d, e, rfl, hd, he⟩
    · exact unescape_cons (fun hd => h₁ (by rw [hd])) s
    · have hne : ∀ x : CodeUnit, 0xd800 ≤ x.val → x ≠ unit '\\' := by
        rintro x hx rfl
        exact absurd hx (by decide)
      have he' : e ≠ unit '\\' := hne e ((by decide : 0xd800 ≤ 0xdc00).trans (isLowSurrogate_val he))
      change unescapeDoubleQuoted (d :: e :: s) = d :: e :: unescapeDoubleQuoted s
      rw [unescape_cons (hne d (isHighSurrogate_val hd)), unescape_cons he']

/-- Unescaping undoes escaping. -/
theorem unescape_escape (value : JsString) :
    unescapeDoubleQuoted ((codePoints value).flatMap escapeChar) = value := by
  have hlist : ∀ l : List JsString, (∀ char ∈ l, char ∈ codePoints value) →
      unescapeDoubleQuoted (l.flatMap escapeChar) = l.flatten := by
    intro l hl
    induction l with
    | nil => rfl
    | cons char l ih =>
        obtain ⟨hchar, hl⟩ := List.forall_mem_cons.mp hl
        rw [List.flatMap_cons, unescape_escapeChar hchar, ih hl, List.flatten_cons]
  rw [hlist _ fun _ h => h, flatten_codePoints]

/-! ## Lines -/

theorem splitLines_newline (s : JsString) : splitLines (unit '\n' :: s) = [] :: splitLines s := by
  cases s with
  | nil => rfl
  | cons d s => rw [splitLines, if_neg fun h => absurd h.1 (by decide), if_pos (Or.inl rfl)]

theorem splitLines_cons {c : CodeUnit} (hn : c ≠ unit '\n') (hr : c ≠ unit '\r') (s : JsString) :
    splitLines (c :: s) = (splitLines s).modifyHead (c :: ·) := by
  cases s with
  | nil => exact if_neg (not_or.mpr ⟨hn, hr⟩)
  | cons d s => rw [splitLines, if_neg fun h => hr h.1, if_neg (not_or.mpr ⟨hn, hr⟩)]

theorem splitLines_append {line : JsString} (h : ∀ c ∈ line, c ≠ unit '\n' ∧ c ≠ unit '\r')
    (rest : JsString) : splitLines (line ++ unit '\n' :: rest) = line :: splitLines rest := by
  induction line with
  | nil => exact splitLines_newline rest
  | cons c line ih =>
      obtain ⟨hc, h⟩ := List.forall_mem_cons.mp h
      rw [List.cons_append, splitLines_cons hc.1 hc.2, ih h]
      rfl

theorem splitLines_intercalate {lines : List JsString}
    (h : ∀ line ∈ lines, ∀ c ∈ line, c ≠ unit '\n' ∧ c ≠ unit '\r') (hne : lines ≠ []) :
    splitLines ((js "\n").intercalate lines ++ js "\n") = lines ++ [[]] := by
  induction lines with
  | nil => exact absurd rfl hne
  | cons line lines ih =>
      obtain ⟨hline, h⟩ := List.forall_mem_cons.mp h
      cases lines with
      | nil =>
          have hsingle : (js "\n").intercalate [line] = line := by simp [List.intercalate]
          rw [hsingle]
          exact splitLines_append hline []
      | cons line' lines =>
          have hrest : (js "\n").intercalate (line :: line' :: lines) ++ js "\n" =
              line ++ unit '\n' :: ((js "\n").intercalate (line' :: lines) ++ js "\n") := by
            simp [List.intercalate, js, unitsOfChar, unit]
          rw [hrest, splitLines_append hline, ih h (by simp)]
          rfl

/-- Text without a line break is one line. -/
theorem splitLines_eq_singleton {line : JsString} (h : ∀ c ∈ line, c ≠ unit '\n' ∧ c ≠ unit '\r') :
    splitLines line = [line] := by
  induction line with
  | nil => rfl
  | cons c line ih =>
      obtain ⟨hc, h⟩ := List.forall_mem_cons.mp h
      rw [splitLines_cons hc.1 hc.2, ih h]
      rfl

theorem newline_notMem_envLine {p : JsString × JsString} (hkey : isEnvSafeKey p.1 = true) {c : CodeUnit}
    (hc : c ∈ envLine p) : c ≠ unit '\n' ∧ c ≠ unit '\r' := by
  rcases List.mem_append.mp hc with hc | hc
  · have hunit := isEnvKeyUnit_of_mem hkey hc
    exact ⟨ne_of_isEnvKeyUnit hunit (by decide), ne_of_isEnvKeyUnit hunit (by decide)⟩
  · rcases List.mem_cons.mp hc with rfl | hc
    · decide
    · exact newline_notMem_escapeEnvValue p.2 hc

/-- The lines of an export are those of its entries, and the empty one at its end. -/
theorem splitLines_export {data : SecretData} (hne : data.entries ≠ []) (hsafe : data.EnvSafe) :
    splitLines ((js "\n").intercalate (data.entries.map envLine) ++ js "\n") =
      data.entries.map envLine ++ [[]] := by
  refine splitLines_intercalate (fun line hline c hc => ?_) (by simpa using hne)
  obtain ⟨p, hp, rfl⟩ := List.mem_map.mp hline
  exact newline_notMem_envLine (hsafe p.1 (List.mem_map_of_mem hp)) hc

/-! ## One line -/

/-- What the import makes of an exported value. -/
def imported (value : JsString) : JsString := if needsQuoting value then value else trim value

theorem imported_eq_self_iff (value : JsString) :
    imported value = value ↔ needsQuoting value = true ∨ Trimmed value := by
  unfold imported
  split_ifs with h
  · simp [h]
  · rw [trim_eq_self_iff]
    simp [h]

theorem isEnvKeyUnit_equals : isEnvKeyUnit (unit '=') = false := by decide

/-- The first `=` of a line is the one after the key. -/
theorem findIdx?_equals {key : JsString} (h : isEnvSafeKey key = true) (v : JsString) :
    (key ++ unit '=' :: v).findIdx? (· = unit '=') = some key.length := by
  rw [List.findIdx?_eq_some_iff_getElem]
  refine ⟨by simp, by simp, fun i hi => ?_⟩
  rw [List.getElem_append_left hi]
  have hunit := isEnvKeyUnit_of_mem h (List.getElem_mem hi)
  simpa using ne_of_isEnvKeyUnit hunit isEnvKeyUnit_equals

/-- A line `KEY=value` does not start with `export `. -/
theorem startsWith_export {key : JsString} (h : isEnvSafeKey key = true) (v : JsString) :
    startsWith (key ++ unit '=' :: v) (js "export ") = false := by
  rw [Bool.eq_false_iff]
  intro hstart
  obtain ⟨rest, hrest⟩ := (startsWith_iff _ _).mp hstart
  -- the space of `export ` is inside the key, or the `=` is inside `export `
  have hget : ∀ i, (js "export ")[i]? = (key ++ unit '=' :: v)[i]? ∨ 7 ≤ i := by
    intro i
    by_cases hi : i < 7
    · refine Or.inl ?_
      rw [← hrest, List.getElem?_append_left hi]
    · exact Or.inr (by omega)
  by_cases hlen : key.length ≤ 6
  · rcases hget key.length with heq | hle
    · rw [List.getElem?_append_right le_rfl, Nat.sub_self] at heq
      have hall : ∀ i, i ≤ 6 → (js "export ")[i]? ≠ some (unit '=') := by decide
      exact hall _ hlen heq
    · omega
  · rcases hget 6 with heq | hle
    · rw [List.getElem?_append_left (by omega)] at heq
      have hmem : unit ' ' ∈ key := List.mem_of_getElem? heq.symm
      exact absurd (isEnvKeyUnit_of_mem h hmem) (by decide)
    · omega

theorem trim_line {key : JsString} (h : isEnvSafeKey key = true) (v : JsString) :
    trim (key ++ unit '=' :: v) = key ++ unit '=' :: trimEnd v := by
  cases key with
  | nil => cases h
  | cons c key =>
      have hc := isWhiteSpace_of_isEnvKeyUnit (isEnvKeyUnit_of_mem h (List.mem_cons_self ..))
      rw [List.cons_append, trim_cons hc, trimEnd_append_cons key (by decide)]
      rfl

theorem trimmed_key {key : JsString} (h : isEnvSafeKey key = true) : trim key = key := by
  refine (trim_eq_self_iff key).mpr ⟨fun c hc => ?_, fun c hc => ?_⟩
  · exact isWhiteSpace_of_isEnvKeyUnit (isEnvKeyUnit_of_mem h (List.mem_of_mem_head? hc))
  · exact isWhiteSpace_of_isEnvKeyUnit (isEnvKeyUnit_of_mem h (List.mem_of_getLast? hc))

/-- The value of an exported line, read back. -/
theorem unquoteValue_escapeEnvValue (value : JsString) :
    unquoteValue (trim (escapeEnvValue value)) = imported value := by
  unfold escapeEnvValue imported
  split_ifs with h hq hq
  · rw [h] at hq
    cases hq
  · -- plain text has no quotes, before and after the trimming
    have hmem : ∀ c ∈ trim value, c ∈ value := by
      intro c hc
      have hstart : c ∈ trimStart value := by
        rw [trim, trimEnd, List.mem_reverse] at hc
        exact List.mem_reverse.mp ((List.dropWhile_suffix _).mem hc)
      exact (List.dropWhile_suffix _).mem hstart
    have hhead : ∀ q : CodeUnit, (q = unit '"' ∨ q = unit '\'') → startsWith (trim value) [q] = false := by
      intro q hq
      rw [Bool.eq_false_iff]
      intro hstart
      obtain ⟨rest, hrest⟩ := (startsWith_iff _ _).mp hstart
      have hplain := (plain_of_needsQuoting_eq_false h).2 q (hmem q (hrest ▸ List.mem_cons_self ..))
      rcases hq with rfl | rfl
      · exact hplain.2.1 rfl
      · exact hplain.2.2 rfl
    have happ : startsWith (trim value) (js "'") = false := hhead _ (Or.inr rfl)
    have hquo : startsWith (trim value) (js "\"") = false := hhead _ (Or.inl rfl)
    simp only [unquoteValue, happ, hquo, Bool.false_and, Bool.false_eq_true, if_false]
  · have htrim : trim (unit '"' :: ((codePoints value).flatMap escapeChar ++ [unit '"'])) =
        unit '"' :: ((codePoints value).flatMap escapeChar ++ [unit '"']) := by
      rw [trim_cons (by decide), trimEnd_append_cons _ (by decide)]
      rfl
    have happ : startsWith (unit '"' :: ((codePoints value).flatMap escapeChar ++ [unit '"'])) (js "'") =
        false := rfl
    have hquo : startsWith (unit '"' :: ((codePoints value).flatMap escapeChar ++ [unit '"'])) (js "\"") =
        true := by
      rw [startsWith_iff]
      exact ⟨_, rfl⟩
    have hend : endsWith (unit '"' :: ((codePoints value).flatMap escapeChar ++ [unit '"'])) (js "\"") =
        true := by
      rw [endsWith_iff]
      exact ⟨unit '"' :: (codePoints value).flatMap escapeChar, rfl⟩
    rw [htrim, unquoteValue, happ, hquo, hend, Bool.false_and, Bool.false_and, if_neg (by decide),
      if_pos (by simp), List.drop_one, List.tail_cons, List.dropLast_concat, unescape_escape]
  · rw [Bool.eq_false_iff] at h
    exact absurd (by simpa using h) hq

/-- An exported line adds the row of its key. -/
theorem parseEnvLine_envLine (result : SecretImportResult) {p : JsString × JsString}
    (hkey : isEnvSafeKey p.1 = true) (hnew : ∀ row ∈ result.rows, row.key ≠ p.1) (n : Nat) :
    parseEnvLine result (envLine p, n) =
      .ok { result with rows := result.rows ++ [⟨p.1, imported p.2⟩] } := by
  obtain ⟨c, rest, hc, hcons⟩ : ∃ c rest, isEnvKeyStart c = true ∧ p.1 = c :: rest := by
    cases hp : p.1 with
    | nil => rw [hp] at hkey; cases hkey
    | cons c rest =>
        rw [hp] at hkey
        exact ⟨c, rest, (Bool.and_eq_true_iff.mp hkey).1, rfl⟩
  have hlen : (p.1 ++ unit '=' :: trimEnd (escapeEnvValue p.2)).length ≠ 0 := by simp
  have hhash : startsWith (p.1 ++ unit '=' :: trimEnd (escapeEnvValue p.2)) (js "#") = false := by
    rw [Bool.eq_false_iff]
    intro hstart
    obtain ⟨s, hs⟩ := (startsWith_iff _ _).mp hstart
    rw [hcons] at hs
    have hcu : unit '#' = c := (List.cons.inj hs).1
    rw [← hcu] at hc
    cases hc
  have hkeylen : p.1.length ≠ 0 := by simp [hcons]
  have hadd : ∀ value, addRow result p.1 value =
      { result with rows := result.rows ++ [⟨p.1, value⟩] } := by
    intro value
    rw [addRow, if_neg]
    simpa using hnew
  simp only [parseEnvLine, envLine, trim_line hkey, hlen, hhash, startsWith_export hkey,
    findIdx?_equals hkey, List.take_left, trimmed_key hkey, hkeylen, hkey, hadd, decide_false,
    Bool.false_or, Bool.false_eq_true, if_false, Bool.true_eq_false]
  have hdrop : (p.1 ++ unit '=' :: trimEnd (escapeEnvValue p.2)).drop (p.1.length + 1) =
      trimEnd (escapeEnvValue p.2) := by
    simp [List.drop_append]
  rw [hdrop, trim_trimEnd, unquoteValue_escapeEnvValue]

/-! ## The whole text -/

theorem foldlM_parseEnvLine {entries : List (JsString × JsString)}
    (hdistinct : Distinct Prod.fst entries) (hsafe : ∀ p ∈ entries, isEnvSafeKey p.1 = true)
    (result : SecretImportResult) (hnew : ∀ row ∈ result.rows, ∀ p ∈ entries, row.key ≠ p.1) (n : Nat) :
    ((entries.map envLine ++ [[]]).zipIdx n).foldlM parseEnvLine result =
      .ok { result with rows := result.rows ++ entries.map fun p => ⟨p.1, imported p.2⟩ } := by
  induction entries generalizing result n with
  | nil => simp [parseEnvLine, trim, trimStart, trimEnd, pure, Except.pure, bind, Except.bind]
  | cons p entries ih =>
      obtain ⟨hp, hdistinct⟩ := distinct_cons.mp hdistinct
      obtain ⟨hkey, hsafe⟩ := List.forall_mem_cons.mp hsafe
      have hline := parseEnvLine_envLine result hkey
        (fun row hrow => hnew row hrow p (List.mem_cons_self ..)) n
      rw [List.map_cons, List.cons_append, List.zipIdx_cons, List.foldlM_cons, hline]
      refine (ih hdistinct hsafe _ (fun row hrow q hq => ?_) (n + 1)).trans ?_
      · rcases List.mem_append.mp hrow with hrow | hrow
        · exact hnew row hrow q (List.mem_cons_of_mem _ hq)
        · obtain rfl := List.mem_singleton.mp hrow
          exact (hp q hq).symm
      · rw [List.append_assoc, List.map_cons]
        rfl

/-- The export is read as a `.env` file, not as JSON. -/
theorem parseSecretImport_of_start {P : Platform} {c : CodeUnit} (hc : isEnvKeyStart c = true)
    (rest : JsString) : parseSecretImport P (c :: rest) = parseEnvImport (c :: rest) := by
  have hws : isWhiteSpace c = false := isWhiteSpace_of_isEnvKeyUnit (by rw [isEnvKeyUnit, hc]; rfl)
  have hne : ∀ q : CodeUnit, isEnvKeyStart q = false → startsWith (c :: trimEnd rest) [q] = false := by
    intro q hq
    rw [Bool.eq_false_iff]
    intro hstart
    obtain ⟨s, hs⟩ := (startsWith_iff _ _).mp hstart
    rw [← (List.cons.inj hs).1, hq] at hc
    cases hc
  have hbrace : startsWith (c :: trimEnd rest) (js "\x7b") = false := hne _ (by decide)
  have hbracket : startsWith (c :: trimEnd rest) (js "[") = false := hne _ (by decide)
  simp only [parseSecretImport, trim_cons hws, hbrace, hbracket]
  simp

/-- What the import makes of an export: the entries in their order, each value as it is read back. -/
theorem parseSecretImport_export {P : Platform} {data : SecretData} (hne : data.entries ≠ [])
    (hsafe : data.EnvSafe) :
    ∃ text, secretDataToEnvContent data = .ok text ∧
      parseSecretImport P text = .ok ⟨data.entries.map fun p => ⟨p.1, imported p.2⟩, []⟩ := by
  have hkeys : ∀ p ∈ data.entries, isEnvSafeKey p.1 = true := fun p hp =>
    hsafe p.1 (List.mem_map_of_mem hp)
  obtain ⟨c, rest, hc, htext⟩ : ∃ c rest, isEnvKeyStart c = true ∧
      (js "\n").intercalate (data.entries.map envLine) ++ js "\n" = c :: rest := by
    obtain ⟨p, entries, hentries⟩ := List.exists_cons_of_ne_nil hne
    have hkey := hkeys p (hentries ▸ List.mem_cons_self ..)
    obtain ⟨more, hmore⟩ : ∃ more,
        (js "\n").intercalate (data.entries.map envLine) ++ js "\n" = envLine p ++ more := by
      rw [hentries]
      cases entries with
      | nil => exact ⟨js "\n", by simp [List.intercalate]⟩
      | cons q entries => exact ⟨_, by simp [List.intercalate]; rfl⟩
    cases hp : p.1 with
    | nil => rw [hp] at hkey; cases hkey
    | cons c key =>
        rw [hp] at hkey
        rw [envLine, hp] at hmore
        exact ⟨c, _, (Bool.and_eq_true_iff.mp hkey).1, hmore⟩
  refine ⟨_, secretDataToEnvContent_eq hsafe hne, ?_⟩
  have hsplit := splitLines_export hne hsafe
  rw [htext] at hsplit ⊢
  have hfold := foldlM_parseEnvLine data.distinct hkeys ⟨[], []⟩ (by simp) 0
  rw [parseSecretImport_of_start hc, parseEnvImport, hsplit, hfold]
  have hrows : (data.entries.map fun p => (⟨p.1, imported p.2⟩ : SecretImportRow)).length ≠ 0 := by
    rw [List.length_map]
    exact fun h => hne (List.length_eq_zero_iff.mp h)
  exact if_neg hrows

/-- **A quoted value makes no line of its own, and the import reads it back exactly.** -/
theorem quotedValue_readBack {data : SecretData} {text key value : JsString}
    (hexport : secretDataToEnvContent data = .ok text) (hmem : (key, value) ∈ data.entries)
    (hquoted : needsQuoting value = true) :
    splitLines text = data.entries.map envLine ++ [[]] ∧
      ∃ quoted, escapeEnvValue value = unit '"' :: (quoted ++ [unit '"']) ∧
        splitLines (escapeEnvValue value) = [escapeEnvValue value] ∧ unescapeDoubleQuoted quoted = value := by
  have hne : data.entries ≠ [] := List.ne_nil_of_mem hmem
  have hsafe := envSafe_of_export hexport
  constructor
  · obtain rfl := Except.ok.inj ((secretDataToEnvContent_eq hsafe hne).symm.trans hexport)
    exact splitLines_export hne hsafe
  · refine ⟨(codePoints value).flatMap escapeChar, ?_, ?_, unescape_escape value⟩
    · rw [escapeEnvValue, if_neg (by simp [hquoted])]
    · exact splitLines_eq_singleton fun c hc => newline_notMem_escapeEnvValue value hc

section Example

/-- A value that looks like a second line, with a backslash before an `n`. -/
def forgedLine : SecretData := ⟨[(js "KEY", js "x\nOTHER=\\n")], by decide⟩

theorem quotedValue_readBack_forgedLine :
    splitLines (js "KEY=\"x\\nOTHER=\\\\n\"\n") = forgedLine.entries.map envLine ++ [[]] ∧
      ∃ quoted, escapeEnvValue (js "x\nOTHER=\\n") = unit '"' :: (quoted ++ [unit '"']) ∧
        splitLines (escapeEnvValue (js "x\nOTHER=\\n")) = [escapeEnvValue (js "x\nOTHER=\\n")] ∧
        unescapeDoubleQuoted quoted = js "x\nOTHER=\\n" :=
  @quotedValue_readBack forgedLine _ (js "KEY") _ (by rfl) (by decide) (by decide)

end Example

/-- The import of the export of the data is the data, without a warning. -/
def EnvRoundTrip (P : Platform) (data : SecretData) : Prop :=
  ∃ text, secretDataToEnvContent data = .ok text ∧
    parseSecretImport P text = .ok ⟨data.entries.map fun p => ⟨p.1, p.2⟩, []⟩

/-- **An exported secret is imported unchanged if and only if every value is exported in quotes or
neither starts nor ends with white space.** -/
theorem envRoundTrip_iff {P : Platform} {data : SecretData} (hne : data.entries ≠ [])
    (hsafe : data.EnvSafe) :
    EnvRoundTrip P data ↔ ∀ p ∈ data.entries, needsQuoting p.2 = true ∨ Trimmed p.2 := by
  obtain ⟨text, hexport, himport⟩ := parseSecretImport_export (P := P) hne hsafe
  have hrows : EnvRoundTrip P data ↔
      (data.entries.map fun p => (⟨p.1, imported p.2⟩ : SecretImportRow)) =
        data.entries.map fun p => ⟨p.1, p.2⟩ := by
    constructor
    · rintro ⟨text', hexport', himport'⟩
      obtain rfl : text = text' := Except.ok.inj (hexport.symm.trans hexport')
      have heq := Except.ok.inj (himport.symm.trans himport')
      exact congrArg SecretImportResult.rows heq
    · intro h
      exact ⟨text, hexport, by rw [himport, h]⟩
  rw [hrows, List.map_inj_left]
  refine forall₂_congr fun p _ => ?_
  rw [← imported_eq_self_iff, SecretImportRow.mk.injEq]
  simp

section Example

/-- A value that starts with a no-break space. -/
def withNoBreakSpace : SecretData := ⟨[(js "KEY", 0xa0 :: js "x")], by decide⟩

noncomputable def importPlatform : Platform := .ofDigests []

theorem envRoundTrip_iff_withNoBreakSpace :
    EnvRoundTrip importPlatform withNoBreakSpace ↔
      ∀ p ∈ withNoBreakSpace.entries, needsQuoting p.2 = true ∨ Trimmed p.2 :=
  envRoundTrip_iff (by decide) (by decide)

/-- The no-break space is lost. -/
theorem not_envRoundTrip_withNoBreakSpace :
    withNoBreakSpace.entries ≠ [] ∧ withNoBreakSpace.EnvSafe ∧
      ¬ EnvRoundTrip importPlatform withNoBreakSpace := by
  refine ⟨by decide, by decide, ?_⟩
  rintro ⟨text, hexport, himport⟩
  obtain ⟨text', hexport', himport'⟩ :=
    @parseSecretImport_export importPlatform withNoBreakSpace (by decide) (by decide)
  obtain rfl : text = text' := Except.ok.inj (hexport.symm.trans hexport')
  exact absurd (Except.ok.inj (himport.symm.trans himport')) (by decide)

end Example

end SecretsManager
