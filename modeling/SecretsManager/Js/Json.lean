import SecretsManager.Js.Object
import SecretsManager.Library.Delimited

/-!
# `JSON.stringify` and the values of `JSON.parse`

The serialisations that the program hashes and writes to files are built from quoted strings by
brackets and commas. A quoted string is read back unit by unit, so it is self-delimiting, and with it
every serialisation below.
-/

namespace SecretsManager

open Js Delimited

/-! ## Values -/

/-- A JavaScript number, by what the program uses of it: its `String(n)` and its value when
`Number.isInteger(n)`. -/
structure JsNumber where
  text : JsString
  integer? : Option Int
  deriving DecidableEq

/-- A value inside an object that `JSON.parse` returns. The program looks at the type of an array or an
object found there, never inside it. -/
inductive JsValue where
  | null
  | bool (b : Bool)
  | num (n : JsNumber)
  | str (s : JsString)
  | array
  | object
  deriving DecidableEq

/-- A whole parsed document. Of an array only the members that are objects are looked at; another
member is `none`. -/
inductive Json where
  | scalar (v : JsValue)
  | object (props : JsObject JsValue)
  | array (items : List (Option (JsObject JsValue)))
  deriving DecidableEq

namespace JsValue

/-- `typeof v` is `string`, `number` or `boolean`. -/
def isScalar : JsValue → Bool
  | bool _ | num _ | str _ => true
  | null | array | object => false

/-- `String(v)` of a scalar. -/
def toJsString : JsValue → JsString
  | bool true => js "true"
  | bool false => js "false"
  | num n => n.text
  | str s => s
  | null => js "null"
  | array | object => []

end JsValue

/-- A map of strings as the object that `JSON.parse` gives for its serialisation. -/
def JsObject.toJson (o : JsObject JsString) : Json :=
  .object ⟨o.entries.map fun p => (p.1, .str p.2), by
    have hmap : (o.entries.map fun p => (p.1, JsValue.str p.2)).map Prod.fst = o.entries.map Prod.fst := by
      rw [List.map_map]
      rfl
    rw [SortedBy.Distinct, hmap]
    exact o.distinct⟩

namespace Js

/-! ## Quoted strings -/

/-- A unit outside a surrogate pair, as `QuoteJSONString` writes it. -/
def quoteUnit (c : CodeUnit) : JsString :=
  if c = unit '"' then js "\\\""
  else if c = unit '\\' then js "\\\\"
  else if c = 8 then js "\\b"
  else if c = 9 then js "\\t"
  else if c = 10 then js "\\n"
  else if c = 12 then js "\\f"
  else if c = 13 then js "\\r"
  else if c.val < 0x20 || isHighSurrogate c || isLowSurrogate c then js "\\u" ++ hex4 c.val
  else [c]

def quoteUnits : JsString → JsString
  | [] => []
  | [c] => quoteUnit c
  | c :: d :: s =>
      if isHighSurrogate c && isLowSurrogate d then c :: d :: quoteUnits s
      else quoteUnit c ++ quoteUnits (d :: s)

/-- `JSON.stringify(s)` of a string. -/
def quote (s : JsString) : JsString := unit '"' :: (quoteUnits s ++ [unit '"'])

/-- The unit after a backslash, other than `u`. -/
def shortEscape (c : CodeUnit) : Option CodeUnit :=
  if c = unit '"' then some (unit '"')
  else if c = unit '\\' then some (unit '\\')
  else if c = unit 'b' then some 8
  else if c = unit 't' then some 9
  else if c = unit 'n' then some 10
  else if c = unit 'f' then some 12
  else if c = unit 'r' then some 13
  else none

/-- Reads what follows a backslash. -/
def readEscape : JsString → Option (CodeUnit × JsString)
  | [] => none
  | e :: rest =>
      if e = unit 'u' then
        match rest with
        | h₁ :: h₂ :: h₃ :: h₄ :: rest => (unitOfHex h₁ h₂ h₃ h₄).map (·, rest)
        | _ => none
      else (shortEscape e).map (·, rest)

/-- Reads one unit of a quoted string. -/
def readUnit : JsString → Option (CodeUnit × JsString)
  | [] => none
  | c :: rest =>
      if c = unit '"' then none else if c = unit '\\' then readEscape rest else some (c, rest)

theorem readUnit_cons (c : CodeUnit) (rest : JsString) :
    readUnit (c :: rest) =
      if c = unit '"' then none else if c = unit '\\' then readEscape rest else some (c, rest) := rfl

theorem readUnit_plain {c : CodeUnit} (hq : c ≠ unit '"') (hb : c ≠ unit '\\') (x : JsString) :
    readUnit ([c] ++ x) = some (c, x) := by
  rw [List.singleton_append, readUnit_cons, if_neg hq, if_neg hb]

theorem readUnit_hex (c : CodeUnit) (x : JsString) :
    readUnit (js "\\u" ++ hex4 c.val ++ x) = some (c, x) := by
  obtain ⟨h₁, h₂, h₃, h₄, hhex, hval⟩ := hex4_eq c
  rw [hhex]
  change readUnit (unit '\\' :: unit 'u' :: h₁ :: h₂ :: h₃ :: h₄ :: x) = _
  rw [readUnit_cons, if_neg (by decide), if_pos rfl]
  simp only [readEscape, if_true, hval, Option.map_some]

theorem readUnit_quoteUnit (c : CodeUnit) (x : JsString) :
    readUnit (quoteUnit c ++ x) = some (c, x) := by
  unfold quoteUnit
  split_ifs with h₁ h₂ h₃ h₄ h₅ h₆ h₇ h₈
  · subst h₁; rfl
  · subst h₂; rfl
  · subst h₃; rfl
  · subst h₄; rfl
  · subst h₅; rfl
  · subst h₆; rfl
  · subst h₇; rfl
  · exact readUnit_hex c x
  · exact readUnit_plain h₁ h₂ x

theorem surrogate_ne {c : CodeUnit} (h : isHighSurrogate c = true ∨ isLowSurrogate c = true) :
    c ≠ unit '"' ∧ c ≠ unit '\\' := by
  constructor <;> rintro rfl <;> exact absurd h (by decide)

theorem spells_quoteUnits (s : JsString) : Spells readUnit s (quoteUnits s) := by
  fun_induction quoteUnits s with
  | case1 => exact .nil
  | case2 c => simpa using Spells.cons (readUnit_quoteUnit c) .nil
  | case3 c d s h ih =>
      rw [Bool.and_eq_true] at h
      obtain ⟨hc, hd⟩ := And.intro (surrogate_ne (Or.inl h.1)) (surrogate_ne (Or.inr h.2))
      exact .cons (readUnit_plain hc.1 hc.2) (.cons (readUnit_plain hd.1 hd.2) ih)
  | case4 c d s h ih => exact .cons (readUnit_quoteUnit c) ih

theorem selfDelimiting_quote : SelfDelimiting quote := by
  intro s t x y h
  simp only [quote, List.cons_append, List.append_assoc, List.nil_append, List.cons.injEq,
    true_and] at h
  exact (spells_quoteUnits s).closed (fun x => by rw [readUnit_cons, if_pos rfl]) (spells_quoteUnits t) h

/-! ## Objects of strings -/

/-- `"key":"value"` -/
def propertyText (p : JsString × JsString) : JsString := quote p.1 ++ js ":" ++ quote p.2

theorem selfDelimiting_propertyText : SelfDelimiting propertyText :=
  selfDelimiting_quote.pair selfDelimiting_quote _

/-- `JSON.stringify(o)`: the properties in the order of `Object.keys`. -/
def stringify (o : JsObject JsString) : JsString :=
  js "\x7b" ++ sepBy (js ",") (unit '}') propertyText o.entries

theorem selfDelimiting_stringify : SelfDelimiting stringify := by
  have h : SelfDelimiting (sepBy (js ",") (unit '}') propertyText) :=
    selfDelimiting_propertyText.sepBy (by decide) fun p => ⟨unit '"', _, rfl, by decide⟩
  refine (h.lead (js "\x7b")).comp (f := JsObject.entries) fun a b hab => ?_
  cases a
  cases b
  cases hab
  rfl

/-- `"key": "value"` -/
def spacedPropertyText (p : JsString × JsString) : JsString := quote p.1 ++ js ": " ++ quote p.2

/-- `JSON.stringify(o, null, 2)` and the final newline of `writeJson`. -/
def stringifyIndented (o : JsObject JsString) : JsString :=
  if o.entries = [] then js "\x7b\x7d\n"
  else js "\x7b\n  " ++ sepBy (js ",\n  ") (unit '\n') spacedPropertyText o.entries ++ js "\x7d\n"

theorem stringifyIndented_injective : Function.Injective stringifyIndented := by
  have hlist : SelfDelimiting (sepBy (js ",\n  ") (unit '\n') spacedPropertyText) :=
    (selfDelimiting_quote.pair selfDelimiting_quote _).sepBy (by decide)
      fun p => ⟨unit '"', _, rfl, by decide⟩
  have hentries : ∀ a b : JsObject JsString, a.entries = b.entries → a = b := by
    rintro ⟨a, _⟩ ⟨b, _⟩ rfl
    rfl
  have hbrace : ∀ l : JsString, js "\x7b\x7d\n" ≠ js "\x7b\n  " ++ l := by
    intro l h
    exact absurd (List.cons.inj (List.cons.inj h).2).1 (by decide)
  intro a b h
  unfold stringifyIndented at h
  split_ifs at h with ha hb hb
  · exact hentries a b (ha.trans hb.symm)
  · rw [List.append_assoc] at h
    exact absurd h (hbrace _)
  · rw [List.append_assoc] at h
    exact absurd h.symm (hbrace _)
  · exact hentries a b (((hlist.lead _).trail _).injective h)

theorem take_stringifyIndented (o : JsObject JsString) :
    (stringifyIndented o).take 2 ∈ [js "\x7b\x7d", js "\x7b\n"] := by
  unfold stringifyIndented
  split_ifs
  · exact List.mem_cons_self ..
  · rw [List.append_assoc]
    exact List.mem_cons_of_mem _ (List.mem_cons_self ..)

end Js

end SecretsManager
