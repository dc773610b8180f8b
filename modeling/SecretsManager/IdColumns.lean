import SecretsManager.Js.Text

/-!
# Columns of ids

The ids of the rows are columns of the database, and what a column makes of a parameter depends on its type. A text
column keeps what UTF-8 keeps of it. A `UUID` column of PostgreSQL reads any spelling of the number, in braces or
with capital letters or without hyphens, fails on every other text, and gives the number back in one spelling.
-/

namespace SecretsManager

open Js

/-- What a column of ids reads of a parameter, if the statement does not fail. What it has read it reads again. -/
structure IdColumn where
  read : JsString → Option JsString
  stored : ∀ {s id}, read s = some id → read id = some id

namespace IdColumn
variable (ids : IdColumn)

/-- The text is the spelling that the column gives back. -/
def Stored (id : JsString) : Prop := ids.read id = some id

instance (id : JsString) : Decidable (ids.Stored id) := inferInstanceAs (Decidable (_ = _))

/-- An id is given in its stored spelling. A text that is no id is given in no other. -/
def Spelled (s : JsString) : Prop := ids.read s = none ∨ ids.Stored s

instance (s : JsString) : Decidable (ids.Spelled s) := inferInstanceAs (Decidable (_ ∨ _))

/-- The stored spelling of an id, and any other text as it is. -/
def spell (s : JsString) : JsString := (ids.read s).getD s

variable {ids} {s id : JsString}

theorem spell_of_read (h : ids.read s = some id) : ids.spell s = id := by
  rw [spell, h]
  rfl

theorem Stored.spelled (h : ids.Stored s) : ids.Spelled s := Or.inr h

/-- Spelled texts are those that the column gives back. -/
theorem spell_eq_self_iff : ids.spell s = s ↔ ids.Spelled s := by
  unfold spell Spelled Stored
  cases ids.read s with
  | none => simp
  | some id => simp

theorem stored_spell (h : (ids.read s).isSome = true) : ids.Stored (ids.spell s) := by
  obtain ⟨id, hid⟩ := Option.isSome_iff_exists.mp h
  rw [spell_of_read hid]
  exact ids.stored hid

end IdColumn

/-! ## The columns of the two databases -/

/-- A text column, as SQLite has it. -/
def IdColumn.text : IdColumn where
  read s := some (toWellFormed s)
  stored := by
    rintro s _ ⟨⟩
    exact congrArg some (toWellFormed_idem s)

/-- A text column gives back what is well formed. -/
theorem IdColumn.spelled_text {s : JsString} (h : isWellFormed s = true) : IdColumn.text.Spelled s :=
  Or.inr (congrArg some (toWellFormed_of_isWellFormed h))

namespace Uuid

def dropHyphen : JsString → JsString
  | [] => []
  | c :: s => if c = unit '-' then s else c :: s

/-- Groups of four digits, after each of which but the last a hyphen can follow, and the rest of the text. -/
def readGroups : Nat → JsString → Option (List CodeUnit × JsString)
  | 0, s => some ([], s)
  | n + 1, a :: b :: c :: d :: s =>
      (unitOfHex a b c d).bind fun group =>
        (readGroups n (if n = 0 then s else dropHyphen s)).map fun tail => (group :: tail.1, tail.2)
  | _ + 1, _ => none

/-- The spelling in lower-case digits and four hyphens. -/
def write : List CodeUnit → JsString
  | a :: b :: c :: d :: e :: rest =>
      hex4 a.val ++ (hex4 b.val ++ (js "-" ++ (hex4 c.val ++ (js "-" ++ (hex4 d.val ++ (js "-" ++ (hex4 e.val ++
        (js "-" ++ rest.flatMap fun group => hex4 group.val))))))))
  | _ => []

/-- The groups of a text that ends after them, and after the brace that was opened. -/
def readAll (s closing : JsString) : Option JsString := do
  let groups ← readGroups 8 s
  if groups.2 = closing then some (write groups.1) else none

/-- `string_to_uuid` of PostgreSQL, and `uuid_out` of the number. -/
def read (s : JsString) : Option JsString :=
  match s with
  | [] => none
  | c :: rest => if c = unit '{' then readAll rest (js "\x7d") else readAll s []

theorem readGroups_hex4 (group : CodeUnit) (n : Nat) (s : JsString) :
    readGroups (n + 1) (hex4 group.val ++ s) =
      (readGroups n (if n = 0 then s else dropHyphen s)).map fun tail => (group :: tail.1, tail.2) := by
  obtain ⟨a, b, c, d, hdigits, hgroup⟩ := hex4_eq group
  rw [hdigits]
  show (unitOfHex a b c d).bind _ = _
  rw [hgroup]
  rfl

theorem length_readGroups {n : Nat} {s : JsString} {groups : List CodeUnit × JsString}
    (h : readGroups n s = some groups) : groups.1.length = n := by
  induction n generalizing s groups with
  | zero =>
      obtain rfl := Option.some.inj h
      rfl
  | succ n ih =>
      match s, h with
      | a :: b :: c :: d :: s, h =>
          obtain ⟨group, -, htail⟩ := Option.bind_eq_some_iff.mp h
          obtain ⟨tail, hread, rfl⟩ := Option.map_eq_some_iff.mp htail
          rw [List.length_cons, ih hread]

theorem dropHyphen_hyphen (s : JsString) : dropHyphen (js "-" ++ s) = s := rfl

/-- A digit is neither a hyphen nor a brace. -/
theorem head_hex4 (n : Nat) (s : JsString) : ∃ c rest, hex4 n ++ s = c :: rest ∧ c ≠ unit '-' ∧ c ≠ unit '{' := by
  have hdigits : ∀ n, n < 16 → hexDigit n ≠ unit '-' ∧ hexDigit n ≠ unit '{' := by decide
  have hdigit := hdigits (n / 0x1000 % 16) (Nat.mod_lt _ (by decide))
  exact ⟨_, _, rfl, hdigit.1, hdigit.2⟩

theorem dropHyphen_hex4 (n : Nat) (s : JsString) : dropHyphen (hex4 n ++ s) = hex4 n ++ s := by
  obtain ⟨c, rest, heq, hne, -⟩ := head_hex4 n s
  rw [heq, dropHyphen, if_neg hne]

theorem readGroups_write {groups : List CodeUnit} (h : groups.length = 8) :
    readGroups 8 (write groups) = some (groups, []) := by
  match groups, h with
  | [a, b, c, d, e, f, g, i], _ =>
      have hlast : readGroups 1 (hex4 i.val) = some ([i], []) := by
        simpa [readGroups] using readGroups_hex4 i 0 []
      have hdrop : dropHyphen (hex4 i.val) = hex4 i.val := by simpa using dropHyphen_hex4 i.val []
      simp [write, readGroups_hex4, dropHyphen_hyphen, dropHyphen_hex4, hlast, hdrop]

theorem read_write {groups : List CodeUnit} (h : groups.length = 8) : read (write groups) = some (write groups) := by
  have hhead : ∃ c rest, write groups = c :: rest ∧ c ≠ unit '{' := by
    match groups, h with
    | [a, b, c, d, e, f, g, i], _ =>
        obtain ⟨first, rest, heq, -, hne⟩ := head_hex4 a.val _
        exact ⟨first, rest, heq, hne⟩
  obtain ⟨c, rest, heq, hne⟩ := hhead
  have hread : read (c :: rest) = readAll (c :: rest) [] := if_neg hne
  rw [heq, hread, ← heq, readAll, readGroups_write h]
  rfl

theorem read_of_readAll {s closing id : JsString} (h : readAll s closing = some id) : read id = some id := by
  obtain ⟨groups, hgroups, hid⟩ := Option.bind_eq_some_iff.mp h
  split_ifs at hid
  obtain rfl := Option.some.inj hid
  exact read_write (length_readGroups hgroups)

end Uuid

/-- A `UUID` column of PostgreSQL. -/
def IdColumn.uuid : IdColumn where
  read := Uuid.read
  stored := by
    intro s id h
    unfold Uuid.read at h
    split at h
    · cases h
    · split_ifs at h
      · exact Uuid.read_of_readAll h
      · exact Uuid.read_of_readAll h

/-- An id as PostgreSQL gives it back, and the same number in capital letters. -/
def lowerId : JsString := js "7c9e6679-7425-40de-944b-e07fc1f90ae7"

def upperId : JsString := js "7C9E6679-7425-40DE-944B-E07FC1F90AE7"

example : IdColumn.uuid.read upperId = some lowerId := by decide

example : IdColumn.uuid.read (js "\x7bABCDEF0123456789abcdef0123456789\x7d") =
    some (js "abcdef01-2345-6789-abcd-ef0123456789") := by decide

example : IdColumn.uuid.read (js "abcdef01-2345-6789-abcd") = none := by decide

end SecretsManager
