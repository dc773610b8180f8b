import SecretsManager.Js.Text

/-!
# Decoding UTF-8

`Buffer.toString()` decodes by the rules of the Encoding Standard: of a sequence that breaks off, the part that
could begin a character becomes one replacement character, and the byte at which it broke off is read again as a
first byte. Each buffer is decoded on its own. So the decoded parts of a text make up the decoded text exactly when
no part begins with a byte that the sequence at the end of the bytes before it goes on with.
-/

namespace SecretsManager.Js

abbrev Byte := Fin 256

/-- A sequence that has begun, between bytes: how many bytes follow the next one, the bits that were read, and the
bounds of the next byte, which is a continuation byte. -/
structure Pending where
  more : Nat
  bits : Nat
  lower : Nat
  upper : Nat
  continuation : 0x80 ≤ lower ∧ upper ≤ 0xbf
  deriving DecidableEq

/-- The byte goes on with the sequence. -/
def Pending.Accepts (p : Pending) (b : Byte) : Prop := p.lower ≤ b.val ∧ b.val ≤ p.upper

instance (p : Pending) (b : Byte) : Decidable (p.Accepts b) := inferInstanceAs (Decidable (_ ∧ _))

/-- `U+FFFD` -/
def replacement : CodeUnit := 0xfffd

/-- A byte between two sequences. -/
def firstByte (b : Byte) : JsString × Option Pending :=
  let n := b.val
  if n ≤ 0x7f then ([Fin.ofNat 65536 n], none)
  else if 0xc2 ≤ n ∧ n ≤ 0xdf then ([], some ⟨0, n - 0xc0, 0x80, 0xbf, by decide⟩)
  else if n = 0xe0 then ([], some ⟨1, 0, 0xa0, 0xbf, by decide⟩)
  else if n = 0xed then ([], some ⟨1, 0xd, 0x80, 0x9f, by decide⟩)
  else if 0xe1 ≤ n ∧ n ≤ 0xef then ([], some ⟨1, n - 0xe0, 0x80, 0xbf, by decide⟩)
  else if n = 0xf0 then ([], some ⟨2, 0, 0x90, 0xbf, by decide⟩)
  else if n = 0xf4 then ([], some ⟨2, 4, 0x80, 0x8f, by decide⟩)
  else if 0xf1 ≤ n ∧ n ≤ 0xf3 then ([], some ⟨2, n - 0xf0, 0x80, 0xbf, by decide⟩)
  else ([replacement], none)

/-- A byte that goes on with the sequence. -/
def nextByte (p : Pending) (b : Byte) : JsString × Option Pending :=
  let bits := p.bits * 64 + (b.val - 0x80)
  match p.more with
  | 0 => (unitsOfChar (Char.ofNat bits), none)
  | more + 1 => ([], some ⟨more, bits, 0x80, 0xbf, by decide⟩)

/-- One byte: what it puts out and the sequence after it. -/
def decodeByte : Option Pending → Byte → JsString × Option Pending
  | none, b => firstByte b
  | some p, b => if p.Accepts b then nextByte p b else (replacement :: (firstByte b).1, (firstByte b).2)

/-- The bytes to the end. -/
def decodeFrom : Option Pending → List Byte → JsString
  | none, [] => []
  | some _, [] => [replacement]
  | st, b :: bytes => (decodeByte st b).1 ++ decodeFrom (decodeByte st b).2 bytes

/-- `Buffer.toString()` -/
def decodeUtf8 (bytes : List Byte) : JsString := decodeFrom none bytes

/-- The sequence at the end of the bytes. -/
def pendingAfter (st : Option Pending) (bytes : List Byte) : Option Pending :=
  bytes.foldl (fun st b => (decodeByte st b).2) st

/-- The bytes go on with the sequence. -/
def Continues (st : Option Pending) (bytes : List Byte) : Prop :=
  ∃ p b rest, st = some p ∧ bytes = b :: rest ∧ p.Accepts b

/-- No part ends in the beginning of a sequence that the next byte goes on with. -/
def WholeSequences : List (List Byte) → Prop
  | [] => True
  | part :: parts => ¬ Continues (pendingAfter none part) parts.flatten ∧ WholeSequences parts

/-! ## Single bytes -/

theorem decodeFrom_cons (st : Option Pending) (b : Byte) (bytes : List Byte) :
    decodeFrom st (b :: bytes) = (decodeByte st b).1 ++ decodeFrom (decodeByte st b).2 bytes := by
  cases st <;> rfl

/-- A continuation byte cannot come first. -/
theorem firstByte_of_accepts {p : Pending} {b : Byte} (h : p.Accepts b) : firstByte b = ([replacement], none) := by
  obtain ⟨hlower, hupper⟩ := p.continuation
  obtain ⟨hle, hge⟩ := h
  unfold firstByte
  dsimp only
  split_ifs <;> first | omega | rfl

theorem decodeFrom_of_accepts {p : Pending} {b : Byte} (h : p.Accepts b) (bytes : List Byte) :
    decodeFrom none (b :: bytes) = replacement :: decodeFrom none bytes := by
  rw [decodeFrom_cons, decodeByte, firstByte_of_accepts h]
  rfl

theorem decodeByte_accepted {p : Pending} {b : Byte} (h : p.Accepts b) : decodeByte (some p) b = nextByte p b :=
  if_pos h

theorem decodeFrom_broken {p : Pending} {b : Byte} (h : ¬ p.Accepts b) (bytes : List Byte) :
    decodeFrom (some p) (b :: bytes) = replacement :: decodeFrom none (b :: bytes) := by
  have hbyte : decodeByte (some p) b = (replacement :: (firstByte b).1, (firstByte b).2) := if_neg h
  rw [decodeFrom_cons, decodeFrom_cons, hbyte]
  rfl

/-- A byte that goes on with a sequence ends it with one unit, or with a surrogate pair, or puts out nothing. -/
theorem nextByte_cases (p : Pending) (b : Byte) :
    (∃ c, nextByte p b = ([c], none)) ∨ (∃ c d, nextByte p b = ([c, d], none) ∧ c ≠ replacement) ∨
      ∃ p', nextByte p b = ([], some p') := by
  unfold nextByte
  cases p.more with
  | succ more => exact Or.inr (Or.inr ⟨_, rfl⟩)
  | zero =>
      dsimp only
      generalize Char.ofNat (p.bits * 64 + (b.val - 0x80)) = c
      unfold unitsOfChar
      dsimp only
      split_ifs with hsmall
      · exact Or.inl ⟨_, rfl⟩
      · refine Or.inr (Or.inl ⟨_, _, rfl, fun heq => ?_⟩)
        -- a high surrogate is smaller than the replacement character
        have hval := congrArg Fin.val heq
        have hmax : c.toNat < 0x110000 := by
          rcases c.valid with h | h
          · exact h.trans (by decide)
          · exact h.2
        have hlt : 0xd800 + (c.toNat - 0x10000) / 0x400 < 65536 := by omega
        rw [Fin.val_ofNat, Nat.mod_eq_of_lt hlt] at hval
        have hreplacement : replacement.val = 0xfffd := rfl
        omega

/-! ## Parts -/

section Parts
variable {rest : List Byte} {n : Nat}

/-- What holds for the bytes that follow, from any sequence, holds with a part before them: decoding the part on its
own puts out at least as much, and a sequence before it adds at most one unit. -/
theorem length_decodeFrom_append (hnone : (decodeFrom none rest).length ≤ n)
    (hsome : ∀ p, (decodeFrom (some p) rest).length ≤ 1 + n) (part : List Byte) :
    (∀ st, (decodeFrom st (part ++ rest)).length ≤ (decodeFrom st part).length + n) ∧
      ∀ p, (decodeFrom (some p) (part ++ rest)).length ≤ 1 + (decodeFrom none part).length + n := by
  induction part with
  | nil =>
      have hall : ∀ st, (decodeFrom st rest).length ≤ (decodeFrom st []).length + n := by
        intro st
        cases st with
        | none => simpa [decodeFrom] using hnone
        | some p => simpa [decodeFrom] using hsome p
      exact ⟨hall, fun p => hsome p⟩
  | cons b part ih =>
      obtain ⟨hsame, hpending⟩ := ih
      have hall : ∀ st, (decodeFrom st (b :: part ++ rest)).length ≤ (decodeFrom st (b :: part)).length + n := by
        intro st
        have hrest := hsame (decodeByte st b).2
        rw [List.cons_append, decodeFrom_cons, decodeFrom_cons, List.length_append, List.length_append]
        omega
      refine ⟨hall, fun p => ?_⟩
      by_cases haccepts : p.Accepts b
      · rw [decodeFrom_of_accepts haccepts, List.cons_append, decodeFrom_cons, decodeByte_accepted haccepts,
          List.length_append, List.length_cons]
        have hnext := hsame none
        rcases nextByte_cases p b with ⟨c, heq⟩ | ⟨c, d, heq, -⟩ | ⟨p', heq⟩
        · rw [heq]
          simp only [List.length_cons, List.length_nil]
          omega
        · rw [heq]
          simp only [List.length_cons, List.length_nil]
          omega
        · have hgoes := hpending p'
          rw [heq]
          simp only [List.length_nil]
          omega
      · have hnext := hall none
        rw [List.cons_append, decodeFrom_broken haccepts, List.length_cons]
        rw [List.cons_append] at hnext
        omega

/-- Decoding in parts puts out at least as many units. -/
theorem length_decodeFrom_flatten (parts : List (List Byte)) :
    (decodeFrom none parts.flatten).length ≤ (parts.flatMap decodeUtf8).length ∧
      ∀ p, (decodeFrom (some p) parts.flatten).length ≤ 1 + (parts.flatMap decodeUtf8).length := by
  induction parts with
  | nil => exact ⟨le_rfl, fun p => le_rfl⟩
  | cons part parts ih =>
      obtain ⟨hsame, hpending⟩ := length_decodeFrom_append ih.1 ih.2 part
      rw [List.flatten_cons, List.flatMap_cons, List.length_append, decodeUtf8]
      refine ⟨hsame none, fun p => ?_⟩
      have hp := hpending p
      omega

/-- A sequence that is cut does not come out whole. -/
theorem decodeFrom_cut {p : Pending} {b : Byte} (haccepts : p.Accepts b) {parts : List (List Byte)}
    (hparts : parts.flatten = b :: rest) :
    replacement :: parts.flatMap decodeUtf8 ≠ decodeFrom (some p) parts.flatten := by
  induction parts with
  | nil => cases hparts
  | cons part parts ih =>
      cases part with
      | nil => exact ih hparts
      | cons b' part =>
          obtain ⟨rfl, -⟩ : b' = b ∧ part ++ parts.flatten = rest := by simpa using hparts
          obtain ⟨hnone, hsome⟩ := length_decodeFrom_flatten parts
          obtain ⟨hsame, hpending⟩ := length_decodeFrom_append hnone hsome part
          intro heq
          rw [List.flatMap_cons, decodeUtf8, decodeFrom_of_accepts haccepts, List.flatten_cons, List.cons_append,
            List.cons_append, decodeFrom_cons, decodeByte_accepted haccepts] at heq
          have hlength := congrArg List.length heq
          simp only [List.length_cons, List.length_append] at hlength
          have hnext := hsame none
          rcases nextByte_cases p b' with ⟨c, hbyte⟩ | ⟨c, d, hbyte, hc⟩ | ⟨p', hbyte⟩
          · rw [hbyte] at hlength
            simp only [List.length_cons, List.length_nil] at hlength
            omega
          · rw [hbyte] at heq
            exact hc (List.cons.inj heq).1.symm
          · have hgoes := hpending p'
            rw [hbyte] at hlength
            simp only [List.length_nil] at hlength
            omega

/-- The units before the end of the part cancel. -/
theorem decodeFrom_append_eq_iff (decoded : JsString) (st : Option Pending) (part : List Byte) :
    decodeFrom st part ++ decoded = decodeFrom st (part ++ rest) ↔
      decodeFrom (pendingAfter st part) [] ++ decoded = decodeFrom (pendingAfter st part) rest := by
  induction part generalizing st with
  | nil => rfl
  | cons b part ih =>
      rw [List.cons_append, decodeFrom_cons, decodeFrom_cons, List.append_assoc, List.append_cancel_left_eq, ih]
      rfl

/-- One part and those after it. -/
theorem decodeUtf8_append_eq_iff (part : List Byte) (parts : List (List Byte)) :
    decodeUtf8 part ++ parts.flatMap decodeUtf8 = decodeUtf8 (part ++ parts.flatten) ↔
      ¬ Continues (pendingAfter none part) parts.flatten ∧ parts.flatMap decodeUtf8 = decodeUtf8 parts.flatten := by
  rw [decodeUtf8, decodeUtf8, decodeFrom_append_eq_iff]
  cases hpending : pendingAfter none part with
  | none =>
      have hno : ¬ Continues none parts.flatten := by
        rintro ⟨p, b, more, hp, -, -⟩
        cases hp
      rw [and_iff_right hno]
      rfl
  | some p =>
      cases hbytes : parts.flatten with
      | nil =>
          have hno : ¬ Continues (some p) [] := by
            rintro ⟨p, b, more, -, hnil, -⟩
            cases hnil
          rw [and_iff_right hno]
          show replacement :: parts.flatMap decodeUtf8 = [replacement] ↔ parts.flatMap decodeUtf8 = []
          rw [List.cons_eq_cons, and_iff_right rfl]
      | cons b more =>
          by_cases haccepts : p.Accepts b
          · have hcut := decodeFrom_cut haccepts hbytes
            rw [hbytes] at hcut
            exact iff_of_false hcut fun h => h.1 ⟨p, b, more, rfl, rfl, haccepts⟩
          · have hno : ¬ Continues (some p) (b :: more) := by
              rintro ⟨p', b', more', hp, hb, hp'⟩
              cases hp
              cases hb
              exact haccepts hp'
            rw [and_iff_right hno, decodeFrom_broken haccepts]
            show replacement :: parts.flatMap decodeUtf8 = replacement :: decodeUtf8 (b :: more) ↔ _
            rw [List.cons_eq_cons, and_iff_right rfl]

/-- **The decoded parts are the decoded whole exactly when no part cuts a sequence.** -/
theorem flatMap_decodeUtf8_eq_iff (parts : List (List Byte)) :
    parts.flatMap decodeUtf8 = decodeUtf8 parts.flatten ↔ WholeSequences parts := by
  induction parts with
  | nil => exact iff_of_true rfl trivial
  | cons part parts ih =>
      rw [List.flatMap_cons, List.flatten_cons, decodeUtf8_append_eq_iff, ih]
      rfl

end Parts

example : decodeUtf8 [0xc3, 0xa9, 0xf0, 0x9f, 0x98, 0x80] = js "é😀" := by decide

/-- What could begin a character is one replacement character, and every byte that could not is one. -/
example : decodeUtf8 [0xe2, 0x82, 0x41, 0xff, 0x80] = [replacement, unit 'A', replacement, replacement] := by decide

end SecretsManager.Js
