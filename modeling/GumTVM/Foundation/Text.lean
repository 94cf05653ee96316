import Mathlib.Tactic.Common
import Mathlib.Tactic.IntervalCases
import Mathlib.Data.List.Basic

/-!
# Texts, hexadecimal numerals and separated fields

A text is the list of its characters. Numerals are the ones a character stream
prints in hexadecimal base; reading a numeral back recovers the number. A
sequence of fields, each closed by a separator that none of them contains, is
recovered by splitting at the separator.
-/

namespace Foundation

abbrev Text := List Char

/-! ## Hexadecimal numerals -/

/-- Lower-case hexadecimal numeral without leading zeros. -/
def hex (n : Nat) : Text := Nat.toDigits 16 n

def hexDigitValue? (c : Char) : Option Nat :=
  if '0' ≤ c ∧ c ≤ '9' then some (c.toNat - '0'.toNat)
  else if 'a' ≤ c ∧ c ≤ 'f' then some (c.toNat - 'a'.toNat + 10)
  else none

def isHexDigit (c : Char) : Bool := (hexDigitValue? c).isSome

/-- Read digits most significant first, continuing a number read so far. -/
def readHexFrom : Nat → Text → Option Nat
  | acc, [] => some acc
  | acc, c :: rest => (hexDigitValue? c).bind fun d => readHexFrom (16 * acc + d) rest

def readHex (t : Text) : Option Nat := readHexFrom 0 t

theorem hexDigitValue?_digitChar {d : Nat} (hd : d < 16) :
    hexDigitValue? d.digitChar = some d := by
  interval_cases d <;> rfl

theorem readHexFrom_append (acc : Nat) (first second : Text) :
    readHexFrom acc (first ++ second) =
      (readHexFrom acc first).bind fun mid => readHexFrom mid second := by
  induction first generalizing acc with
  | nil => rfl
  | cons c rest ih =>
      simp only [List.cons_append, readHexFrom]
      cases hexDigitValue? c with
      | none => rfl
      | some d => exact ih (16 * acc + d)

/-- Reading a printed numeral recovers the number. -/
theorem readHex_hex (n : Nat) : readHex (hex n) = some n := by
  induction n using Nat.strongRecOn with
  | ind n ih =>
      rw [hex, Nat.toDigits_eq_if (by omega)]
      split
      next hlt =>
        simp [readHex, readHexFrom, hexDigitValue?_digitChar hlt]
      next hge =>
        -- the last digit is read after the numeral of the quotient
        have hprefix : readHexFrom 0 (Nat.toDigits 16 (n / 16)) = some (n / 16) :=
          ih (n / 16) (by omega)
        rw [readHex, readHexFrom_append, hprefix]
        have hmod : n % 16 < 16 := Nat.mod_lt n (by omega)
        simp only [Option.bind_some, readHexFrom, hexDigitValue?_digitChar hmod,
          Option.some.injEq]
        omega

theorem isHexDigit_of_mem_hex {n : Nat} {c : Char} (hc : c ∈ hex n) : isHexDigit c = true := by
  induction n using Nat.strongRecOn with
  | ind n ih =>
      rw [hex, Nat.toDigits_eq_if (by omega)] at hc
      split at hc
      next hlt =>
        rw [List.mem_singleton] at hc
        simp [hc, isHexDigit, hexDigitValue?_digitChar hlt]
      next hge =>
        rcases List.mem_append.mp hc with hhigh | hlow
        · exact ih (n / 16) (by omega) hhigh
        · rw [List.mem_singleton] at hlow
          simp [hlow, isHexDigit, hexDigitValue?_digitChar (Nat.mod_lt n (by omega))]

/-- A character that is no hexadecimal digit occurs in no numeral. -/
theorem not_mem_hex {n : Nat} {c : Char} (hc : isHexDigit c = false) : c ∉ hex n := by
  intro hmem
  rw [isHexDigit_of_mem_hex hmem] at hc
  cases hc

/-! ## Separated fields -/

section Fields

variable {α : Type*} [BEq α] [LawfulBEq α]

/-- Every field followed by the separator. -/
def terminated (sep : α) (fields : List (List α)) : List α :=
  fields.flatMap fun field => field ++ [sep]

/-- The fields closed by a separator; whatever follows the last one is dropped. -/
def splitTerminated (sep : α) (text : List α) : List (List α) :=
  (text.splitOn sep).dropLast

omit [BEq α] [LawfulBEq α] in
@[simp] theorem terminated_nil (sep : α) : terminated sep [] = [] := rfl

omit [BEq α] [LawfulBEq α] in
@[simp] theorem terminated_cons (sep : α) (field : List α) (fields : List (List α)) :
    terminated sep (field :: fields) = field ++ sep :: terminated sep fields := by
  simp [terminated]

omit [BEq α] [LawfulBEq α] in
theorem terminated_append (sep : α) (first second : List (List α)) :
    terminated sep (first ++ second) = terminated sep first ++ terminated sep second := by
  simp [terminated]

omit [BEq α] [LawfulBEq α] in
theorem terminated_flatMap {β : Type*} (sep : α) (items : List β) (fields : β → List (List α)) :
    terminated sep (items.flatMap fields) =
      items.flatMap fun item => terminated sep (fields item) := by
  simp [terminated, List.flatMap_assoc]

theorem splitOn_terminated_append {sep : α} {fields : List (List α)}
    (hfields : ∀ field ∈ fields, sep ∉ field) (rest : List α) :
    (terminated sep fields ++ rest).splitOn sep = fields ++ rest.splitOn sep := by
  induction fields with
  | nil => rfl
  | cons field fields ih =>
      have htail := ih fun other hother => hfields other (List.mem_cons_of_mem _ hother)
      have hsplit := List.splitOn_append_cons_self_of_not_mem
        (hfields field List.mem_cons_self) (terminated sep fields ++ rest)
      simp only [terminated, List.flatMap_cons, List.append_assoc, List.nil_append,
        List.cons_append] at hsplit htail ⊢
      rw [hsplit, htail]

/-- Splitting recovers the fields; the remainder must not contain the separator. -/
theorem splitTerminated_terminated_append {sep : α} {fields : List (List α)} {rest : List α}
    (hfields : ∀ field ∈ fields, sep ∉ field) (hrest : sep ∉ rest) :
    splitTerminated sep (terminated sep fields ++ rest) = fields := by
  rw [splitTerminated, splitOn_terminated_append hfields, List.splitOn_eq_singleton hrest,
    List.dropLast_concat]

end Fields

end Foundation
