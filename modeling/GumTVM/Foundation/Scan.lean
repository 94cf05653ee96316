import GumTVM.Foundation.Text
import Mathlib.Data.List.DropRight

/-!
# Lines and numbers of a C stream

`fgets` reads a line into a buffer and cuts it where the buffer is full. `%lx`
reads a number with white space, a sign and a prefix before it and digits of
either case. Lines that fit are read as they were written, and a printed numeral
is read back up to the character behind it.
-/

namespace Foundation

/-! ## Lines -/

/-- The lines that calls of `fgets` read, at most `limit` characters each; the
first argument is the line read so far. -/
def fgetsLinesFrom (limit : Nat) : Text → Text → List Text
  | [], [] => []
  | line, [] => [line]
  | line, c :: rest =>
      if c = '\n' ∨ line.length + 1 = limit then
        (line ++ [c]) :: fgetsLinesFrom limit [] rest
      else fgetsLinesFrom limit (line ++ [c]) rest

/-- The lines that are read through a buffer of some size until the end of the
input. -/
def fgetsLines (size : Nat) (input : Text) : List Text := fgetsLinesFrom (size - 1) [] input

theorem fgetsLinesFrom_append {limit : Nat} {line text : Text} (htext : '\n' ∉ text)
    (hfits : line.length + text.length < limit) (rest : Text) :
    fgetsLinesFrom limit line (text ++ '\n' :: rest) =
      (line ++ text ++ ['\n']) :: fgetsLinesFrom limit [] rest := by
  induction text generalizing line with
  | nil =>
      rw [List.nil_append, fgetsLinesFrom, if_pos (Or.inl rfl), List.append_nil]
  | cons c text ih =>
      obtain ⟨hc, htext⟩ := not_or.mp (mt List.mem_cons.mpr htext)
      rw [List.length_cons] at hfits
      have hnot : ¬ (c = '\n' ∨ line.length + 1 = limit) := by
        rintro (heq | hfull)
        · exact hc heq.symm
        · omega
      have hrest := @ih (line ++ [c]) htext (by
        rw [List.length_append, List.length_singleton]
        omega)
      rw [List.cons_append, fgetsLinesFrom, if_neg hnot, hrest, List.append_assoc line,
        List.singleton_append]

/-- Lines shorter than the buffer are read whole. -/
theorem fgetsLines_terminated {size : Nat} {lines : List Text}
    (hlines : ∀ line ∈ lines, '\n' ∉ line ∧ line.length + 1 < size) :
    fgetsLines size (terminated '\n' lines) = lines.map fun line => line ++ ['\n'] := by
  induction lines with
  | nil => rfl
  | cons line lines ih =>
      obtain ⟨hline, hfits⟩ := hlines line List.mem_cons_self
      have hlater := ih fun other hother => hlines other (List.mem_cons_of_mem _ hother)
      unfold fgetsLines at hlater ⊢
      rw [terminated_cons, fgetsLinesFrom_append hline (by rw [List.length_nil]; omega), hlater]
      rfl

/-- A line never exceeds the buffer. -/
theorem length_of_mem_fgetsLinesFrom {limit : Nat} {line input read : Text}
    (hline : line.length < limit) (hread : read ∈ fgetsLinesFrom limit line input) :
    read.length ≤ limit := by
  induction input generalizing line with
  | nil =>
      cases line with
      | nil => cases hread
      | cons c line =>
          rw [fgetsLinesFrom, List.mem_singleton] at hread
          · exact hread ▸ Nat.le_of_lt hline
          · exact List.cons_ne_nil c line
  | cons c rest ih =>
      have hlength : (line ++ [c]).length = line.length + 1 := List.length_append
      rw [fgetsLinesFrom] at hread
      split at hread
      · rcases List.mem_cons.mp hread with rfl | hlater
        · omega
        · exact ih (by rw [List.length_nil]; omega) hlater
      · next hnot =>
          have hroom : line.length + 1 ≠ limit := fun hfull => hnot (Or.inr hfull)
          exact ih (by omega) hread

theorem length_of_mem_fgetsLines {size : Nat} (hsize : 1 < size) {input line : Text}
    (hline : line ∈ fgetsLines size input) : line.length < size := by
  have hlength := length_of_mem_fgetsLinesFrom (by rw [List.length_nil]; omega) hline
  omega

/-- The characters of a string in memory, up to its terminator. -/
def upToTerminator (text : Text) : Text := text.takeWhile (· ≠ '\x00')

theorem upToTerminator_eq_self {text : Text} (htext : '\x00' ∉ text) :
    upToTerminator text = text := by
  refine List.takeWhile_eq_self_iff.mpr fun c hc => ?_
  simpa using fun heq : c = '\x00' => htext (heq ▸ hc)

/-- `strchr` -/
def strchr (text : Text) (c : Char) : Option Text :=
  let found := text.dropWhile (· ≠ c)
  if found = [] then none else some found

theorem strchr_append {first : Text} {c : Char} (hfirst : c ∉ first) (second : Text) :
    strchr (first ++ second) c = strchr second c := by
  have hdrop : (first ++ second).dropWhile (· ≠ c) = second.dropWhile (· ≠ c) := by
    refine List.dropWhile_append_of_pos fun d hd => ?_
    simpa using fun heq : d = c => hfirst (heq ▸ hd)
  unfold strchr
  rw [hdrop]

theorem strchr_append_of_not_mem {c : Char} {second : Text} (hsecond : c ∉ second)
    (first : Text) : strchr (first ++ second) c = (strchr first c).map (· ++ second) := by
  have hall : second.dropWhile (· ≠ c) = [] := by
    refine List.dropWhile_eq_nil_iff.mpr fun d hd => ?_
    simpa using fun heq : d = c => hsecond (heq ▸ hd)
  unfold strchr
  rw [List.dropWhile_append]
  cases hfirst : first.dropWhile (· ≠ c) with
  | nil => simp only [List.isEmpty_nil, if_true, hall, Option.map_none]
  | cons found rest => rfl

/-- `isspace` in the C locale. -/
def isSpace (c : Char) : Bool := c = ' ' ∨ ('\t' ≤ c ∧ c ≤ '\r')

/-! ## Numbers -/

/-- A digit of either case. -/
def isScanDigit (c : Char) : Bool := isHexDigit c.toLower

/-- Whether a number is negative, and what follows its sign. -/
def scanSign : Text → Bool × Text
  | '-' :: rest => (true, rest)
  | '+' :: rest => (false, rest)
  | text => (false, text)

/-- The prefix of hexadecimal numbers is one only in front of a digit. -/
def dropHexPrefix : Text → Text
  | '0' :: x :: rest =>
      if x.toLower = 'x' ∧ rest.head?.any isScanDigit then rest else '0' :: x :: rest
  | text => text

/-- The value of a number; one that is too large is the largest. -/
def scanValue (negative : Bool) (n : Nat) : BitVec 64 :=
  if n < 2 ^ 64 then if negative then -BitVec.ofNat 64 n else BitVec.ofNat 64 n
  else BitVec.allOnes 64

/-- What `%lx` reads at the start of a text, and what it leaves. -/
def scanHex (input : Text) : Option (BitVec 64 × Text) :=
  let (negative, unsigned) := scanSign (input.dropWhile isSpace)
  let body := dropHexPrefix unsigned
  let digits := body.takeWhile isScanDigit
  if digits = [] then none
  else (readHex (digits.map Char.toLower)).map fun n =>
    (scanValue negative n, body.drop digits.length)

theorem digit_bounds {c : Char} (hc : isHexDigit c = true) :
    (48 ≤ c.toNat ∧ c.toNat ≤ 57) ∨ (97 ≤ c.toNat ∧ c.toNat ≤ 102) := by
  unfold isHexDigit hexDigitValue? at hc
  split at hc
  · next hdecimal => exact Or.inl hdecimal
  · split at hc
    · next hletter => exact Or.inr hletter
    · cases hc

/-- A digit that is printed is no white space, sign or prefix. -/
theorem printed_digit {c : Char} (hc : isHexDigit c = true) :
    isSpace c = false ∧ c ≠ '-' ∧ c ≠ '+' ∧ c.toLower = c ∧ c ≠ 'x' := by
  have heq : Char.ofNat c.toNat = c := Char.ofNat_toNat c
  rcases digit_bounds hc with ⟨hlow, hhigh⟩ | ⟨hlow, hhigh⟩
  · interval_cases c.toNat <;> subst heq <;> decide
  · interval_cases c.toNat <;> subst heq <;> decide

theorem scanSign_of_digit {c : Char} (hc : isHexDigit c = true) (rest : Text) :
    scanSign (c :: rest) = (false, c :: rest) := by
  obtain ⟨-, hminus, hplus, -⟩ := printed_digit hc
  unfold scanSign
  split
  · next heq => exact absurd (List.cons.inj heq).1 hminus
  · next heq => exact absurd (List.cons.inj heq).1 hplus
  · rfl

theorem dropHexPrefix_of_ne {second : Char} (hsecond : second.toLower ≠ 'x') (first : Char)
    (rest : Text) : dropHexPrefix (first :: second :: rest) = first :: second :: rest := by
  unfold dropHexPrefix
  split
  · next heq =>
      obtain ⟨rfl, htail⟩ := List.cons.inj heq
      obtain ⟨rfl, rfl⟩ := List.cons.inj htail
      exact if_neg fun hbody => hsecond hbody.1
  · rfl

/-- A printed numeral is read up to the character behind it. -/
theorem scanHex_numeral {digits : Text} {n : Nat} (hdigits : ∀ c ∈ digits, isHexDigit c = true)
    (hne : digits ≠ []) (hread : readHex digits = some n) (hlt : n < 2 ^ 64) {c : Char}
    (hc : isScanDigit c = false) (hx : c.toLower ≠ 'x') (rest : Text) :
    scanHex (digits ++ c :: rest) = some (BitVec.ofNat 64 n, c :: rest) := by
  obtain ⟨first, later, rfl⟩ := List.exists_cons_of_ne_nil hne
  have hfirst : isHexDigit first = true := hdigits first List.mem_cons_self
  have hspace : ((first :: later) ++ c :: rest).dropWhile isSpace =
      (first :: later) ++ c :: rest :=
    List.dropWhile_cons_of_neg (by simp [(printed_digit hfirst).1])
  have hbody : dropHexPrefix ((first :: later) ++ c :: rest) =
      (first :: later) ++ c :: rest := by
    cases later with
    | nil => exact dropHexPrefix_of_ne hx first rest
    | cons second later =>
        obtain ⟨-, -, -, hlower, hsecond⟩ :=
          printed_digit (hdigits second (by simp))
        exact dropHexPrefix_of_ne (hlower.symm ▸ hsecond) first (later ++ c :: rest)
  have htake : ((first :: later) ++ c :: rest).takeWhile isScanDigit = first :: later := by
    rw [List.takeWhile_append_of_pos fun d hd => ?_,
      List.takeWhile_cons_of_neg (by simp [hc]), List.append_nil]
    unfold isScanDigit
    rw [(printed_digit (hdigits d hd)).2.2.2.1, hdigits d hd]
  have hlower : (first :: later).map Char.toLower = first :: later :=
    (List.map_congr_left fun d hd => (printed_digit (hdigits d hd)).2.2.2.1).trans (List.map_id _)
  have hvalue : scanValue false n = BitVec.ofNat 64 n := by
    unfold scanValue
    rw [if_pos hlt]
    rfl
  have hsign : scanSign ((first :: later) ++ c :: rest) = (false, (first :: later) ++ c :: rest) :=
    scanSign_of_digit hfirst _
  unfold scanHex
  rw [hspace, hsign]
  dsimp only
  rw [hbody, htake, if_neg hne, hlower, hread, Option.map_some, hvalue, List.drop_left]

/-- Zeros in front of a numeral make no difference. -/
theorem readHex_leftpad (n width : Nat) : readHex ((hex n).leftpad width '0') = some n := by
  have hzeros : ∀ count, readHexFrom 0 (List.replicate count '0') = some 0 := by
    intro count
    induction count with
    | zero => rfl
    | succ count ih => exact ih
  rw [List.leftpad, readHex, readHexFrom_append, hzeros, Option.bind_some]
  exact readHex_hex n

theorem isHexDigit_of_mem_leftpad {n width : Nat} {c : Char}
    (hc : c ∈ (hex n).leftpad width '0') : isHexDigit c = true := by
  rw [List.leftpad] at hc
  rcases List.mem_append.mp hc with hzero | hdigit
  · rw [List.eq_of_mem_replicate hzero]
    rfl
  · exact isHexDigit_of_mem_hex hdigit

end Foundation
