import GumTVM.Logger.DumpReading
import GumTVM.Logger.Manager

/-!
# The two forms of a register dump

The scan decides on the bytes before the first NUL, and the string form prints
those very bytes; its terminator is found in the buffer because one zero byte
follows what was read. Every other content is dumped in hexadecimal.
-/

namespace GumTVM

open Foundation

/-! ## The scanned bytes -/

/-- The bytes before the first NUL, all of them if there is none. -/
def beforeNul (data : List Byte) : List Byte := data.takeWhile (· ≠ 0)

/-- Printable characters, not all of them blanks. -/
def IsVisibleText (data : List Byte) : Prop :=
  (∀ byte ∈ data, 0x20#8 ≤ byte ∧ byte ≤ 0x7E#8) ∧ ∃ byte ∈ data, byte ≠ 0x20#8

theorem beforeNul_cons {head : Byte} (hhead : head ≠ 0) (tail : List Byte) :
    beforeNul (head :: tail) = head :: beforeNul tail := by
  unfold beforeNul
  rw [List.takeWhile_cons_of_pos (by simpa using hhead)]

/-- The scan accepts printable characters with a non-blank among them, or before
them as its flag says. -/
theorem scanPrintable_iff {hasNonSpaceChar : Bool} {data : List Byte} :
    scanPrintable hasNonSpaceChar data = true ↔
      (∀ byte ∈ beforeNul data, 0x20#8 ≤ byte ∧ byte ≤ 0x7E#8) ∧
        (hasNonSpaceChar = true ∨ ∃ byte ∈ beforeNul data, byte ≠ 0x20#8) := by
  induction data generalizing hasNonSpaceChar with
  | nil => simp [scanPrintable, beforeNul]
  | cons head tail ih =>
      by_cases hzero : head = 0
      · simp [scanPrintable, beforeNul, hzero]
      · rw [scanPrintable, if_neg hzero, beforeNul_cons hzero]
        by_cases hbad : head < 0x20#8 ∨ head > 0x7E#8
        · rw [if_pos hbad]
          have hnot : ¬ (0x20#8 ≤ head ∧ head ≤ 0x7E#8) := by bv_omega
          simp [hnot]
        · rw [if_neg hbad, ih]
          have hgood : 0x20#8 ≤ head ∧ head ≤ 0x7E#8 := by bv_omega
          simp [hgood, or_assoc]

theorem isAsciiPrintableString_iff {bytes : List Byte} {length : Nat}
    (hlength : bytes.length = length) :
    isAsciiPrintableString (bytes ++ [0]) length = true ↔ IsVisibleText (beforeNul bytes) := by
  unfold isAsciiPrintableString IsVisibleText
  rw [← hlength, List.take_left, scanPrintable_iff]
  simp

/-- The string constructor stops at the end of what the scan looked at. -/
theorem cString_eq (bytes : List Byte) :
    cString (bytes ++ [0]) = (beforeNul bytes).map Byte.toChar := by
  rw [cString_append_zero]
  rfl

/-- The terminator is in the buffer, right after the printed bytes. -/
theorem getElem?_beforeNul (bytes : List Byte) :
    (bytes ++ [0])[(beforeNul bytes).length]? = some 0 := by
  induction bytes with
  | nil => rfl
  | cons head tail ih =>
      by_cases hzero : head = 0
      · simp [beforeNul, hzero]
      · rw [beforeNul_cons hzero, List.length_cons, List.cons_append, List.getElem?_cons_succ, ih]

theorem beforeNul_length_le (bytes : List Byte) : (beforeNul bytes).length ≤ bytes.length :=
  (List.takeWhile_prefix _).length_le

/-! ## The printed form -/

/-- The bytes behind a value can be read: its page is mapped and the transfer is
complete. -/
structure Process.Reaches (proc : Process) (value : BitVec 64) (bytes : List Byte) : Prop where
  pagesize : 0 < proc.pagesize.toInt
  mapped : proc.mincore (value &&& ~~~(proc.pagesize - 1)) proc.pagesize = true
  transferred : proc.processVmReadv value 0x800 = bytes
  length : bytes.length = 0x800

theorem Process.Reaches.isValidAddress {proc : Process} {value : BitVec 64} {bytes : List Byte}
    (hproc : proc.Reaches value bytes) : isValidAddress proc value = true := by
  have hpositive := hproc.pagesize
  unfold GumTVM.isValidAddress
  rw [if_neg (by omega), hproc.mapped]

theorem Process.Reaches.safeReadMemory {proc : Process} {value : BitVec 64} {bytes : List Byte}
    (hproc : proc.Reaches value bytes) : safeReadMemory proc value 0x800 = some bytes := by
  unfold GumTVM.safeReadMemory
  dsimp only
  rw [hproc.transferred, if_pos hproc.length]

/-- The text of a string dump starts with its label, that of a hexdump does not. -/
theorem label_stringLine (name : Text) (value : BitVec 64) (text rest : Text) :
    "String for ".toList <+: stringLine name value text ++ rest := by
  unfold stringLine
  simp only [List.append_assoc]
  exact List.prefix_append _ _

theorem not_label_hexdumpHeader (name : Text) (value : BitVec 64) (rest : Text) :
    ¬ "String for ".toList <+: hexdumpHeader name value ++ rest := by
  rintro ⟨tail, htail⟩
  have hhead := congrArg List.head? htail
  unfold hexdumpHeader at hhead
  simp only [List.append_assoc] at hhead
  exact absurd hhead (by decide : some 'S' ≠ some 'H')

/-- A value whose bytes can be read is shown as a string exactly when these are
visible text up to the first NUL, and then as that text; otherwise as a hexdump
of the first bytes. -/
theorem dumpRegValue_form {proc : Process} {value : BitVec 64} {bytes : List Byte}
    (hproc : proc.Reaches value bytes) (name : Text) {count : Nat} (hcount : count ≤ 0x800) :
    ("String for ".toList <+: dumpRegValue proc value name count ↔
        IsVisibleText (beforeNul bytes)) ∧
      (IsVisibleText (beforeNul bytes) →
        dumpRegValue proc value name count =
            "String for ".toList ++ name ++ " at address 0x".toList ++ hex value.toNat ++
              " : ".toList ++ (beforeNul bytes).map Byte.toChar ++ ['\n'] ∧
          (beforeNul bytes).length ≤ 0x800 ∧
          (bytes ++ [0])[(beforeNul bytes).length]? = some 0) ∧
      (¬ IsVisibleText (beforeNul bytes) →
        ∃ lines : List Text,
          dumpRegValue proc value name count =
            "Hexdump for ".toList ++ name ++ " at address 0x".toList ++ hex value.toNat ++
              ":".toList ++ ['\n'] ++ terminated '\n' lines ∧
          lines.length = (count + 15) / 16 ∧
          (∀ k line, lines[k]? = some line →
            HexDump.DumpLine (bytes.take count) value k line) ∧
          (lines.flatMap HexDump.readRow).reduceOption = bytes.take count) := by
  have hscan := isAsciiPrintableString_iff hproc.length
  have hdump : dumpRegValue proc value name count =
      if isAsciiPrintableString (bytes ++ [0]) 0x800 then
        stringLine name value ((beforeNul bytes).map Byte.toChar) ++ ['\n']
      else hexdumpHeader name value ++ ['\n'] ++ HexDump.dump (bytes ++ [0]) count value := by
    unfold dumpRegValue
    rw [if_pos hproc.isValidAddress, hproc.safeReadMemory]
    simp only [cString_eq]
  refine ⟨?_, ?_, ?_⟩
  · rw [hdump, ← hscan]
    cases isAsciiPrintableString (bytes ++ [0]) 0x800 with
    | true => simpa using label_stringLine name value _ _
    | false =>
        have hnot := not_label_hexdumpHeader name value
          (['\n'] ++ HexDump.dump (bytes ++ [0]) count value)
        simpa using hnot
  · intro hvisible
    rw [hdump, if_pos (hscan.mpr hvisible)]
    refine ⟨rfl, ?_, getElem?_beforeNul bytes⟩
    rw [← hproc.length]
    exact beforeNul_length_le bytes
  · intro hhidden
    have hlength := hproc.length
    have hbuffer : count ≤ (bytes ++ [0]).length := by
      rw [List.length_append]
      omega
    have hshown : (bytes ++ [0]).take count = bytes.take count :=
      List.take_append_of_le_length (by omega)
    rw [hdump, if_neg (fun hprint => hhidden (hscan.mp hprint))]
    refine ⟨HexDump.rowsFrom (bytes ++ [0]) count value 0, rfl, ?_, ?_, ?_⟩
    · exact HexDump.rowsFrom_length (bytes ++ [0]) count value
    · intro k line hk
      rw [← hshown]
      exact HexDump.dumpLine_of_getElem? hbuffer hk
    · rw [HexDump.readRows_rowsFrom hbuffer, hshown, List.drop_zero]

/-- A process in which every address holds the text `A`. -/
def Process.letters : Process :=
  { Process.empty with
    mincore := fun _ _ => true
    processVmReadv := fun _ length => (0x41 :: List.replicate 0x7FF 0).take length }

theorem letters_reaches : Process.letters.Reaches 0x7000 (0x41 :: List.replicate 0x7FF 0) where
  pagesize := by decide
  mapped := rfl
  transferred := by
    apply List.take_of_length_le
    rw [List.length_cons, List.length_replicate]
  length := by rw [List.length_cons, List.length_replicate]

theorem dumpRegValue_letters :
    dumpRegValue .letters 0x7000 "x0".toList 32 =
      "String for x0 at address 0x7000 : A\n".toList := by
  have hscanned : beforeNul (0x41 :: List.replicate 0x7FF 0) = [0x41] := by
    rw [beforeNul_cons (by decide), List.replicate_succ]
    rfl
  have hvisible : IsVisibleText [0x41] := by simp [IsVisibleText]
  obtain ⟨_, hstring, _⟩ :=
    dumpRegValue_form letters_reaches "x0".toList (by decide : 32 ≤ 0x800)
  rw [hscanned] at hstring
  exact (hstring hvisible).1.trans (by decide)

end GumTVM
