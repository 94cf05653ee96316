import GumTVM.Logger.HexDump

/-!
# The logger of a traced module

`LoggerManager`: the trace file and the dump printed for a register value. The
stream writes at the end of the file it opened; opening truncates the file.
-/

namespace GumTVM

open Foundation

/-- `module_range_t` -/
structure ModuleRange where
  base : BitVec 64
  endAddr : BitVec 64
deriving DecidableEq

/-- `LoggerManager`; `traceOut` is the path of the file the stream has open. -/
structure LoggerManager where
  traceOut : Option Text
  traceFileName : Text
  moduleName : Text
  moduleRange : ModuleRange

namespace LoggerManager

/-- The constructor. -/
def create (moduleName : Text) (moduleRange : ModuleRange) : LoggerManager :=
  { traceOut := none, traceFileName := [], moduleName, moduleRange }

def traceDir : Text := "/sdcard/Download/qbdiTVM/".toList

/-- `set_enable_to_file`. The outcome of `mkdir` is only logged; `opens` is the
outcome of opening the file. -/
def setEnableToFile (logger : LoggerManager) (files : Files) (enable : Bool) (fileName : Text)
    (opens : Bool) : LoggerManager × Files :=
  if enable then
    if logger.traceFileName = [] then
      let traceFileName := traceDir ++ fileName
      if opens then
        ({ logger with traceFileName, traceOut := some traceFileName },
          files.write traceFileName [])
      -- the name is kept, so the file is not tried again
      else ({ logger with traceFileName }, files)
    else (logger, files)
  else ({ logger with traceOut := none }, files)

/-- `write_info` -/
def writeInfo (logger : LoggerManager) (files : Files) (line : Text) : Files :=
  match logger.traceOut with
  | some path => files.write path (files path ++ line)
  | none => files

end LoggerManager

/-! ## Reading memory -/

/-- `safeReadMemory`; `none` when the function returns false. -/
def safeReadMemory (proc : Process) (address : BitVec 64) (length : Nat) : Option (List Byte) :=
  let bytes := proc.processVmReadv address length
  if bytes.length = length then some bytes else none

/-- `isValidAddress` -/
def isValidAddress (proc : Process) (address : BitVec 64) : Bool :=
  if proc.pagesize.toInt ≤ 0 then false
  else proc.mincore (address &&& ~~~(proc.pagesize - 1)) proc.pagesize

/-- The loop of `is_ascii_printable_string`, from the remaining bytes on. -/
def scanPrintable : Bool → List Byte → Bool
  | hasNonSpaceChar, [] => hasNonSpaceChar
  | hasNonSpaceChar, byte :: rest =>
      if byte = 0 then hasNonSpaceChar
      else if byte < 0x20#8 ∨ byte > 0x7E#8 then false
      else scanPrintable (hasNonSpaceChar || byte ≠ 0x20#8) rest

/-- `is_ascii_printable_string` -/
def isAsciiPrintableString (data : List Byte) (length : Nat) : Bool :=
  scanPrintable false (data.take length)

/-- `std::string(reinterpret_cast<const char *>(buffer))` -/
def cString (buffer : List Byte) : Text := (buffer.takeWhile (· ≠ 0)).map Byte.toChar

/-! ## The dump of a register value -/

/-- The two forms in which memory behind a register is shown. -/
inductive DumpForm where
  | string
  | hexdump
deriving DecidableEq

def stringLine (regName : Text) (regValue : BitVec 64) (text : Text) : Text :=
  "String for ".toList ++ regName ++ " at address 0x".toList ++ hex regValue.toNat ++
    " : ".toList ++ text

def hexdumpHeader (regName : Text) (regValue : BitVec 64) : Text :=
  "Hexdump for ".toList ++ regName ++ " at address 0x".toList ++ hex regValue.toNat ++ ":".toList

/-- `dump_reg_value` -/
def dumpRegValue (proc : Process) (regValue : BitVec 64) (regName : Text) (count : Nat) : Text :=
  if isValidAddress proc regValue then
    match safeReadMemory proc regValue 0x800 with
    | some bytes =>
        -- the local buffer has one byte more, still zero
        let buffer := bytes ++ [0]
        if isAsciiPrintableString buffer 0x800 then
          stringLine regName regValue (cString buffer) ++ ['\n']
        else
          hexdumpHeader regName regValue ++ ['\n'] ++ HexDump.dump buffer count regValue
    | none => []
  else []

/-- The form `dump_reg_value` chooses for a value, if it prints anything. -/
def dumpForm (proc : Process) (regValue : BitVec 64) : Option DumpForm :=
  if isValidAddress proc regValue then
    (safeReadMemory proc regValue 0x800).map fun bytes =>
      if isAsciiPrintableString (bytes ++ [0]) 0x800 then .string else .hexdump
  else none

theorem safeReadMemory_length {proc : Process} {address : BitVec 64} {length : Nat}
    {bytes : List Byte} (hread : safeReadMemory proc address length = some bytes) :
    bytes.length = length := by
  unfold safeReadMemory at hread
  dsimp only at hread
  split at hread
  next hlength =>
    cases hread
    exact hlength
  next => cases hread

/-- The bytes the scan accepts before a terminator are printable. -/
theorem isprint_of_scanPrintable {hasNonSpaceChar : Bool} {data : List Byte}
    (hscan : scanPrintable hasNonSpaceChar data = true) :
    ∀ byte ∈ data.takeWhile (· ≠ 0), isprint byte = true := by
  induction data generalizing hasNonSpaceChar with
  | nil => simp
  | cons head tail ih =>
      intro byte hbyte
      by_cases hzero : head = 0
      · simp [hzero] at hbyte
      · rw [scanPrintable, if_neg hzero] at hscan
        split at hscan
        next => cases hscan
        next hrange =>
          rw [List.takeWhile_cons_of_pos (by simpa using hzero)] at hbyte
          rcases List.mem_cons.mp hbyte with rfl | htail
          · simp only [isprint, Bool.and_eq_true, decide_eq_true_eq]
            bv_omega
          · exact ih hscan byte htail

theorem cString_append_zero (buffer : List Byte) : cString (buffer ++ [0]) = cString buffer := by
  unfold cString
  congr 1
  induction buffer with
  | nil => rfl
  | cons head tail ih =>
      by_cases hzero : head = 0
      · simp [hzero]
      · have hkeep : decide (head ≠ 0) = true := by simpa using hzero
        simp only [List.cons_append, List.takeWhile_cons, hkeep, ih]

/-- The text printed for a string dump never contains a line end. -/
theorem newline_not_mem_cString {bytes : List Byte}
    (hprint : isAsciiPrintableString (bytes ++ [0]) bytes.length = true) :
    '\n' ∉ cString (bytes ++ [0]) := by
  rw [isAsciiPrintableString, List.take_left] at hprint
  rw [cString_append_zero]
  intro hmem
  obtain ⟨byte, hbyte, heq⟩ := List.mem_map.mp hmem
  exact HexDump.toChar_ne_newline (isprint_of_scanPrintable hprint byte hbyte) heq

end GumTVM
