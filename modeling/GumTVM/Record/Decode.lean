import GumTVM.Record.Grammar
import Mathlib.Data.List.ModifyLast

/-!
# Decoding records

A line is classified by its first characters. The seven kinds of lines a record
is made of are told apart that way, and a decoder that reads the lines of a
record adds the summary of that record to those it has.
-/

namespace GumTVM

open Foundation

/-! ## Kinds of lines -/

inductive LineKind where
  | results
  | stringDump
  | hexHeader
  | hexRow
  | instruction
  | call
  | memory
  | other
deriving DecidableEq

/-- At least eight hexadecimal digits and a colon. -/
def isHexRow (line : Text) : Bool :=
  decide (8 ≤ (line.takeWhile isHexDigit).length) &&
    decide ((line.dropWhile isHexDigit).head? = some ':')

def lineKind (line : Text) : LineKind :=
  if isHexRow line then .hexRow
  else if "\t w[".toList.isPrefixOf line then .results
  else if "String for ".toList.isPrefixOf line then .stringDump
  else if "Hexdump for ".toList.isPrefixOf line then .hexHeader
  else if "0x".toList.isPrefixOf line then .instruction
  else if "call addr: ".toList.isPrefixOf line then .call
  else if "   mem[".toList.isPrefixOf line then .memory
  else .other

theorem lineKind_results (rest : Text) : lineKind ("\t w[".toList ++ rest) = .results := rfl

theorem lineKind_stringDump (rest : Text) :
    lineKind ("String for ".toList ++ rest) = .stringDump := rfl

theorem lineKind_hexHeader (rest : Text) :
    lineKind ("Hexdump for ".toList ++ rest) = .hexHeader := rfl

theorem lineKind_instruction {line : Text} (hline : "0x".toList <+: line) :
    lineKind line = .instruction := by
  obtain ⟨rest, rfl⟩ := hline
  rfl

theorem lineKind_call {line : Text} (hline : "call addr: ".toList <+: line) :
    lineKind line = .call := by
  obtain ⟨rest, rfl⟩ := hline
  rfl

theorem lineKind_memory {entries : Text} (hentries : "mem[".toList <+: entries) :
    lineKind ("   ".toList ++ entries) = .memory := by
  obtain ⟨rest, rfl⟩ := hentries
  rfl

theorem lineKind_hexRow {digits : Text} (hdigits : ∀ c ∈ digits, isHexDigit c = true)
    (hlength : 8 ≤ digits.length) (rest : Text) : lineKind (digits ++ ':' :: rest) = .hexRow := by
  have hcolon : isHexDigit ':' = false := by decide
  have htest : isHexRow (digits ++ ':' :: rest) = true := by
    unfold isHexRow
    rw [List.takeWhile_append_of_pos hdigits, List.dropWhile_append_of_pos hdigits]
    simp [hcolon, hlength]
  unfold lineKind
  rw [if_pos htest]

theorem lineKind_row (buffer : List Byte) (byteCount : Nat) (address : BitVec 64)
    (offset : Nat) : lineKind (HexDump.row buffer byteCount address offset) = .hexRow := by
  unfold HexDump.row
  simp only [List.append_assoc]
  apply lineKind_hexRow
  · intro c hc
    rcases List.mem_append.mp hc with hpad | hdigit
    · rw [List.eq_of_mem_replicate hpad]
      decide
    · exact isHexDigit_of_mem_hex hdigit
  · rw [List.length_leftpad]
    exact Nat.le_max_left _ _

/-! ## The decoder -/

/-- What a trace tells about one callback: results and dumps by register name,
the instruction line, and whether a call and memory accesses were printed. -/
structure RecordSummary where
  results : List (Text × BitVec 64)
  dumps : List (Text × DumpForm)
  instruction : Text
  hasCall : Bool
  hasMemory : Bool
deriving DecidableEq

/-- `name=0x` followed by a numeral -/
def parseResult (field : Text) : Option (Text × BitVec 64) :=
  let name := field.takeWhile (· ≠ '=')
  (readHex (field.drop (name.length + 3))).map fun value => (name, BitVec.ofNat 64 value)

def parseResults (line : Text) : List (Text × BitVec 64) :=
  (splitTerminated ' ' (line.drop 4).dropLast).filterMap parseResult

def dumpName (start : Nat) (line : Text) : Text := (line.drop start).takeWhile (· ≠ ' ')

/-- The records read so far, and the results and dumps of the next one. -/
structure Decoder where
  records : List RecordSummary
  results : List (Text × BitVec 64)
  dumps : List (Text × DumpForm)

def Decoder.step (decoder : Decoder) (line : Text) : Decoder :=
  match lineKind line with
  -- a new record begins
  | .results => { decoder with results := parseResults line, dumps := [] }
  | .stringDump => { decoder with dumps := decoder.dumps ++ [(dumpName 11 line, .string)] }
  | .hexHeader => { decoder with dumps := decoder.dumps ++ [(dumpName 12 line, .hexdump)] }
  | .hexRow => decoder
  | .instruction =>
      { records := decoder.records ++ [⟨decoder.results, decoder.dumps, line, false, false⟩]
        results := []
        dumps := [] }
  -- the lines after the instruction belong to the record it closed
  | .call => { decoder with
      records := decoder.records.modifyLast fun record => { record with hasCall := true } }
  | .memory => { decoder with
      records := decoder.records.modifyLast fun record => { record with hasMemory := true } }
  | .other => decoder

def decodeTrace (text : Text) : List RecordSummary :=
  ((splitTerminated '\n' text).foldl Decoder.step ⟨[], [], []⟩).records

/-! ## Fields -/

/-- Register names contain neither of the separators. -/
theorem Capstone.WordNames.not_mem {cs : Capstone} (hnames : cs.WordNames) (reg : Arm64Reg)
    {c : Char} (hc : c.isAlphanum = false) : c ∉ cs.regName reg := by
  intro hmem
  rw [hnames reg c hmem] at hc
  cases hc

theorem parseResult_field {name : Text} (hname : '=' ∉ name) (value : BitVec 64) :
    parseResult (name ++ "=0x".toList ++ hex value.toNat) = some (name, value) := by
  have htake : (name ++ "=0x".toList ++ hex value.toNat).takeWhile (· ≠ '=') = name := by
    rw [List.append_assoc, List.takeWhile_append_of_pos]
    · simp
    · intro c hc
      have hne : c ≠ '=' := fun heq => hname (heq ▸ hc)
      simpa using hne
  have hdrop : (name ++ "=0x".toList ++ hex value.toNat).drop (name.length + 3) =
      hex value.toNat := by
    rw [List.append_assoc, ← List.drop_drop, List.drop_left]
    rfl
  unfold parseResult
  dsimp only
  rw [htake, hdrop, readHex_hex]
  simp

/-- One entry of a results line. -/
def resultField (cs : Capstone) (result : Arm64Reg × BitVec 64) : Text :=
  cs.regName result.1 ++ "=0x".toList ++ hex result.2.toNat

theorem resultField_no_blank {cs : Capstone} (hnames : cs.WordNames)
    (result : Arm64Reg × BitVec 64) : ' ' ∉ resultField cs result := by
  unfold resultField
  rw [List.mem_append, List.mem_append]
  rintro ((hname | hsep) | hhex)
  · exact hnames.not_mem result.1 (by decide) hname
  · exact absurd hsep (by decide)
  · exact not_mem_hex (by decide) hhex

theorem parseResults_line {cs : Capstone} (hnames : cs.WordNames)
    (results : List (Arm64Reg × BitVec 64)) :
    parseResults ("\t w[".toList ++ postInfo cs results ++ "]".toList) =
      results.map fun result => (cs.regName result.1, result.2) := by
  have hbody : (("\t w[".toList ++ postInfo cs results ++ "]".toList).drop 4).dropLast =
      postInfo cs results := by
    rw [List.append_assoc, show 4 = "\t w[".toList.length from rfl, List.drop_left]
    exact List.dropLast_concat
  have hfields : postInfo cs results = terminated ' ' (results.map (resultField cs)) ++ [] := by
    rw [List.append_nil, terminated, List.flatMap_map]
    rfl
  have hblank : ∀ field ∈ results.map (resultField cs), ' ' ∉ field := by
    intro field hfield
    obtain ⟨result, _, rfl⟩ := List.mem_map.mp hfield
    exact resultField_no_blank hnames result
  have hparse : parseResult ∘ resultField cs =
      fun result => some (cs.regName result.1, result.2) := by
    funext result
    exact parseResult_field (hnames.not_mem result.1 (by decide)) result.2
  unfold parseResults
  rw [hbody, hfields, splitTerminated_terminated_append hblank List.not_mem_nil,
    List.filterMap_map, hparse, List.filterMap_eq_map']

theorem dumpName_append {start : Nat} {pre name label rest : Text} (hlength : pre.length = start)
    (hname : ' ' ∉ name) (hlabel : label.head? = some ' ') :
    dumpName start (pre ++ (name ++ (label ++ rest))) = name := by
  obtain ⟨tail, rfl⟩ := List.head?_eq_some_iff.mp hlabel
  unfold dumpName
  rw [← hlength, List.drop_left, List.takeWhile_append_of_pos]
  · simp
  · intro c hc
    have hne : c ≠ ' ' := fun heq => hname (heq ▸ hc)
    simpa using hne

/-! ## Decoding one record -/

/-- The dumps printed for a list of results. -/
def dumpsOf (cs : Capstone) (proc : Process) (results : List (Arm64Reg × BitVec 64)) :
    List (Text × DumpForm) :=
  results.flatMap fun result =>
    ((dumpForm proc result.2).map fun form => (cs.regName result.1, form)).toList

theorem dumpsOf_cons (cs : Capstone) (proc : Process) (result : Arm64Reg × BitVec 64)
    (rest : List (Arm64Reg × BitVec 64)) :
    dumpsOf cs proc (result :: rest) =
      ((dumpForm proc result.2).map fun form => (cs.regName result.1, form)).toList ++
        dumpsOf cs proc rest := List.flatMap_cons

theorem stringLine_eq (name : Text) (value : BitVec 64) (text : Text) :
    stringLine name value text = "String for ".toList ++ (name ++
      (" at address 0x".toList ++ (hex value.toNat ++ (" : ".toList ++ text)))) := by
  unfold stringLine
  simp only [List.append_assoc]

theorem hexdumpHeader_eq (name : Text) (value : BitVec 64) :
    hexdumpHeader name value = "Hexdump for ".toList ++ (name ++
      (" at address 0x".toList ++ (hex value.toNat ++ ":".toList))) := by
  unfold hexdumpHeader
  simp only [List.append_assoc]

theorem lineKind_stringLine (name : Text) (value : BitVec 64) (text : Text) :
    lineKind (stringLine name value text) = .stringDump := by
  rw [stringLine_eq]
  exact lineKind_stringDump _

theorem lineKind_hexdumpHeader (name : Text) (value : BitVec 64) :
    lineKind (hexdumpHeader name value) = .hexHeader := by
  rw [hexdumpHeader_eq]
  exact lineKind_hexHeader _

theorem step_stringLine (decoder : Decoder) {name : Text} (hname : ' ' ∉ name)
    (value : BitVec 64) (text : Text) :
    decoder.step (stringLine name value text) =
      { decoder with dumps := decoder.dumps ++ [(name, .string)] } := by
  have hdump : dumpName 11 (stringLine name value text) = name := by
    rw [stringLine_eq]
    exact dumpName_append rfl hname rfl
  unfold Decoder.step
  rw [lineKind_stringLine, hdump]

theorem step_hexdumpHeader (decoder : Decoder) {name : Text} (hname : ' ' ∉ name)
    (value : BitVec 64) :
    decoder.step (hexdumpHeader name value) =
      { decoder with dumps := decoder.dumps ++ [(name, .hexdump)] } := by
  have hdump : dumpName 12 (hexdumpHeader name value) = name := by
    rw [hexdumpHeader_eq]
    exact dumpName_append rfl hname rfl
  unfold Decoder.step
  rw [lineKind_hexdumpHeader, hdump]

theorem step_row (decoder : Decoder) (buffer : List Byte) (byteCount : Nat)
    (address : BitVec 64) (offset : Nat) :
    decoder.step (HexDump.row buffer byteCount address offset) = decoder := by
  unfold Decoder.step
  rw [lineKind_row]

theorem foldl_dumpLines (decoder : Decoder) (proc : Process) (value : BitVec 64) {name : Text}
    (hname : ' ' ∉ name) :
    (dumpLines proc value name 32).foldl Decoder.step decoder = { decoder with
      dumps := decoder.dumps ++ ((dumpForm proc value).map fun form => (name, form)).toList } := by
  unfold dumpLines dumpForm
  split
  · cases safeReadMemory proc value 0x800 with
    | none => simp
    | some bytes =>
        dsimp only [Option.map_some]
        split
        · rw [List.foldl_cons, List.foldl_nil, step_stringLine _ hname]
          rfl
        · rw [HexDump.rowsFrom_32, List.foldl_cons, List.foldl_cons, List.foldl_cons,
            List.foldl_nil, step_row, step_row, step_hexdumpHeader _ hname]
          rfl
  · simp

theorem foldl_dumps {cs : Capstone} (hnames : cs.WordNames) (proc : Process)
    (results : List (Arm64Reg × BitVec 64)) (decoder : Decoder) :
    (results.flatMap fun (reg, value) => dumpLines proc value (cs.regName reg) 32).foldl
        Decoder.step decoder =
      { decoder with dumps := decoder.dumps ++ dumpsOf cs proc results } := by
  induction results generalizing decoder with
  | nil => simp [dumpsOf]
  | cons result rest ih =>
      have hname : ' ' ∉ cs.regName result.1 := hnames.not_mem result.1 (by decide)
      rw [List.flatMap_cons, List.foldl_append, foldl_dumpLines _ _ _ hname, ih, dumpsOf_cons,
        List.append_assoc]

/-- The summary of a record. -/
def TraceRecord.summary (cs : Capstone) (proc : Process)
    (results : List (Arm64Reg × BitVec 64)) (record : TraceRecord) : RecordSummary where
  results := results.map fun result => (cs.regName result.1, result.2)
  dumps := dumpsOf cs proc results
  instruction := record.instructionLine
  hasCall := decide (record.callInfo ≠ [])
  hasMemory := decide (record.memoryAccessInfo ≠ [])

theorem step_instruction {line : Text} (hline : "0x".toList <+: line) (decoder : Decoder) :
    decoder.step line =
      ⟨decoder.records ++ [⟨decoder.results, decoder.dumps, line, false, false⟩], [], []⟩ := by
  unfold Decoder.step
  rw [lineKind_instruction hline]

theorem step_call {line : Text} (hline : "call addr: ".toList <+: line)
    (records : List RecordSummary) (last : RecordSummary) :
    Decoder.step ⟨records ++ [last], [], []⟩ line =
      ⟨records ++ [{ last with hasCall := true }], [], []⟩ := by
  unfold Decoder.step
  rw [lineKind_call hline]
  dsimp only
  rw [List.modifyLast_concat]

theorem step_memory {entries : Text} (hentries : "mem[".toList <+: entries)
    (records : List RecordSummary) (last : RecordSummary) :
    Decoder.step ⟨records ++ [last], [], []⟩ ("   ".toList ++ entries) =
      ⟨records ++ [{ last with hasMemory := true }], [], []⟩ := by
  unfold Decoder.step
  rw [lineKind_memory hentries]
  dsimp only
  rw [List.modifyLast_concat]

/-- The parts of a record that open a line start with the mark of its kind. -/
structure TraceRecord.Marked (record : TraceRecord) : Prop where
  disasmInfo : "0x".toList <+: record.disasmInfo
  callInfo : record.callInfo = [] ∨ "call addr: ".toList <+: record.callInfo
  memoryAccessInfo : record.memoryAccessInfo = [] ∨ "mem[".toList <+: record.memoryAccessInfo

theorem TraceRecord.Marked.instructionLine {record : TraceRecord} (hmarked : record.Marked) :
    "0x".toList <+: record.instructionLine := by
  unfold TraceRecord.instructionLine
  rw [List.append_assoc]
  exact hmarked.disasmInfo.trans (List.prefix_append _ _)

theorem lineKind_resultsLine (cs : Capstone) (results : List (Arm64Reg × BitVec 64)) :
    lineKind ("\t w[".toList ++ postInfo cs results ++ "]".toList) = .results := by
  rw [List.append_assoc]
  exact lineKind_results _

theorem foldl_resultLines {cs : Capstone} (hnames : cs.WordNames) (proc : Process)
    (results : List (Arm64Reg × BitVec 64)) (records : List RecordSummary) :
    (resultLines cs proc results).foldl Decoder.step ⟨records, [], []⟩ =
      ⟨records, results.map fun result => (cs.regName result.1, result.2),
        dumpsOf cs proc results⟩ := by
  unfold resultLines
  split
  next hnone => simp [hnone, dumpsOf]
  next =>
    have hstep : Decoder.step ⟨records, [], []⟩
        ("\t w[".toList ++ postInfo cs results ++ "]".toList) =
          ⟨records, results.map fun result => (cs.regName result.1, result.2), []⟩ := by
      unfold Decoder.step
      rw [lineKind_resultsLine, parseResults_line hnames]
    rw [List.foldl_cons, hstep, foldl_dumps hnames, List.nil_append]

/-- Reading the lines of a record adds its summary and nothing else. -/
theorem foldl_recordLines {cs : Capstone} (hnames : cs.WordNames) (proc : Process)
    (results : List (Arm64Reg × BitVec 64)) {record : TraceRecord} (hmarked : record.Marked)
    (records : List RecordSummary) :
    (recordLines cs proc results record).foldl Decoder.step ⟨records, [], []⟩ =
      ⟨records ++ [record.summary cs proc results], [], []⟩ := by
  have hcall (last : RecordSummary) (hlast : last.hasCall = false) :
      (optionalLine record.callInfo record.callInfo).foldl Decoder.step
          ⟨records ++ [last], [], []⟩ =
        ⟨records ++ [{ last with hasCall := decide (record.callInfo ≠ []) }], [], []⟩ := by
    unfold optionalLine
    split
    next hnone => simp [hnone, ← hlast]
    next hne =>
      rw [List.foldl_cons, List.foldl_nil, step_call (hmarked.callInfo.resolve_left hne)]
      simp [hne]
  have hmemory (last : RecordSummary) (hlast : last.hasMemory = false) :
      (optionalLine record.memoryAccessInfo ("   ".toList ++ record.memoryAccessInfo)).foldl
          Decoder.step ⟨records ++ [last], [], []⟩ =
        ⟨records ++ [{ last with hasMemory := decide (record.memoryAccessInfo ≠ []) }],
          [], []⟩ := by
    unfold optionalLine
    split
    next hnone => simp [hnone, ← hlast]
    next hne =>
      rw [List.foldl_cons, List.foldl_nil,
        step_memory (hmarked.memoryAccessInfo.resolve_left hne)]
      simp [hne]
  unfold recordLines
  rw [List.foldl_append, foldl_resultLines hnames, List.foldl_cons,
    step_instruction hmarked.instructionLine, List.foldl_append, hcall _ rfl, hmemory _ rfl]
  rfl

/-! ## The order of the lines -/

def DumpForm.kinds : DumpForm → List LineKind
  | .string => [.stringDump]
  | .hexdump => [.hexHeader, .hexRow, .hexRow]

/-- The kinds of the lines a record with a summary consists of. -/
def RecordSummary.kinds (summary : RecordSummary) : List LineKind :=
  (if summary.results = [] then []
    else .results :: summary.dumps.flatMap fun dump => dump.2.kinds) ++
  .instruction ::
    ((if summary.hasCall then [.call] else []) ++ (if summary.hasMemory then [.memory] else []))

theorem dumpLines_kinds (proc : Process) (value : BitVec 64) (name : Text) :
    (dumpLines proc value name 32).map lineKind =
      (dumpForm proc value).toList.flatMap DumpForm.kinds := by
  unfold dumpLines dumpForm
  split
  · cases safeReadMemory proc value 0x800 with
    | none => rfl
    | some bytes =>
        dsimp only [Option.map_some]
        split
        · rw [List.map_singleton, lineKind_stringLine]
          rfl
        · rw [HexDump.rowsFrom_32, List.map_cons, List.map_cons, List.map_singleton,
            lineKind_hexdumpHeader, lineKind_row, lineKind_row]
          rfl
  · rfl

theorem dumps_kinds (cs : Capstone) (proc : Process) (results : List (Arm64Reg × BitVec 64)) :
    (results.flatMap fun (reg, value) => dumpLines proc value (cs.regName reg) 32).map lineKind =
      (dumpsOf cs proc results).flatMap fun dump => dump.2.kinds := by
  induction results with
  | nil => rfl
  | cons result rest ih =>
      rw [List.flatMap_cons, List.map_append, dumpLines_kinds, ih, dumpsOf_cons,
        List.flatMap_append]
      cases dumpForm proc result.2 <;> rfl

theorem recordLines_kinds (cs : Capstone) (proc : Process)
    (results : List (Arm64Reg × BitVec 64)) {record : TraceRecord} (hmarked : record.Marked) :
    (recordLines cs proc results record).map lineKind =
      (record.summary cs proc results).kinds := by
  have hresults : (resultLines cs proc results).map lineKind =
      if (results.map fun result => (cs.regName result.1, result.2)) = [] then []
      else .results :: (dumpsOf cs proc results).flatMap fun dump => dump.2.kinds := by
    unfold resultLines
    by_cases hnone : results = []
    · simp [hnone]
    · rw [if_neg hnone, if_neg (by simpa using hnone), List.map_cons, lineKind_resultsLine,
        dumps_kinds]
  have hcall : (optionalLine record.callInfo record.callInfo).map lineKind =
      if decide (record.callInfo ≠ []) then [.call] else [] := by
    unfold optionalLine
    by_cases hnone : record.callInfo = []
    · simp [hnone]
    · simp [hnone, lineKind_call (hmarked.callInfo.resolve_left hnone)]
  have hmemory : (optionalLine record.memoryAccessInfo
        ("   ".toList ++ record.memoryAccessInfo)).map lineKind =
      if decide (record.memoryAccessInfo ≠ []) then [.memory] else [] := by
    unfold optionalLine
    by_cases hnone : record.memoryAccessInfo = []
    · simp [hnone]
    · have hkind := lineKind_memory (hmarked.memoryAccessInfo.resolve_left hnone)
      rw [if_neg hnone, List.map_singleton, hkind]
      simp [hnone]
  unfold recordLines RecordSummary.kinds
  rw [List.map_append, List.map_cons, List.map_append, hresults, hcall, hmemory,
    lineKind_instruction hmarked.instructionLine]
  rfl

end GumTVM
