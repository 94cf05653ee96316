import GumTVM.Tracer.CallbackLaws

/-!
# The lines of a record

A record is a sequence of lines: the results with their dumps, the instruction,
the call and the memory accesses. None of them contains a line end, whatever the
memory of the traced process holds, as long as the texts that come from the
disassembler and the linker contain none.
-/

namespace GumTVM

open Foundation

/-- A text without a line end. -/
def OneLine (text : Text) : Prop := '\n' ∉ text

instance (text : Text) : Decidable (OneLine text) := inferInstanceAs (Decidable ('\n' ∉ text))

theorem OneLine.nil : OneLine [] := List.not_mem_nil

theorem OneLine.append {first second : Text} (hfirst : OneLine first) (hsecond : OneLine second) :
    OneLine (first ++ second) := by
  unfold OneLine at *
  rw [List.mem_append, not_or]
  exact ⟨hfirst, hsecond⟩

theorem OneLine.hex (n : Nat) : OneLine (hex n) := not_mem_hex (by decide)

theorem OneLine.flatMap {α : Type*} {items : List α} {text : α → Text}
    (htext : ∀ item ∈ items, OneLine (text item)) : OneLine (items.flatMap text) := by
  unfold OneLine
  rw [List.mem_flatMap]
  intro hexists
  obtain ⟨item, hitem, hmem⟩ := hexists
  exact htext item hitem hmem

theorem OneLine.rightpad_hex (n width : Nat) : OneLine ((Foundation.hex n).rightpad width ' ') := by
  unfold List.rightpad
  apply (OneLine.hex n).append
  intro hmem
  exact absurd (List.eq_of_mem_replicate hmem) (by decide)

/-! ## Dumps -/

/-- The lines of a dump. -/
def dumpLines (proc : Process) (regValue : BitVec 64) (regName : Text) (count : Nat) :
    List Text :=
  if isValidAddress proc regValue then
    match safeReadMemory proc regValue 0x800 with
    | some bytes =>
        if isAsciiPrintableString (bytes ++ [0]) 0x800 then
          [stringLine regName regValue (cString (bytes ++ [0]))]
        else hexdumpHeader regName regValue :: HexDump.rowsFrom (bytes ++ [0]) count regValue 0
    | none => []
  else []

theorem dumpRegValue_eq (proc : Process) (regValue : BitVec 64) (regName : Text) (count : Nat) :
    dumpRegValue proc regValue regName count =
      terminated '\n' (dumpLines proc regValue regName count) := by
  unfold dumpRegValue dumpLines
  by_cases hvalid : isValidAddress proc regValue = true
  · rw [if_pos hvalid, if_pos hvalid]
    cases safeReadMemory proc regValue 0x800 with
    | none => rfl
    | some bytes =>
        dsimp only
        split
        · rw [terminated_cons, terminated_nil]
        · rw [terminated_cons, HexDump.dump, List.append_assoc, List.singleton_append]
  · rw [if_neg hvalid, if_neg hvalid]
    rfl

theorem dumpLines_oneLine {proc : Process} {regValue : BitVec 64} {regName line : Text}
    (hname : OneLine regName) (hline : line ∈ dumpLines proc regValue regName 32) :
    OneLine line := by
  unfold dumpLines at hline
  split at hline
  · split at hline
    next bytes hread =>
      split at hline
      next hprint =>
        rw [List.mem_singleton] at hline
        subst hline
        have hstring : OneLine (cString (bytes ++ [0])) := by
          apply newline_not_mem_cString
          rw [safeReadMemory_length hread]
          exact hprint
        unfold stringLine
        refine (((OneLine.append ?_ hname).append ?_).append (.hex _)).append ?_ |>.append hstring
        all_goals decide
      next =>
        rw [HexDump.rowsFrom_32] at hline
        simp only [List.mem_cons, List.not_mem_nil, or_false] at hline
        rcases hline with rfl | rfl | rfl
        · unfold hexdumpHeader
          refine ((OneLine.append ?_ hname).append ?_).append (.hex _) |>.append ?_
          all_goals decide
        · exact HexDump.newline_not_mem_row _ _ _ _
        · exact HexDump.newline_not_mem_row _ _ _ _
    next => cases hline
  · cases hline

/-! ## Operands -/

/-- Names of registers have no line end. -/
def OneLineNames (cs : Capstone) : Prop := ∀ reg, OneLine (cs.regName reg)

/-- One or more memory entries on one line. -/
structure MemoryEntries (text : Text) : Prop where
  oneLine : OneLine text
  starts : "mem[".toList <+: text

theorem MemoryEntries.append {first second : Text} (hfirst : MemoryEntries first)
    (hsecond : OneLine second) : MemoryEntries (first ++ second) :=
  ⟨hfirst.oneLine.append hsecond, hfirst.starts.trans (List.prefix_append _ _)⟩

theorem memEntry_entries {kind : Text} (hkind : OneLine kind) (addr : BitVec 64) (size : Nat)
    (value : BitVec 64) : MemoryEntries (memEntry kind addr size value) := by
  unfold memEntry
  refine ⟨?_, ?_⟩
  · refine OneLine.append (.append (.append (.append (.append (.append (.append ?_ hkind) ?_)
      (.hex _)) ?_) (.hex _)) ?_) (.hex _)
    all_goals decide
  · simp only [List.append_assoc]
    exact List.prefix_append _ _

theorem registerText_oneLine {name : Text} (hname : OneLine name) (value : BitVec 64) :
    OneLine (registerText name value) := by
  unfold registerText
  refine OneLine.append (.append (.append hname ?_) (.hex _)) ?_
  all_goals decide

variable {cs : Capstone} {proc : Process} {ctx : GumCpuContext} {info : InstructionInfo}

theorem addressRegisterInfo_oneLine (hnames : OneLineNames cs) {mem : Arm64OpMem}
    {address : MemoryAddressInfo} (haddress : getMemoryAddressInfo cs mem ctx = some address) :
    OneLine (addressRegisterInfo address) := by
  have hname {name : Text} {reg : Arm64Reg} (hreg : name = [] ∨ name = cs.regName reg) :
      OneLine name := by
    rcases hreg with rfl | rfl
    · exact .nil
    · exact hnames reg
  obtain ⟨hbase, hindex⟩ := getMemoryAddressInfo_names haddress
  unfold addressRegisterInfo
  refine OneLine.append ?_ ?_
  · split
    · exact registerText_oneLine (hname hbase) _
    · exact .nil
  · split
    · exact registerText_oneLine (hname hindex) _
    · exact .nil

theorem memoryWriteInfo_entries {addr : BitVec 64} {entries : Text}
    (hentries : memoryWriteInfo info ctx addr = some entries) : MemoryEntries entries := by
  have hkind : OneLine ['w'] := by decide
  have hcomma : OneLine ", ".toList := by decide
  unfold memoryWriteInfo at hentries
  dsimp only at hentries
  split at hentries
  · obtain rfl := Option.some.inj hentries
    exact ((memEntry_entries hkind _ _ _).append hcomma).append
      (memEntry_entries hkind _ _ _).oneLine
  · cases hentries
  · obtain rfl := Option.some.inj hentries
    exact memEntry_entries hkind _ _ _
  · cases hentries

theorem memoryReadInfo_entries {addr : BitVec 64} {entries : Text}
    (hentries : (memoryReadInfo proc info addr).1 = some entries) : MemoryEntries entries := by
  have hkind : OneLine ['r'] := by decide
  have hcomma : OneLine ", ".toList := by decide
  unfold memoryReadInfo at hentries
  dsimp only at hentries
  split at hentries
  · cases hentries
  · split at hentries
    · split at hentries
      · obtain rfl := Option.some.inj hentries
        exact ((memEntry_entries hkind _ _ _).append hcomma).append
          (memEntry_entries hkind _ _ _).oneLine
      · obtain rfl := Option.some.inj hentries
        exact memEntry_entries hkind _ _ _
    · obtain rfl := Option.some.inj hentries
      exact memEntry_entries hkind _ _ _

/-- What the operand loop keeps about its streams. -/
structure OperandState.Clean (state : OperandState) : Prop where
  preInfo : OneLine state.preInfo
  memory : state.memoryAccessInfo = [] ∨ MemoryEntries state.memoryAccessInfo

theorem appendEntries_clean {printed : Text} {entries : Option Text}
    (hprinted : printed = [] ∨ MemoryEntries printed)
    (hentries : ∀ text, entries = some text → MemoryEntries text) :
    appendEntries printed entries = [] ∨ MemoryEntries (appendEntries printed entries) := by
  cases entries with
  | none => exact hprinted
  | some text =>
      right
      have htext := hentries text rfl
      unfold appendEntries
      dsimp only
      split
      next => exact htext
      next hne =>
        have hcomma : OneLine ", ".toList := by decide
        exact ((hprinted.resolve_left hne).append hcomma).append htext.oneLine

theorem memoryStep_clean (hnames : OneLineNames cs) {state : OperandState} {op : CsArm64Op}
    (hstate : state.Clean) : (memoryStep cs proc ctx info state op).Clean := by
  unfold memoryStep
  split
  next mem _ =>
    cases haddress : getMemoryAddressInfo cs mem ctx with
    | none => exact hstate
    | some address =>
        have hpre := hstate.preInfo.append (addressRegisterInfo_oneLine hnames haddress)
        dsimp only
        split
        · exact ⟨hpre, appendEntries_clean hstate.memory fun _ => memoryWriteInfo_entries⟩
        · split
          · exact ⟨hpre, appendEntries_clean hstate.memory fun _ => memoryReadInfo_entries⟩
          · exact ⟨hpre, hstate.memory⟩
  next => exact hstate

theorem readRegisterInfo_oneLine (hnames : OneLineNames cs) (op : CsArm64Op) :
    OneLine (readRegisterInfo cs ctx op) := by
  unfold readRegisterInfo
  split
  · split
    · split
      · exact registerText_oneLine (hnames _) _
      · exact .nil
    · exact .nil
  · exact .nil

theorem operandLoop_clean (hnames : OneLineNames cs) : (operandLoop cs proc ctx info).Clean := by
  have hfold (ops : List CsArm64Op) (state : OperandState) (hstate : state.Clean) :
      (ops.foldl (operandStep cs proc ctx info) state).Clean := by
    induction ops generalizing state with
    | nil => exact hstate
    | cons op rest ih =>
        refine ih _ (memoryStep_clean hnames ⟨?_, hstate.memory⟩)
        exact hstate.preInfo.append (readRegisterInfo_oneLine hnames op)
  exact hfold _ _ ⟨.nil, Or.inl rfl⟩

/-! ## Instruction and call lines -/

/-- The texts of an input that other components supply have no line end. -/
structure CallbackInput.Clean (input : CallbackInput) : Prop where
  mnemonic : OneLine input.info.insnCopy.mnemonic
  opStr : OneLine input.info.insnCopy.opStr
  module : ∀ addr xdlInfo, input.proc.xdlAddr addr = some xdlInfo → OneLine xdlInfo.dliFname
  symbol : ∀ addr xdlInfo name, input.proc.xdlAddr addr = some xdlInfo →
    xdlInfo.dliSname = some name → OneLine name
  /-- What is read through the dangling pointer where a symbol has no name. -/
  stale : ∀ addr xdlInfo, input.proc.xdlAddr addr = some xdlInfo → xdlInfo.dliSname = none →
    OneLine (input.proc.staleText ("sub_".toList ++ hex (addr - xdlInfo.dliFbase).toNat))

theorem CallbackInput.Clean.symName {input : CallbackInput} (hinput : input.Clean)
    {addr : BitVec 64} {xdlInfo : XdlInfo} (hinfo : input.proc.xdlAddr addr = some xdlInfo) :
    OneLine (symName input.proc addr xdlInfo) := by
  unfold GumTVM.symName
  split
  next name hname => exact hinput.symbol addr xdlInfo name hinfo hname
  next hname => exact hinput.stale addr xdlInfo hinfo hname

/-- Where no symbol is found only the texts of the instruction matter. -/
theorem clean_of_empty {input : CallbackInput} (hproc : input.proc.xdlAddr = fun _ => none)
    (hmnemonic : OneLine input.info.insnCopy.mnemonic)
    (hopStr : OneLine input.info.insnCopy.opStr) : input.Clean := by
  have hsymbol {addr : BitVec 64} {xdlInfo : XdlInfo}
      (hfound : input.proc.xdlAddr addr = some xdlInfo) : False := by
    rw [hproc] at hfound
    cases hfound
  exact ⟨hmnemonic, hopStr, fun _ _ hfound => (hsymbol hfound).elim,
    fun _ _ _ hfound => (hsymbol hfound).elim, fun _ _ hfound => (hsymbol hfound).elim⟩

variable {self : InstructionTracerManager} {input : CallbackInput}

theorem disasmInfo_starts : "0x".toList <+: disasmInfo self ctx info := by
  unfold disasmInfo
  dsimp only
  split
  · simp only [List.append_assoc]
    exact List.prefix_append _ _
  · simp only [List.append_assoc]
    exact List.prefix_append _ _

theorem disasmInfo_oneLine (hinput : input.Clean) :
    OneLine (disasmInfo self input.ctx input.info) := by
  unfold disasmInfo
  have htext : OneLine (input.info.insnCopy.mnemonic ++ ['\t'] ++ input.info.insnCopy.opStr) := by
    refine (hinput.mnemonic.append ?_).append hinput.opStr
    decide
  refine OneLine.append ?_ ?_
  · split
    · refine OneLine.append (.append (.append ?_ (.rightpad_hex _ _)) ?_) htext
      all_goals decide
    · refine OneLine.append (.append (.append (.append (.append ?_ (.rightpad_hex _ _)) ?_)
        (.hex _)) ?_) htext
      all_goals decide
  · split
    · split
      · refine OneLine.append (.append ?_ (.hex _)) ?_
        all_goals decide
      · exact .nil
    · exact .nil

/-- A call line, recognised by its first characters. -/
structure CallText (text : Text) : Prop where
  oneLine : OneLine text
  starts : "call addr: ".toList <+: text

theorem afterLastSlash_oneLine {path soName : Text} (hpath : OneLine path)
    (hname : afterLastSlash path = some soName) : OneLine soName := by
  unfold afterLastSlash at hname
  split at hname
  · obtain rfl := Option.some.inj hname
    intro hmem
    have hreverse := (List.takeWhile_prefix _).mem (List.mem_reverse.mp hmem)
    exact hpath (List.mem_reverse.mp hreverse)
  · cases hname

theorem callLine_starts (addr : BitVec 64) (soName symName : Text) :
    "call addr: ".toList <+: callLine addr soName symName := by
  unfold callLine
  simp only [List.append_assoc]
  exact List.prefix_append _ _

theorem callInfo_text (hinput : input.Clean) {addr : BitVec 64} {text : Text}
    (hcall : callInfo input.proc addr = some text) : text = [] ∨ CallText text := by
  unfold callInfo at hcall
  split at hcall
  next => exact Or.inl (Option.some.inj hcall).symm
  next xdlInfo hinfo =>
    obtain ⟨soName, hname, rfl⟩ := Option.map_eq_some_iff.mp hcall
    have hmodule := afterLastSlash_oneLine (hinput.module _ _ hinfo) hname
    refine Or.inr ⟨?_, ?_⟩
    · unfold callLine
      refine OneLine.append (.append (.append (.append (.append (.append ?_ (.hex _)) ?_) hmodule)
        ?_) (hinput.symName hinfo)) ?_
      all_goals decide
    · exact callLine_starts _ _ _

theorem callStep_text (hinput : input.Clean) {next : InstructionTracerManager} {text : Text}
    (hstep : callStep input.proc self input.ctx input.info = some (next, text)) :
    text = [] ∨ CallText text := by
  unfold callStep at hstep
  dsimp only at hstep
  split at hstep
  · exact Or.inl (Prod.mk.inj (Option.some.inj hstep)).2.symm
  · split at hstep
    · exact Or.inl (Prod.mk.inj (Option.some.inj hstep)).2.symm
    · obtain ⟨line, hline, heq⟩ := Option.map_eq_some_iff.mp hstep
      obtain ⟨-, rfl⟩ := Prod.mk.inj heq
      exact callInfo_text hinput hline

/-! ## Records -/

/-- The line of the results and their dumps. -/
def resultLines (cs : Capstone) (proc : Process) (results : List (Arm64Reg × BitVec 64)) :
    List Text :=
  if results = [] then [] else
    ("\t w[".toList ++ postInfo cs results ++ "]".toList) ::
      results.flatMap fun (reg, value) => dumpLines proc value (cs.regName reg) 32

/-- A line printed only when there is a text for it. -/
def optionalLine (text line : Text) : List Text := if text = [] then [] else [line]

def TraceRecord.instructionLine (record : TraceRecord) : Text :=
  record.disasmInfo ++ "   ;".toList ++ record.preInfo

/-- The lines of a record. -/
def recordLines (cs : Capstone) (proc : Process) (results : List (Arm64Reg × BitVec 64))
    (record : TraceRecord) : List Text :=
  resultLines cs proc results ++ record.instructionLine ::
    (optionalLine record.callInfo record.callInfo ++
      optionalLine record.memoryAccessInfo ("   ".toList ++ record.memoryAccessInfo))

theorem terminated_resultLines {results : List (Arm64Reg × BitVec 64)} :
    terminated '\n' (resultLines cs proc results) =
      if postInfo cs results = [] then [] else
        "\t w[".toList ++ postInfo cs results ++ "]".toList ++ ['\n'] ++
          dumpRegInfo cs proc results := by
  have hdumps : dumpRegInfo cs proc results = terminated '\n'
      (results.flatMap fun (reg, value) => dumpLines proc value (cs.regName reg) 32) := by
    rw [terminated_flatMap, dumpRegInfo]
    congr 1
    funext entry
    exact dumpRegValue_eq _ _ _ _
  unfold resultLines
  rw [hdumps]
  simp only [postInfo_eq_nil_iff]
  split
  · rfl
  · rw [terminated_cons, List.append_assoc _ ['\n'], List.singleton_append]

theorem terminated_optionalLine (text line : Text) :
    terminated '\n' (optionalLine text line) = if text = [] then [] else line ++ ['\n'] := by
  unfold optionalLine
  split
  · rfl
  · rw [terminated_cons, terminated_nil]

theorem outInfo_eq {results : List (Arm64Reg × BitVec 64)} {record : TraceRecord}
    (hpost : record.postInfo = postInfo cs results)
    (hdump : record.dumpRegInfo = dumpRegInfo cs proc results) :
    record.outInfo = terminated '\n' (recordLines cs proc results record) := by
  unfold TraceRecord.outInfo recordLines
  rw [hpost, hdump, terminated_append, terminated_resultLines, terminated_cons,
    terminated_append, terminated_optionalLine, terminated_optionalLine]
  simp only [TraceRecord.instructionLine, List.append_assoc, List.cons_append, List.nil_append]

theorem postInfo_oneLine (hnames : OneLineNames cs) (results : List (Arm64Reg × BitVec 64)) :
    OneLine (postInfo cs results) := by
  apply OneLine.flatMap
  intro entry _
  refine OneLine.append (.append (.append (hnames entry.1) ?_) (.hex _)) ?_
  all_goals decide

theorem resultLines_oneLine (hnames : OneLineNames cs) {results : List (Arm64Reg × BitVec 64)}
    {line : Text} (hline : line ∈ resultLines cs proc results) : OneLine line := by
  unfold resultLines at hline
  split at hline
  · cases hline
  · rcases List.mem_cons.mp hline with rfl | hdump
    · refine OneLine.append (.append ?_ (postInfo_oneLine hnames _)) ?_
      all_goals decide
    · obtain ⟨entry, _, hentry⟩ := List.mem_flatMap.mp hdump
      exact dumpLines_oneLine (hnames entry.1) hentry

theorem mem_optionalLine {text line found : Text} (hfound : found ∈ optionalLine text line) :
    text ≠ [] ∧ found = line := by
  unfold optionalLine at hfound
  split at hfound
  next => cases hfound
  next hne => exact ⟨hne, List.mem_singleton.mp hfound⟩

/-- No line of the record of a callback contains a line end. -/
theorem recordLines_oneLine (hnames : OneLineNames cs) (hinput : input.Clean)
    {result : CallbackResult}
    (hcall : instructionCallback cs input.proc self input.ctx input.info = some result) :
    ∀ line ∈ recordLines cs input.proc (postResults self input.ctx) result.record,
      OneLine line := by
  obtain ⟨next, callText, hstep, rfl⟩ := instructionCallback_eq_some.mp hcall
  have hclean : (operandLoop cs input.proc input.ctx input.info).Clean := operandLoop_clean hnames
  intro line hline
  unfold recordLines at hline
  rcases List.mem_append.mp hline with hhead | hrest
  · exact resultLines_oneLine hnames hhead
  · rcases List.mem_cons.mp hrest with rfl | htail
    · refine OneLine.append (.append (disasmInfo_oneLine hinput) ?_) hclean.preInfo
      decide
    · rcases List.mem_append.mp htail with hcallLine | hmemory
      · obtain ⟨hne, rfl⟩ := mem_optionalLine hcallLine
        exact ((callStep_text hinput hstep).resolve_left hne).oneLine
      · obtain ⟨hne, rfl⟩ := mem_optionalLine hmemory
        refine OneLine.append ?_ (hclean.memory.resolve_left hne).oneLine
        decide

end GumTVM
