import GumTVM.Memory.EffectiveAddress
import GumTVM.Record.Stores
import GumTVM.Session.TraceFile

/-!
# Memory accesses in the trace file

The memory lines of a trace file list the accesses of all callouts of a session
in order. Replaying them from the memory at its start does what the stores of
the session did, if each of them is one that is reported right.
-/

namespace GumTVM

open Foundation

variable {cs : Capstone}

/-! ## Lines of one kind -/

/-- What a line says, if it is of some kind. -/
def readKind {α : Type*} (kind : LineKind) (parse : Text → List α) (line : Text) : List α :=
  if lineKind line = kind then parse line else []

theorem flatMap_readKind_eq_nil {α : Type*} {kind : LineKind} {parse : Text → List α}
    {lines : List Text} (hkinds : ∀ line ∈ lines, lineKind line ≠ kind) :
    lines.flatMap (readKind kind parse) = [] := by
  rw [List.flatMap_eq_nil_iff]
  intro line hline
  exact if_neg (hkinds line hline)

theorem flatMap_readKind {α : Type*} {kind : LineKind} {parse : Text → List α}
    {lines : List Text} (hkinds : ∀ line ∈ lines, lineKind line = kind) :
    lines.flatMap (readKind kind parse) = lines.flatMap parse := by
  apply List.flatMap_congr
  intro line hline
  exact if_pos (hkinds line hline)

theorem resultLines_kind {cs : Capstone} {proc : Process} {results : List (Arm64Reg × BitVec 64)}
    {line : Text} (hline : line ∈ resultLines cs proc results) :
    lineKind line ≠ .call ∧ lineKind line ≠ .memory := by
  have hkind : lineKind line ∈ (resultLines cs proc results).map lineKind :=
    List.mem_map_of_mem hline
  unfold resultLines at hkind
  split at hkind
  · cases hkind
  · rw [List.map_cons, lineKind_resultsLine, dumps_kinds] at hkind
    rcases List.mem_cons.mp hkind with hresults | hdumps
    · rw [hresults]
      exact ⟨by decide, by decide⟩
    · obtain ⟨dump, -, hdump⟩ := List.mem_flatMap.mp hdumps
      unfold DumpForm.kinds at hdump
      constructor
      all_goals
        intro heq
        rw [heq] at hdump
        split at hdump <;> simp at hdump

section Marked

variable {record : TraceRecord} (hmarked : record.Marked)

include hmarked

theorem callLine_kind {line : Text} (hline : line ∈ optionalLine record.callInfo record.callInfo) :
    lineKind line = .call := by
  obtain ⟨hne, rfl⟩ := mem_optionalLine hline
  exact lineKind_call (hmarked.callInfo.resolve_left hne)

theorem memoryLine_kind {line : Text} (hline : line ∈ optionalLine record.memoryAccessInfo
    ("   ".toList ++ record.memoryAccessInfo)) : lineKind line = .memory := by
  obtain ⟨hne, rfl⟩ := mem_optionalLine hline
  exact lineKind_memory (hmarked.memoryAccessInfo.resolve_left hne)

/-- The lines of a record before its call line are neither of the two kinds. -/
theorem recordLines_read {α : Type*} (cs : Capstone) (proc : Process)
    (results : List (Arm64Reg × BitVec 64)) {kind : LineKind} (parse : Text → List α)
    (hkind : kind = .call ∨ kind = .memory) :
    (recordLines cs proc results record).flatMap (readKind kind parse) =
      (optionalLine record.callInfo record.callInfo).flatMap (readKind kind parse) ++
        (optionalLine record.memoryAccessInfo
          ("   ".toList ++ record.memoryAccessInfo)).flatMap (readKind kind parse) := by
  have hresults : (resultLines cs proc results).flatMap (readKind kind parse) = [] := by
    apply flatMap_readKind_eq_nil
    intro line hline heq
    obtain ⟨hcall, hmemory⟩ := resultLines_kind hline
    rcases hkind with rfl | rfl
    · exact hcall heq
    · exact hmemory heq
  have hinstruction : readKind kind parse record.instructionLine = [] := by
    unfold readKind
    rw [lineKind_instruction hmarked.instructionLine]
    rcases hkind with rfl | rfl <;> rfl
  unfold recordLines
  rw [List.flatMap_append, List.flatMap_cons, List.flatMap_append, hresults, hinstruction]
  rfl

end Marked

/-! ## Memory lines -/

/-- The accesses on a line of a trace. -/
def lineAccesses : Text → List MemoryAccess :=
  readKind .memory fun line => parseAccesses (line.drop 3)

/-- The accesses listed in a trace. -/
def traceAccesses (text : Text) : List MemoryAccess :=
  (splitTerminated '\n' text).flatMap lineAccesses

/-- The lines of a record list its accesses. -/
theorem recordLines_accesses (cs : Capstone) (proc : Process)
    (results : List (Arm64Reg × BitVec 64)) {record : TraceRecord} (hmarked : record.Marked) :
    (recordLines cs proc results record).flatMap lineAccesses = record.accesses := by
  have hcall : ∀ line ∈ optionalLine record.callInfo record.callInfo,
      lineKind line ≠ .memory := by
    intro line hline heq
    rw [callLine_kind hmarked hline] at heq
    cases heq
  unfold lineAccesses
  rw [recordLines_read hmarked cs proc results _ (Or.inr rfl), flatMap_readKind_eq_nil hcall,
    flatMap_readKind fun _ => memoryLine_kind hmarked]
  unfold optionalLine TraceRecord.accesses
  by_cases hnone : record.memoryAccessInfo = []
  · rw [if_pos hnone, hnone]
    rfl
  · rw [if_neg hnone, List.flatMap_singleton]
    rfl

/-! ## The file over a session -/

/-- The file holds whole lines, and reading them one by one gives some entries. -/
def FileReads {α : Type*} (read : Text → List α) (path : Text) (entries : List α)
    (files : Files) : Prop :=
  ∃ lines : List Text, files path = terminated '\n' lines ∧ (∀ line ∈ lines, OneLine line) ∧
    lines.flatMap read = entries

theorem FileReads.split {α : Type*} {read : Text → List α} {path : Text} {entries : List α}
    {files : Files} (hreads : FileReads read path entries files) :
    (splitTerminated '\n' (files path)).flatMap read = entries := by
  obtain ⟨lines, hlines, honeLine, hentries⟩ := hreads
  have hsplit : splitTerminated '\n' (files path) = lines := by
    have hwhole := splitTerminated_terminated_append honeLine List.not_mem_nil
    rwa [List.append_nil, ← hlines] at hwhole
  rw [hsplit, hentries]

/-- A callout appends the lines of its record to the open file. -/
theorem FileReads.callback {α : Type*} {read : Text → List α} {path : Text} {entries : List α}
    {system next : System} {tid : Nat} {input : CallbackInput} {report : Report}
    (hnames : cs.WordNames) (hinput : input.Clean) (hopen : system.world.openFile = some path)
    (hreads : FileReads read path entries system.world.files)
    (hstep : system.step cs (.callback tid input) = some (next, report)) :
    ∃ result, instructionCallback cs input.proc system.world.manager input.ctx input.info =
        some result ∧
      next.world.manager = result.self ∧
      FileReads read path (entries ++ (recordLines cs input.proc
        (postResults system.world.manager input.ctx) result.record).flatMap read)
        next.world.files := by
  obtain ⟨lines, hlines, honeLine, hentries⟩ := hreads
  obtain ⟨logger, result, _, hlogger, hresult, rfl, _⟩ := step_callback_eq_some hstep
  unfold World.openFile at hopen
  rw [hlogger, Option.bind_some] at hopen
  refine ⟨result, hresult, rfl, lines ++ recordLines cs input.proc
    (postResults system.world.manager input.ctx) result.record, ?_, ?_, ?_⟩
  · dsimp only
    unfold LoggerManager.writeInfo
    rw [hopen, outInfo_eq (instructionCallback_postInfo hresult)
      (instructionCallback_dumpRegInfo hresult), terminated_append, ← hlines]
    exact Files.write_same _ _ _
  · intro line hline
    rcases List.mem_append.mp hline with hold | hnew
    · exact honeLine line hold
    · exact recordLines_oneLine hnames.oneLineNames hinput hresult line hnew
  · rw [List.flatMap_append, hentries]

/-- After a call of `gum_trace` that ran to its end nothing is read. -/
theorem FileReads.start {α : Type*} (read : Text → List α) (files : Files) {call : GumTraceCall}
    (hcall : call.Succeeds) :
    FileReads read call.traceFile [] (System.start files call).world.files := by
  obtain ⟨-, hempty⟩ := start_openFile files hcall
  refine ⟨[], ?_, by simp, rfl⟩
  rw [hempty]
  exact Files.write_same _ _ _

theorem calloutInputs_append (first second : List Event) :
    calloutInputs (first ++ second) = calloutInputs first ++ calloutInputs second :=
  List.filterMap_append

theorem calloutInputs_singleton {event : Event}
    (hplain : ∀ tid input, event ≠ .callback tid input) : calloutInputs [event] = [] := by
  cases event with
  | callback tid input => exact absurd rfl (hplain tid input)
  | _ => rfl

/-- The accesses that callouts report, operand by operand. -/
def reportedAccesses (cs : Capstone) (inputs : List CallbackInput) : List MemoryAccess :=
  inputs.flatMap fun input =>
    input.info.operands.flatMap (operandAccesses cs input.proc input.ctx input.info)

theorem reportedAccesses_append (first second : List CallbackInput) :
    reportedAccesses cs (first ++ second) =
      reportedAccesses cs first ++ reportedAccesses cs second := List.flatMap_append

/-- Whatever the threads do, the memory lines of the trace file list the accesses
that the callouts of the session reported, in order. -/
theorem session_accesses (hnames : cs.WordNames) (files : Files) {call : GumTraceCall}
    (hcall : call.Succeeds) {events : List Event}
    (honce : ∀ event ∈ events, ∀ call, event ≠ .gumTrace call)
    (hclean : ∀ tid input, Event.callback tid input ∈ events → input.Clean) {last : System}
    {reports : List Report}
    (hrun : System.run cs (System.start files call) events = some (last, reports)) :
    traceAccesses (last.world.files call.traceFile) =
      reportedAccesses cs (calloutInputs events) := by
  have hfresh := gumTrace_initial_fresh files call
  obtain ⟨hopen, -⟩ := start_openFile files hcall
  have hreads : FileReads lineAccesses call.traceFile
      (reportedAccesses cs (calloutInputs events)) last.world.files := by
    refine (runFrom_run_invariant (fun _ event => event ∈ events)
      (fun done log state => state.IdsFresh log ∧
        SessionInvariant (System.start files call).world.session log state ∧
        FileReads lineAccesses call.traceFile (reportedAccesses cs (calloutInputs done))
          state.world.files)
      ?_ ?_ ⟨System.start_idsFresh files call, .idle rfl (by simp [Quiet]),
        .start lineAccesses files hcall⟩ hrun).2.2
    · rintro done log state event next report hevent ⟨hids, hsession, haccesses⟩ hstep
      have hother := honce event hevent
      refine ⟨hids.step hstep, hsession.step hfresh hids hother hstep, ?_⟩
      rw [calloutInputs_append, reportedAccesses_append]
      by_cases hcallout : ∃ tid input, event = .callback tid input
      · obtain ⟨tid, input, rfl⟩ := hcallout
        have hinput := hclean tid input hevent
        obtain ⟨-, hfile⟩ := TraceInvariant.callback_active hfresh hsession hstep
        obtain ⟨result, hresult, -, hnext⟩ :=
          haccesses.callback hnames hinput (hfile.trans hopen) hstep
        rw [recordLines_accesses cs _ _
            (instructionCallback_marked hnames.oneLineNames hinput hresult),
          instructionCallback_accesses hresult] at hnext
        have hhere : reportedAccesses cs (calloutInputs [.callback tid input]) =
            input.info.operands.flatMap (operandAccesses cs input.proc input.ctx input.info) :=
          List.flatMap_singleton _ _
        rw [hhere]
        exact hnext
      · have hplain : ∀ tid input, event ≠ .callback tid input :=
          fun tid input heq => hcallout ⟨tid, input, heq⟩
        have hnone : reportedAccesses cs (calloutInputs [event]) = [] := by
          rw [calloutInputs_singleton hplain]
          rfl
        rw [hnone, List.append_nil, (step_unrecorded hplain hother hstep).1]
        exact haccesses
    · rintro done event rest rfl
      exact List.mem_append_right _ List.mem_cons_self
  exact hreads.split

/-! ## Replaying the stores of a session -/

/-- What the architecture does to memory when it executes the instruction of a
callout: a store with offset addressing writes the low bytes of its registers,
an instruction without a written memory operand writes nothing. -/
inductive MemoryStep (input : CallbackInput) (memory : Memory) : Memory → Prop
  | store {op : CsArm64Op} {mem : Arm64OpMem} {size : Nat} (hstore : StoresTo input.info mem)
      (hop : memoryOperands input.info = [op]) (haddress : LegalAddress op mem)
      (hgeneral : ¬ HasForeignRegister mem) (hsize : Transfers input.info size)
      (hoffset : input.info.detailCopy.arm64.writeback = false) :
      MemoryStep input memory (storeValues memory (effectiveAddress op mem input.ctx) size
        (storedValues input.info input.ctx))
  | silent (hnone : ∀ op ∈ memoryOperands input.info, op.access.write = false) :
      MemoryStep input memory memory

/-- The callback finds the address and the size of a store and prints no more of
a register than is stored. -/
structure StoreTracedExactly (input : CallbackInput) : Prop where
  index : ∀ op ∈ memoryOperands input.info, ∀ mem, op.value = .mem mem →
    IndexUnchanged op mem input.ctx
  size : SizeIsRight input.info (WidthMatchesText input.info)
  reported : StoreReported input.info.insnCopy.id (getMemoryAccessSize input.info)
    (storedValues input.info input.ctx)

/-- An address with general-purpose registers and an index that is taken whole is
found. -/
theorem exists_address (cs : Capstone) {op : CsArm64Op} {mem : Arm64OpMem} {ctx : GumCpuContext}
    (hlegal : LegalAddress op mem) (hgeneral : ¬ HasForeignRegister mem)
    (hindex : IndexUnchanged op mem ctx) :
    ∃ address, getMemoryAddressInfo cs mem ctx = some address ∧
      address.addr = effectiveAddress op mem ctx := by
  have hregister (reg : Arm64Reg) (hreg : ¬ (reg ≠ .invalid ∧ isGeneralPurpose reg = false)) :
      reg = .invalid ∨ isGeneralPurpose reg = true := by
    simpa [or_iff_not_imp_left] using hreg
  have hindex_ne : mem.index ≠ .wsp := by
    intro heq
    have hlegalIndex := hlegal.index
    rw [heq] at hlegalIndex
    cases hlegalIndex
  have haddr := getMemoryAddressInfo_addr cs mem ctx
  rw [addressTerm_eq ctx hlegal.base_ne (hregister _ fun hbase => hgeneral (Or.inl hbase)),
    addressTerm_eq ctx hindex_ne (hregister _ fun hbase => hgeneral (Or.inr hbase))] at haddr
  obtain ⟨address, haddress, heq⟩ := Option.map_eq_some_iff.mp haddr
  refine ⟨address, haddress, ?_⟩
  unfold effectiveAddress
  rw [heq, (extendIndex_legal_iff hlegal.index).mpr hindex]

/-- An operand that is not written is reported by reads at most. -/
theorem operandAccesses_read {proc : Process} {ctx : GumCpuContext} {info : InstructionInfo}
    {op : CsArm64Op} (hop : op.access.write = false) {access : MemoryAccess}
    (haccess : access ∈ operandAccesses cs proc ctx info op) : access.kind = .read := by
  unfold operandAccesses at haccess
  split at haccess
  · split at haccess
    · cases haccess
    next address _ =>
      rw [hop, if_neg Bool.false_ne_true] at haccess
      split at haccess
      · unfold loadAccesses at haccess
        dsimp only at haccess
        split at haccess
        · cases haccess
        · rcases List.mem_cons.mp haccess with rfl | hsecond
          · rfl
          · split at hsecond
            · rw [List.mem_singleton.mp hsecond]
            · cases hsecond
      · cases haccess
  · cases haccess

theorem applyAccesses_append (memory : Memory) (first second : List MemoryAccess) :
    applyAccesses memory (first ++ second) =
      applyAccesses (applyAccesses memory first) second := List.foldl_append

theorem reportedAccesses_cons (input : CallbackInput) (rest : List CallbackInput) :
    reportedAccesses cs (input :: rest) =
      reportedAccesses cs [input] ++ reportedAccesses cs rest := by
  unfold reportedAccesses
  rw [List.flatMap_cons, List.flatMap_singleton]

theorem reportedAccesses_singleton (input : CallbackInput) :
    reportedAccesses cs [input] = (memoryOperands input.info).flatMap
      (operandAccesses cs input.proc input.ctx input.info) := by
  unfold reportedAccesses
  rw [List.flatMap_singleton, flatMap_operandAccesses]

/-- A store that is traced exactly is reported by its writes. -/
theorem reportedAccesses_store {input : CallbackInput} {op : CsArm64Op} {mem : Arm64OpMem}
    {size : Nat} (hexact : StoreTracedExactly input) (hstore : StoresTo input.info mem)
    (hop : memoryOperands input.info = [op]) (haddress : LegalAddress op mem)
    (hgeneral : ¬ HasForeignRegister mem) (hsize : Transfers input.info size) :
    reportedAccesses cs [input] = expectedWrites (effectiveAddress op mem input.ctx) size
      (storedValues input.info input.ctx) := by
  obtain ⟨hindex, hright, hwrites⟩ := hexact
  obtain ⟨found, hfound, hvalue, hwrite⟩ := hstore.operand
  obtain rfl : found = op := List.singleton_inj.mp (hfound.symm.trans hop)
  obtain ⟨address, hsome, haddr⟩ := exists_address cs haddress hgeneral
    (hindex found (hop ▸ List.mem_singleton_self found) mem hvalue)
  have hbytes := (getMemoryAccessSize_eq_iff_text hsize).mpr hright
  have haccesses : operandAccesses cs input.proc input.ctx input.info found =
      storeAccesses input.info input.ctx address.addr := by
    unfold operandAccesses
    simp only [hvalue, hsome, hwrite, if_true]
  rw [reportedAccesses_singleton, hop, List.flatMap_singleton, haccesses,
    (hstore.storeAccesses_iff _).mpr hwrites, haddr, hbytes]

theorem reportedAccesses_read {input : CallbackInput}
    (hnone : ∀ op ∈ memoryOperands input.info, op.access.write = false) {access : MemoryAccess}
    (haccess : access ∈ reportedAccesses cs [input]) : access.kind = .read := by
  rw [reportedAccesses_singleton] at haccess
  obtain ⟨op, hop, hmem⟩ := List.mem_flatMap.mp haccess
  exact operandAccesses_read (hnone op hop) hmem

theorem applyAccesses_reads {memory : Memory} {accesses : List MemoryAccess}
    (hreads : ∀ access ∈ accesses, access.kind = .read) :
    applyAccesses memory accesses = memory := by
  have hnone : accesses.filter (·.kind = .write) = [] := by
    rw [List.filter_eq_nil_iff]
    intro access haccess
    simp [hreads access haccess]
  rw [← applyAccesses_filter, hnone]
  rfl

/-- Replaying what a callout reports does what its instruction does. -/
theorem applyAccesses_reported {input : CallbackInput} {before after : Memory}
    (hexact : input.info.insnCopy.id ∈ singleStores ++ pairStores → StoreTracedExactly input)
    (hstep : MemoryStep input before after) :
    applyAccesses before (reportedAccesses cs [input]) = after := by
  cases hstep with
  | store hstore hop haddress hgeneral hsize _ =>
      rw [reportedAccesses_store (hexact hstore.family) hstore hop haddress hgeneral hsize,
        applyAccesses_expectedWrites]
  | silent hnone => exact applyAccesses_reads fun _ => reportedAccesses_read hnone

theorem replay_reported {inputs : List CallbackInput} {before after : Memory}
    (hexact : ∀ input ∈ inputs, input.info.insnCopy.id ∈ singleStores ++ pairStores →
      StoreTracedExactly input)
    (hrun : stepsAlong MemoryStep inputs before after) :
    applyAccesses before (reportedAccesses cs inputs) = after := by
  induction inputs generalizing before with
  | nil => exact hrun.symm
  | cons input rest ih =>
      obtain ⟨middle, hstep, hrest⟩ := hrun
      have hhere := @applyAccesses_reported cs _ _ _ (hexact input List.mem_cons_self) hstep
      rw [reportedAccesses_cons, applyAccesses_append, hhere]
      exact ih (fun other hother => hexact other (List.mem_cons_of_mem _ hother)) hrest

/-- If every store that is traced is traced exactly, replaying the memory lines
of the trace file does to memory what the instructions of the session did. -/
theorem session_replay (hnames : cs.WordNames) (files : Files) {call : GumTraceCall}
    (hcall : call.Succeeds) {events : List Event}
    (honce : ∀ event ∈ events, ∀ call, event ≠ .gumTrace call)
    (hclean : ∀ tid input, Event.callback tid input ∈ events → input.Clean) {last : System}
    {reports : List Report}
    (hrun : System.run cs (System.start files call) events = some (last, reports))
    (hexact : ∀ input ∈ calloutInputs events,
      input.info.insnCopy.id ∈ singleStores ++ pairStores → StoreTracedExactly input)
    {before after : Memory} (hmemory : stepsAlong MemoryStep (calloutInputs events) before after) :
    applyAccesses before (traceAccesses (last.world.files call.traceFile)) = after := by
  rw [session_accesses hnames files hcall honce hclean hrun]
  exact replay_reported hexact hmemory

/-- `0x41` at one address, nothing else mapped -/
def storedByte : Memory := ByteMemory.store (fun _ => none) 0x8000 [0x41]

/-- `strb w0, [x1]` with `0x41` in `x0` and `0x8000` in `x1` -/
def storeByteInput : CallbackInput where
  proc := .ofMemory fun _ => none
  ctx := { GumCpuContext.zero with x := fun n => if n = 0 then 0x41 else 0x8000, pc := 0x1000 }
  info := storeByte

/-- `ldrb w2, [x1]` right after it -/
def loadByteInput : CallbackInput where
  proc := .ofMemory storedByte
  ctx := { storeByteInput.ctx with pc := 0x1004 }
  info := ⟨.ofOperands .ldrb 0x1004 "ldrb".toList "w2, [x1]".toList
    [.plain (.reg (.w 2)) ⟨false, true⟩, .plain (.mem ⟨.x 1, .invalid, 0⟩) ⟨true, false⟩]⟩

/-- Thread 1 is followed, stores a byte and loads it. -/
def storingSession : List Event :=
  [.enter 1 0x1010 7 1 2, .callback 1 storeByteInput, .callback 1 loadByteInput, .leave 1]

theorem storingSession_once : ∀ event ∈ storingSession, ∀ call, event ≠ .gumTrace call := by
  simp [storingSession]

theorem storingSession_clean {tid : Nat} {input : CallbackInput}
    (hmem : Event.callback tid input ∈ storingSession) : input.Clean := by
  have hinput : tid = 1 ∧ (input = storeByteInput ∨ input = loadByteInput) := by
    simpa [storingSession, ← and_or_left] using hmem
  rcases hinput.2 with rfl | rfl <;> exact clean_of_empty rfl (by decide) (by decide)

theorem storeByteInput_size : getMemoryAccessSize storeByteInput.info = 1 := by decide

theorem storeByteInput_values :
    storedValues storeByteInput.info storeByteInput.ctx = [0x41] := by decide

theorem storingSession_traced : ∀ input ∈ calloutInputs storingSession,
    input.info.insnCopy.id ∈ singleStores ++ pairStores → StoreTracedExactly input := by
  intro input hinput hfamily
  rcases List.mem_pair.mp hinput with rfl | rfl
  · refine ⟨?_, trivial, ?_⟩
    · intro op hop mem hvalue
      obtain rfl := List.mem_singleton.mp hop
      cases hvalue
      exact Or.inl rfl
    · rw [storeByteInput_size, storeByteInput_values]
      exact ⟨by decide, by simp⟩
  · exact absurd hfamily (by decide)

theorem storeByteInput_transfers : Transfers storeByteInput.info 1 where
  count_single _ := rfl
  count_pair hpair := by rcases hpair with hid | hid | hid | hid <;> cases hid
  bytes := by decide

theorem storeByteInput_step : MemoryStep storeByteInput (fun _ => none) storedByte := by
  have hstep := @MemoryStep.store storeByteInput (fun _ => none) _ _ 1 storeByte_storesTo rfl
    ⟨by decide, Or.inl rfl⟩ (by simp [HasForeignRegister, isGeneralPurpose])
    storeByteInput_transfers rfl
  rwa [storeByteInput_values] at hstep

theorem loadByteInput_step : MemoryStep loadByteInput storedByte storedByte :=
  .silent (by decide)

theorem session_replay_stored :
    ∃ last reports,
      System.run .standard (System.start (fun _ => []) sampleCall) storingSession =
        some (last, reports) ∧
      applyAccesses (fun _ => none) (traceAccesses (last.world.files sampleCall.traceFile)) =
        storedByte := by
  obtain ⟨last, reports, hrun⟩ : ∃ last reports,
      System.run .standard (System.start (fun _ => []) sampleCall) storingSession =
        some (last, reports) := ⟨_, _, rfl⟩
  have hcall : sampleCall.Succeeds := ⟨⟨_, rfl, by decide⟩, rfl, rfl⟩
  exact ⟨last, reports, hrun, session_replay Capstone.standard_wordNames _ hcall
    storingSession_once (fun _ _ hmem => storingSession_clean hmem) hrun storingSession_traced
    ⟨storedByte, storeByteInput_step, storedByte, loadByteInput_step, rfl⟩⟩

end GumTVM
