import GumTVM.Foundation.CountedArray
import GumTVM.Tracer.CallbackLaws

/-!
# The list of written registers as an array

`write_reg_list` is an array of 31 entries with a count, filled in the operand
loop without a bound check and emptied at the start of the next callback. The
callback over the array keeps the index of every store; it prints what the
callback over the list prints.
-/

namespace GumTVM

open Foundation

/-- `REG_LIST` -/
abbrev RegList := CountedArray Arm64Reg 31

def RegList.initial : RegList := .empty .invalid

/-! ## The callback over the array -/

/-- The array, and the indices stored to so far. -/
structure ListWrites where
  list : RegList
  stores : List Nat

/-- `regs[num++] = op.reg` for a register operand that is written. -/
def ListWrites.operand (writes : ListWrites) (op : CsArm64Op) : ListWrites :=
  match writtenRegister op with
  | some reg => ⟨writes.list.append reg, writes.stores ++ [writes.list.num]⟩
  | none => writes

/-- One iteration of the operand loop. The register is stored before the memory
part, which may leave the iteration early. -/
def arrayOperandStep (cs : Capstone) (proc : Process) (ctx : GumCpuContext)
    (info : InstructionInfo) (state : OperandState × ListWrites) (op : CsArm64Op) :
    OperandState × ListWrites :=
  (memoryStep cs proc ctx info
    { state.1 with preInfo := state.1.preInfo ++ readRegisterInfo cs ctx op } op,
    state.2.operand op)

/-- The loop over the array entries below the count. -/
def arrayResults (list : RegList) (ctx : GumCpuContext) : List (Arm64Reg × BitVec 64) :=
  (List.range list.num).filterMap fun i =>
    list.entries[i]?.bind fun reg =>
      (getRegisterValue reg ctx).map fun value => (reg, value)

/-- The list is emptied if it is in use. -/
def RegList.reset (list : RegList) : RegList := if list.num = 0 then list else list.clear

/-- `instruction_callback` over the array: what the operand loop leaves there,
and the result of the call. -/
def arrayCallback (cs : Capstone) (proc : Process) (self : InstructionTracerManager)
    (list : RegList) (ctx : GumCpuContext) (info : InstructionInfo) :
    ListWrites × Option CallbackResult :=
  let results := arrayResults list ctx
  let (operands, writes) := info.operands.foldl (arrayOperandStep cs proc ctx info)
    ({ preInfo := [], memoryAccessInfo := [], writeRegList := [], reads := [] },
      ⟨list.reset, []⟩)
  -- the manager shows the entries in use
  let self := { self with writeRegList := writes.list.used }
  (writes, (callStep proc self ctx info).map fun (next, callText) =>
    { self := next
      record :=
        { postInfo := postInfo cs results
          dumpRegInfo := dumpRegInfo cs proc results
          disasmInfo := disasmInfo self ctx info
          preInfo := operands.preInfo
          callInfo := callText
          memoryAccessInfo := operands.memoryAccessInfo }
      reads := operands.reads })

/-- A call as a step over the manager and the array. -/
def arrayStep (cs : Capstone) (state : InstructionTracerManager × RegList)
    (input : CallbackInput) :
    Option ((InstructionTracerManager × RegList) × (ListWrites × CallbackResult)) :=
  let (writes, result) := arrayCallback cs input.proc state.1 state.2 input.ctx input.info
  result.map fun result => ((result.self, writes.list), (writes, result))

/-! ## The stores of one callback -/

/-- The stores of a callback are inside the array and leave there exactly the
registers its instruction writes. -/
structure ListExact (info : InstructionInfo) (writes : ListWrites) : Prop where
  stores_lt : ∀ index ∈ writes.stores, index < 31
  used_eq : writes.list.used = writtenRegisters info
  num_eq : writes.list.num = (writtenRegisters info).length

variable {cs : Capstone} {proc : Process} {ctx : GumCpuContext} {info : InstructionInfo}
variable {self : InstructionTracerManager}

theorem writtenRegisters_length_le (info : InstructionInfo) :
    (writtenRegisters info).length ≤ 8 :=
  (List.length_filterMap_le _ _).trans info.detailCopy.arm64.opCount_le

theorem ListWrites.operand_none {writes : ListWrites} {op : CsArm64Op}
    (hwritten : writtenRegister op = none) : writes.operand op = writes := by
  unfold operand
  rw [hwritten]

theorem ListWrites.operand_some {writes : ListWrites} {op : CsArm64Op} {reg : Arm64Reg}
    (hwritten : writtenRegister op = some reg) :
    writes.operand op = ⟨writes.list.append reg, writes.stores ++ [writes.list.num]⟩ := by
  unfold operand
  rw [hwritten]

/-- With room for the registers the operands write, these are appended in order,
at the indices from the count on. -/
theorem foldl_operand (ops : List CsArm64Op) (writes : ListWrites)
    (hroom : writes.list.num + (ops.filterMap writtenRegister).length ≤ 31) :
    (ops.foldl ListWrites.operand writes).list.used =
        writes.list.used ++ ops.filterMap writtenRegister ∧
      (ops.foldl ListWrites.operand writes).list.num =
        writes.list.num + (ops.filterMap writtenRegister).length ∧
      (ops.foldl ListWrites.operand writes).stores =
        writes.stores ++ List.range' writes.list.num (ops.filterMap writtenRegister).length := by
  induction ops generalizing writes with
  | nil => simp
  | cons op rest ih =>
      rw [List.foldl_cons]
      cases hwritten : writtenRegister op with
      | none =>
          rw [List.filterMap_cons_none hwritten] at hroom ⊢
          rw [ListWrites.operand_none hwritten]
          exact ih writes hroom
      | some reg =>
          rw [List.filterMap_cons_some hwritten, List.length_cons] at hroom ⊢
          rw [ListWrites.operand_some hwritten]
          have hnext := ih ⟨writes.list.append reg, writes.stores ++ [writes.list.num]⟩
            (by rw [CountedArray.append_num]; omega)
          obtain ⟨hused, hnum, hstores⟩ := hnext
          refine ⟨?_, ?_, ?_⟩
          · rw [hused, CountedArray.used_append (by omega), List.append_assoc]
            rfl
          · rw [hnum, CountedArray.append_num]
            omega
          · rw [hstores, CountedArray.append_num, List.append_assoc, List.range'_succ]
            rfl

/-- The memory part of an iteration leaves the array alone, also where it ends
the iteration early. -/
theorem foldl_arrayOperandStep_snd (ops : List CsArm64Op) (state : OperandState)
    (writes : ListWrites) :
    (ops.foldl (arrayOperandStep cs proc ctx info) (state, writes)).2 =
      ops.foldl ListWrites.operand writes := by
  induction ops generalizing state writes with
  | nil => rfl
  | cons op rest ih => exact ih _ _

theorem RegList.reset_num (list : RegList) : list.reset.num = 0 := by
  unfold reset
  split
  next hzero => exact hzero
  next => rfl

/-- Whatever an earlier call left in the array, a call stores inside it and
leaves the registers of its own instruction. -/
theorem arrayCallback_exact (list : RegList) :
    ListExact info (arrayCallback cs proc self list ctx info).1 := by
  have hlength : (info.operands.filterMap writtenRegister).length ≤ 8 :=
    writtenRegisters_length_le info
  have hreset := list.reset_num
  have hwrites : (arrayCallback cs proc self list ctx info).1 =
      info.operands.foldl ListWrites.operand ⟨list.reset, []⟩ :=
    foldl_arrayOperandStep_snd info.operands _ _
  obtain ⟨hused, hnum, hstores⟩ :=
    foldl_operand info.operands ⟨list.reset, []⟩ (by rw [hreset]; omega)
  rw [hwrites]
  refine ⟨?_, ?_, ?_⟩
  · intro index hindex
    rw [hstores, hreset, List.nil_append, List.mem_range'_1] at hindex
    omega
  · rw [hused, CountedArray.used_of_num_eq_zero hreset]
    rfl
  · rw [hnum, hreset, Nat.zero_add]
    rfl

/-! ## The list as the entries in use -/

theorem arrayResults_eq (list : RegList) :
    arrayResults list ctx = postResults { self with writeRegList := list.used } ctx := by
  unfold arrayResults postResults
  rw [← list.filterMap_entries, List.filterMap_filterMap]

def OperandState.withoutList (state : OperandState) : OperandState :=
  { state with writeRegList := [] }

/-- The memory part neither reads nor changes the list. -/
theorem memoryStep_withoutList (state : OperandState) (op : CsArm64Op) :
    memoryStep cs proc ctx info state.withoutList op =
      (memoryStep cs proc ctx info state op).withoutList := by
  unfold memoryStep
  split
  · split
    · rfl
    · dsimp only
      split
      · rfl
      · split <;> rfl
  · rfl

theorem arrayOperandStep_withoutList (state : OperandState) (writes : ListWrites)
    (op : CsArm64Op) :
    arrayOperandStep cs proc ctx info (state.withoutList, writes) op =
      ((operandStep cs proc ctx info state op).withoutList, writes.operand op) := by
  have hmemory : (arrayOperandStep cs proc ctx info (state.withoutList, writes) op).1 =
      (operandStep cs proc ctx info state op).withoutList :=
    memoryStep_withoutList
      { state with
        preInfo := state.preInfo ++ readRegisterInfo cs ctx op
        writeRegList := state.writeRegList ++ (writtenRegister op).toList } op
  exact Prod.ext hmemory rfl

theorem foldl_arrayOperandStep_fst (ops : List CsArm64Op) (state : OperandState)
    (writes : ListWrites) :
    (ops.foldl (arrayOperandStep cs proc ctx info) (state.withoutList, writes)).1 =
      (ops.foldl (operandStep cs proc ctx info) state).withoutList := by
  induction ops generalizing state writes with
  | nil => rfl
  | cons op rest ih => rw [List.foldl_cons, List.foldl_cons, arrayOperandStep_withoutList, ih]

/-- The callback over the array has the result of the callback over the list of
the entries in use. -/
theorem arrayCallback_result (list : RegList) :
    (arrayCallback cs proc self list ctx info).2 =
      instructionCallback cs proc { self with writeRegList := list.used } ctx info := by
  have hoperands : (info.operands.foldl (arrayOperandStep cs proc ctx info)
      (⟨[], [], [], []⟩, ⟨list.reset, []⟩)).1 =
        (operandLoop cs proc ctx info).withoutList :=
    foldl_arrayOperandStep_fst info.operands ⟨[], [], [], []⟩ _
  have hlist : (info.operands.foldl (arrayOperandStep cs proc ctx info)
      (⟨[], [], [], []⟩, ⟨list.reset, []⟩)).2.list.used =
        (operandLoop cs proc ctx info).writeRegList := by
    have hexact : ListExact info (arrayCallback cs proc self list ctx info).1 :=
      arrayCallback_exact list
    rw [operandLoop_writeRegList]
    exact hexact.used_eq
  have hresults : arrayResults list ctx =
      postResults { self with writeRegList := list.used } ctx := arrayResults_eq list
  unfold arrayCallback instructionCallback
  dsimp only
  rw [hlist, hoperands, hresults]
  rfl

/-! ## Runs over the array -/

theorem arrayStep_eq_some {state next : InstructionTracerManager × RegList}
    {input : CallbackInput} {writes : ListWrites} {result : CallbackResult} :
    arrayStep cs state input = some (next, (writes, result)) ↔
      arrayCallback cs input.proc state.1 state.2 input.ctx input.info = (writes, some result) ∧
        next = (result.self, writes.list) := by
  unfold arrayStep
  obtain ⟨others, outcome⟩ :=
    arrayCallback cs input.proc state.1 state.2 input.ctx input.info
  cases outcome with
  | none => simp
  | some found =>
      simp only [Option.map_some, Option.some.injEq, Prod.mk.injEq]
      constructor
      · rintro ⟨rfl, rfl, rfl⟩
        exact ⟨⟨rfl, rfl⟩, rfl⟩
      · rintro ⟨⟨rfl, rfl⟩, rfl⟩
        exact ⟨rfl, rfl, rfl⟩

theorem arrayStep_exact {state next : InstructionTracerManager × RegList}
    {input : CallbackInput} {output : ListWrites × CallbackResult}
    (hstep : arrayStep cs state input = some (next, output)) :
    ListExact input.info output.1 := by
  obtain ⟨hcall, _⟩ := arrayStep_eq_some.mp hstep
  have hexact : ListExact input.info
      (arrayCallback cs input.proc state.1 state.2 input.ctx input.info).1 :=
    arrayCallback_exact state.2
  rwa [hcall] at hexact

/-- A run over the array is a run of callbacks over the entries in use. -/
theorem arrayRun_refines {list : RegList} {inputs : List CallbackInput}
    {last : InstructionTracerManager × RegList} {outputs : List (ListWrites × CallbackResult)}
    (hrun : runFrom (arrayStep cs) (self, list) inputs = some (last, outputs)) :
    runCallbacks cs { self with writeRegList := list.used } inputs =
      some ({ last.1 with writeRegList := last.2.used }, outputs.map Prod.snd) := by
  refine runFrom_refines
    (fun state : InstructionTracerManager × RegList =>
      { state.1 with writeRegList := state.2.used }) Prod.snd ?_ hrun
  intro state input next output hstep
  obtain ⟨writes, result⟩ := output
  obtain ⟨hcall, heq⟩ := arrayStep_eq_some.mp hstep
  have hresult : instructionCallback cs input.proc
      { state.1 with writeRegList := state.2.used } input.ctx input.info = some result := by
    rw [← arrayCallback_result, hcall]
  have hexact : ListExact input.info writes := arrayStep_exact hstep
  -- the manager already shows the entries in use
  have hself : { result.self with writeRegList := writes.list.used } = result.self := by
    rw [hexact.used_eq, instructionCallback_self hresult]
  rw [heq]
  exact callbackStep_eq_some.mpr ⟨hresult, hself⟩

/-- In every run of callbacks from the empty list, each call stores inside the
array and leaves there exactly the registers its instruction writes; so does any
further call, whether it returns or not. The run is one over lists. -/
theorem write_reg_list_exact {inputs : List CallbackInput}
    {last : InstructionTracerManager × RegList} {outputs : List (ListWrites × CallbackResult)}
    (hrun : runFrom (arrayStep cs) (self, RegList.initial) inputs = some (last, outputs)) :
    List.Forall₂ (fun input output => ListExact input.info output.1) inputs outputs ∧
      (∀ input : CallbackInput, ListExact input.info
        (arrayCallback cs input.proc last.1 last.2 input.ctx input.info).1) ∧
      runCallbacks cs { self with writeRegList := [] } inputs =
        some ({ last.1 with writeRegList := last.2.used }, outputs.map Prod.snd) := by
  refine ⟨?_, ?_, arrayRun_refines hrun⟩
  · apply runFrom_forall₂ _ _ hrun
    intro state input next output hstep
    exact arrayStep_exact hstep
  · intro input
    exact arrayCallback_exact last.2

/-- `ldp x0, x1, [x2]`, twice. -/
def pairLoadInput : CallbackInput where
  proc := .empty
  ctx := .zero
  info := ⟨.ofOperands .ldp 0x1000 "ldp".toList "x0, x1, [x2]".toList
    [.plain (.reg (.x 0)) ⟨false, true⟩, .plain (.reg (.x 1)) ⟨false, true⟩,
      .plain (.mem ⟨.x 2, .invalid, 0⟩) ⟨true, false⟩]⟩

theorem pairLoads_list_exact :
    ∃ last outputs,
      runFrom (arrayStep .standard) (.ofModule 0x1000 0x2000, RegList.initial)
        [pairLoadInput, pairLoadInput] = some (last, outputs) ∧
      outputs.map (fun output => output.1.list.used) = [[.x 0, .x 1], [.x 0, .x 1]] := by
  obtain ⟨last, outputs, hrun⟩ : ∃ last outputs, runFrom (arrayStep .standard)
      (.ofModule 0x1000 0x2000, RegList.initial) [pairLoadInput, pairLoadInput] =
        some (last, outputs) := ⟨_, _, rfl⟩
  refine ⟨last, outputs, hrun, ?_⟩
  cases (write_reg_list_exact hrun).1 with
  | cons hfirst hrest =>
      cases hrest with
      | cons hsecond hnone =>
          cases hnone
          rw [List.map_cons, List.map_singleton, hfirst.used_eq, hsecond.used_eq]
          rfl

end GumTVM
