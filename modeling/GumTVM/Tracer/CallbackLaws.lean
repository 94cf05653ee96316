import GumTVM.Tracer.Callback
import GumTVM.Foundation.Machine

/-!
# Laws of the instruction callback

What one callback does to the manager, and the run of a list of callbacks. Only
the list of written registers and the PLT flag change, and the list afterwards
depends on the instruction alone.
-/

namespace GumTVM

open Foundation

variable {cs : Capstone} {proc : Process} {ctx : GumCpuContext} {info : InstructionInfo}
variable {self : InstructionTracerManager}

/-- The register operands an instruction writes, in operand order. -/
def writtenRegisters (info : InstructionInfo) : List Arm64Reg :=
  info.operands.filterMap writtenRegister

@[simp] theorem memoryStep_writeRegList (state : OperandState) (op : CsArm64Op) :
    (memoryStep cs proc ctx info state op).writeRegList = state.writeRegList := by
  unfold memoryStep
  split
  · split
    · rfl
    · dsimp only
      split
      · rfl
      · split <;> rfl
  · rfl

theorem foldl_operandStep_writeRegList (ops : List CsArm64Op) (state : OperandState) :
    (ops.foldl (operandStep cs proc ctx info) state).writeRegList =
      state.writeRegList ++ ops.filterMap writtenRegister := by
  induction ops generalizing state with
  | nil => simp
  | cons op rest ih =>
      rw [List.foldl_cons, ih, operandStep, memoryStep_writeRegList]
      cases hwritten : writtenRegister op with
      | none => simp [hwritten]
      | some reg => simp [hwritten]

/-- After the operand loop the list holds exactly this instruction's written
registers, whatever happened to its memory operands. -/
theorem operandLoop_writeRegList :
    (operandLoop cs proc ctx info).writeRegList = writtenRegisters info := by
  rw [operandLoop, foldl_operandStep_writeRegList]
  rfl

/-- The branch part changes nothing but the PLT flag. -/
theorem callStep_frame {next : InstructionTracerManager} {text : Text}
    (hstep : callStep proc self ctx info = some (next, text)) :
    next = { self with isPltJmp := next.isPltJmp } := by
  have hjmp : (jmpAddr self ctx info).1 =
      { self with isPltJmp := (jmpAddr self ctx info).1.isPltJmp } := by
    unfold jmpAddr
    split
    · rfl
    · rfl
    · split <;> rfl
    · rfl
  unfold callStep at hstep
  dsimp only at hstep
  split at hstep
  · obtain ⟨rfl, -⟩ := Prod.mk.inj (Option.some.inj hstep)
    exact hjmp
  · split at hstep
    · obtain ⟨rfl, -⟩ := Prod.mk.inj (Option.some.inj hstep)
      rw [hjmp]
    · obtain ⟨_, _, heq⟩ := Option.map_eq_some_iff.mp hstep
      obtain ⟨rfl, -⟩ := Prod.mk.inj heq
      exact hjmp

theorem instructionCallback_eq_some {result : CallbackResult} :
    instructionCallback cs proc self ctx info = some result ↔
      ∃ next callText,
        callStep proc { self with writeRegList := writtenRegisters info } ctx info =
          some (next, callText) ∧
        result =
          { self := next
            record :=
              { postInfo := postInfo cs (postResults self ctx)
                dumpRegInfo := dumpRegInfo cs proc (postResults self ctx)
                disasmInfo := disasmInfo self ctx info
                preInfo := (operandLoop cs proc ctx info).preInfo
                callInfo := callText
                memoryAccessInfo := (operandLoop cs proc ctx info).memoryAccessInfo }
            reads := (operandLoop cs proc ctx info).reads } := by
  unfold instructionCallback
  dsimp only
  rw [operandLoop_writeRegList, Option.map_eq_some_iff]
  constructor
  · intro hsome
    obtain ⟨⟨next, callText⟩, hstep, rfl⟩ := hsome
    exact ⟨next, callText, hstep, rfl⟩
  · intro hsome
    obtain ⟨next, callText, hstep, rfl⟩ := hsome
    exact ⟨(next, callText), hstep, rfl⟩

/-- One callback replaces the written registers and may change the PLT flag. -/
theorem instructionCallback_self {result : CallbackResult}
    (hcall : instructionCallback cs proc self ctx info = some result) :
    result.self = { self with
      writeRegList := writtenRegisters info, isPltJmp := result.self.isPltJmp } := by
  obtain ⟨next, _, hstep, rfl⟩ := instructionCallback_eq_some.mp hcall
  exact callStep_frame hstep

theorem instructionCallback_postInfo {result : CallbackResult}
    (hcall : instructionCallback cs proc self ctx info = some result) :
    result.record.postInfo = postInfo cs (postResults self ctx) := by
  obtain ⟨_, _, _, rfl⟩ := instructionCallback_eq_some.mp hcall
  rfl

theorem instructionCallback_dumpRegInfo {result : CallbackResult}
    (hcall : instructionCallback cs proc self ctx info = some result) :
    result.record.dumpRegInfo = dumpRegInfo cs proc (postResults self ctx) := by
  obtain ⟨_, _, _, rfl⟩ := instructionCallback_eq_some.mp hcall
  rfl

theorem postInfo_eq_nil_iff {results : List (Arm64Reg × BitVec 64)} :
    postInfo cs results = [] ↔ results = [] := by
  cases results with
  | nil => simp [postInfo]
  | cons head tail => simp [postInfo]

/-! ## Runs of callbacks -/

/-- One execution of the callback: the context it is given, the instruction it
was placed for, and the process at that moment. -/
structure CallbackInput where
  proc : Process
  ctx : GumCpuContext
  info : InstructionInfo

def callbackStep (cs : Capstone) (self : InstructionTracerManager) (input : CallbackInput) :
    Option (InstructionTracerManager × CallbackResult) :=
  (instructionCallback cs input.proc self input.ctx input.info).map fun result =>
    (result.self, result)

/-- Callbacks one after the other, with the results of each. -/
abbrev runCallbacks (cs : Capstone) := runFrom (callbackStep cs)

theorem callbackStep_eq_some {input : CallbackInput} {next : InstructionTracerManager}
    {result : CallbackResult} :
    callbackStep cs self input = some (next, result) ↔
      instructionCallback cs input.proc self input.ctx input.info = some result ∧
        next = result.self := by
  unfold callbackStep
  rw [Option.map_eq_some_iff]
  constructor
  · intro hsome
    obtain ⟨_, hcall, heq⟩ := hsome
    obtain ⟨rfl, rfl⟩ := Prod.mk.inj heq
    exact ⟨hcall, rfl⟩
  · intro hsome
    obtain ⟨hcall, rfl⟩ := hsome
    exact ⟨result, hcall, rfl⟩

/-! ## Two callbacks in a row -/

/-- The registers written by an instruction that can be read, with their values
in a context. -/
def reportedResults (info : InstructionInfo) (ctx : GumCpuContext) :
    List (Arm64Reg × BitVec 64) :=
  (writtenRegisters info).filterMap fun reg =>
    (getRegisterValue reg ctx).map fun value => (reg, value)

theorem postResults_after {result : CallbackResult}
    (hcall : instructionCallback cs proc self ctx info = some result) (next : GumCpuContext) :
    postResults result.self next = reportedResults info next := by
  rw [instructionCallback_self hcall]
  rfl

/-- The results printed by a callback are those of the instruction the callback
before it ran for, read in the later context. -/
theorem runCallbacks_consecutive {inputs later : List CallbackInput}
    {first second : CallbackInput} {last : InstructionTracerManager}
    {results : List CallbackResult}
    (hrun : runCallbacks cs self (inputs ++ first :: second :: later) = some (last, results)) :
    ∃ early firstResult secondResult late,
      results = early ++ firstResult :: secondResult :: late ∧ early.length = inputs.length ∧
        secondResult.record.postInfo = postInfo cs (reportedResults first.info second.ctx) := by
  obtain ⟨middle, early, rest, hearly, hrest, rfl⟩ := runFrom_append_eq_some.mp hrun
  obtain ⟨next, firstResult, tail, hfirst, htail, rfl⟩ := runFrom_cons_eq_some.mp hrest
  obtain ⟨_, secondResult, late, hsecond, _, rfl⟩ := runFrom_cons_eq_some.mp htail
  obtain ⟨hfirstCall, rfl⟩ := callbackStep_eq_some.mp hfirst
  obtain ⟨hsecondCall, rfl⟩ := callbackStep_eq_some.mp hsecond
  refine ⟨early, firstResult, secondResult, late, rfl, runFrom_length hearly, ?_⟩
  rw [instructionCallback_postInfo hsecondCall, postResults_after hfirstCall]

end GumTVM
