import GumTVM.Tracer.CallbackLaws
import GumTVM.Tracer.Transform
import Mathlib.Data.List.Chain

/-!
# Reported results over a whole run

The result of a traced instruction is printed by the callback of the next traced
one. Between the two the thread may execute any number of instructions without a
callout: the values printed are those of the state just before the later
instruction, not those of the state the earlier one left behind.
-/

namespace GumTVM

open Foundation

/-- One executed instruction with the states around it. -/
structure ThreadStep where
  info : InstructionInfo
  before : GumCpuContext
  after : GumCpuContext
  proc : Process

def ThreadStep.callback (step : ThreadStep) : CallbackInput := ⟨step.proc, step.before, step.info⟩

/-- Every instruction starts in the state the one before it left behind. -/
def Consecutive (run : List ThreadStep) : Prop :=
  run.IsChain fun step next => step.after = next.before

/-- The callbacks of a run when the instructions satisfying `traced` carry a
callout. -/
def callbacksOf (traced : CsInsn → Bool) (run : List ThreadStep) : List CallbackInput :=
  (run.filter fun step => traced step.info.insnCopy).map ThreadStep.callback

variable {cs : Capstone} {traced : CsInsn → Bool}

theorem callbacksOf_append (first second : List ThreadStep) :
    callbacksOf traced (first ++ second) =
      callbacksOf traced first ++ callbacksOf traced second := by
  simp [callbacksOf]

theorem callbacksOf_cons_of_traced {step : ThreadStep} (run : List ThreadStep)
    (hstep : traced step.info.insnCopy = true) :
    callbacksOf traced (step :: run) = step.callback :: callbacksOf traced run := by
  simp [callbacksOf, hstep]

theorem callbacksOf_eq_nil {run : List ThreadStep}
    (hrun : ∀ step ∈ run, traced step.info.insnCopy = false) : callbacksOf traced run = [] := by
  simpa [callbacksOf] using hrun

/-- What no step of a stretch changes has at its end the value it had before. -/
theorem Consecutive.constant {α : Type*} {observe : GumCpuContext → α} {first last : ThreadStep}
    {middle : List ThreadStep} (hrun : Consecutive (first :: (middle ++ [last])))
    (hconstant : ∀ step ∈ middle, observe step.after = observe step.before) :
    observe last.before = observe first.after := by
  induction middle generalizing first with
  | nil => rw [(List.isChain_cons_cons.mp hrun).1]
  | cons step rest ih =>
      obtain ⟨hnext, hrest⟩ := List.isChain_cons_cons.mp hrun
      rw [ih hrest (fun other hother => hconstant other (List.mem_cons_of_mem _ hother)),
        hconstant step List.mem_cons_self, hnext]

/-! ## Reported registers and values -/

theorem reportedResults_registers (info : InstructionInfo) (ctx : GumCpuContext) :
    (reportedResults info ctx).map Prod.fst = (writtenRegisters info).filter isGeneralPurpose := by
  unfold reportedResults
  induction writtenRegisters info with
  | nil => rfl
  | cons reg rest ih =>
      cases hvalue : getRegisterValue reg ctx with
      | none =>
          have hreg := getRegisterValue_eq_none_iff.mp hvalue
          simp [hvalue, hreg, ih]
      | some value =>
          have hreg : isGeneralPurpose reg = true := by
            rw [← getRegisterValue_isSome reg ctx, hvalue, Option.isSome_some]
          simp [hvalue, hreg, ih]

theorem mem_reportedResults_iff {info : InstructionInfo} {ctx : GumCpuContext} {reg : Arm64Reg}
    {value : BitVec 64} :
    (reg, value) ∈ reportedResults info ctx ↔
      reg ∈ writtenRegisters info ∧ getRegisterValue reg ctx = some value := by
  simp only [reportedResults, List.mem_filterMap, Option.map_eq_some_iff, Prod.mk.injEq]
  constructor
  · intro hfound
    obtain ⟨found, hfound, _, hvalue, rfl, rfl⟩ := hfound
    exact ⟨hfound, hvalue⟩
  · intro hvalue
    obtain ⟨hreg, hvalue⟩ := hvalue
    exact ⟨reg, hreg, value, hvalue, rfl, rfl⟩

/-- For two consecutively traced instructions, the record of the later lists the
supported written registers of the earlier in operand order. Each value is the
one just before the later instruction, hence the one the earlier left behind if
nothing between them changes the register. -/
theorem results_of_consecutive {self last : InstructionTracerManager}
    {before middle after : List ThreadStep} {first second : ThreadStep}
    {results : List CallbackResult}
    (hthread : Consecutive (before ++ first :: (middle ++ second :: after)))
    (hfirst : traced first.info.insnCopy = true) (hsecond : traced second.info.insnCopy = true)
    (hmiddle : ∀ step ∈ middle, traced step.info.insnCopy = false)
    (hrun : runCallbacks cs self
      (callbacksOf traced (before ++ first :: (middle ++ second :: after))) =
        some (last, results)) :
    ∃ early firstResult secondResult late,
      results = early ++ firstResult :: secondResult :: late ∧
      early.length = (callbacksOf traced before).length ∧
      ∃ reported : List (Arm64Reg × BitVec 64),
        secondResult.record.postInfo = postInfo cs reported ∧
        reported.map Prod.fst = (writtenRegisters first.info).filter isGeneralPurpose ∧
        ∀ reg value, (reg, value) ∈ reported → reg ≠ .wsp →
          archValue reg second.before = some value ∧
            ((∀ step ∈ middle, archValue reg step.after = archValue reg step.before) →
              archValue reg first.after = some value) := by
  rw [callbacksOf_append, callbacksOf_cons_of_traced _ hfirst, callbacksOf_append,
    callbacksOf_eq_nil hmiddle, List.nil_append, callbacksOf_cons_of_traced _ hsecond] at hrun
  obtain ⟨early, firstResult, secondResult, late, hresults, hlength, hpost⟩ :=
    runCallbacks_consecutive hrun
  refine ⟨early, firstResult, secondResult, late, hresults, hlength,
    reportedResults first.info second.before, hpost, reportedResults_registers _ _, ?_⟩
  intro reg value hreported hwsp
  obtain ⟨_, hvalue⟩ := mem_reportedResults_iff.mp hreported
  rw [getRegisterValue_eq_archValue hwsp] at hvalue
  refine ⟨hvalue, ?_⟩
  intro hconstant
  have hstretch : Consecutive (first :: (middle ++ [second])) := by
    have hinfix : first :: (middle ++ [second]) <:+:
        before ++ first :: (middle ++ second :: after) := ⟨before, after, by simp⟩
    exact List.IsChain.infix hthread hinfix
  rw [← hstretch.constant hconstant, hvalue]

/-! ## A skipped load in between -/

/-- The written registers with the values a state gives them. -/
def resultsLeft (info : InstructionInfo) (ctx : GumCpuContext) : List (Arm64Reg × BitVec 64) :=
  (writtenRegisters info).filterMap fun reg => (archValue reg ctx).map fun value => (reg, value)

/-- The state before the instruction at `pc` with a value in `X0`. -/
def stateAt (pc x0 : BitVec 64) : GumCpuContext :=
  { GumCpuContext.zero with pc := pc, x := fun n => if n = 0 then x0 else 0 }

/-- `mov x0, #1` -/
def moveStep : ThreadStep where
  info := ⟨.ofOperands (.other 0) 0x1000 "mov".toList "x0, #1".toList
    [.plain (.reg (.x 0)) ⟨false, true⟩, .plain (.imm 1) ⟨true, false⟩]⟩
  before := stateAt 0x1000 0
  after := stateAt 0x1004 1
  proc := .empty

/-- `ldxr x0, [x1]` of a word that holds 5 -/
def loadExclusiveStep : ThreadStep where
  info := ⟨.ofOperands .ldxr 0x1004 "ldxr".toList "x0, [x1]".toList
    [.plain (.reg (.x 0)) ⟨false, true⟩, .plain (.mem ⟨.x 1, .invalid, 0⟩) ⟨true, false⟩]⟩
  before := stateAt 0x1004 1
  after := stateAt 0x1008 5
  proc := .empty

/-- `nop` in a given state -/
def nopStep (ctx : GumCpuContext) : ThreadStep where
  info := ⟨.ofOperands (.other 1) ctx.pc "nop".toList [] []⟩
  before := ctx
  after := { ctx with pc := ctx.pc + 4 }
  proc := .empty

theorem results_of_move :
    ∃ last firstResult secondResult,
      runCallbacks .standard (.ofModule 0x1000 0x2000)
        (callbacksOf (InstructionTracerManager.ofModule 0x1000 0x2000).selects
          [moveStep, nopStep (stateAt 0x1004 1)]) = some (last, [firstResult, secondResult]) ∧
      ∃ early firstResult' secondResult' late,
        [firstResult, secondResult] = early ++ firstResult' :: secondResult' :: late ∧
        early.length = 0 ∧ ∃ reported : List (Arm64Reg × BitVec 64),
          secondResult'.record.postInfo = postInfo .standard reported ∧
          reported.map Prod.fst = [.x 0] ∧ ∀ reg value, (reg, value) ∈ reported → reg ≠ .wsp →
            archValue reg (stateAt 0x1004 1) = some value := by
  have hthread : Consecutive ([] ++ moveStep :: ([] ++ nopStep (stateAt 0x1004 1) :: [])) :=
    List.isChain_pair.mpr rfl
  obtain ⟨last, firstResult, secondResult, hrun⟩ : ∃ last firstResult secondResult,
      runCallbacks .standard (.ofModule 0x1000 0x2000)
        (callbacksOf (InstructionTracerManager.ofModule 0x1000 0x2000).selects
          [moveStep, nopStep (stateAt 0x1004 1)]) = some (last, [firstResult, secondResult]) :=
    ⟨_, _, _, rfl⟩
  obtain ⟨early, firstResult', secondResult', late, hresults, hlength, reported, hpost,
    hregisters, hvalues⟩ := results_of_consecutive hthread rfl rfl (by simp) hrun
  exact ⟨last, firstResult, secondResult, hrun, early, firstResult', secondResult', late, hresults,
    hlength, reported, hpost, hregisters,
    fun reg value hmem hwsp => (hvalues reg value hmem hwsp).1⟩

/-- The value attributed to the move is the one the skipped load read. -/
theorem results_of_move_overwritten :
    Consecutive [moveStep, loadExclusiveStep, nopStep (stateAt 0x1008 5)] ∧
      ∃ last firstResult secondResult,
        runCallbacks .standard (.ofModule 0x1000 0x2000)
          (callbacksOf (InstructionTracerManager.ofModule 0x1000 0x2000).selects
            [moveStep, loadExclusiveStep, nopStep (stateAt 0x1008 5)]) =
              some (last, [firstResult, secondResult]) ∧
        secondResult.record.postInfo ≠
          postInfo .standard (resultsLeft moveStep.info moveStep.after) := by
  refine ⟨?_, _, _, _, rfl, ?_⟩
  · exact List.isChain_cons_cons.mpr ⟨rfl, List.isChain_pair.mpr rfl⟩
  · decide

end GumTVM
