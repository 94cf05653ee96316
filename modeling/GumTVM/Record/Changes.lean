import GumTVM.Record.Results

/-!
# Completeness of the reported changes

An instruction changes the registers it names as written operands, the base of a
memory operand with writeback, and registers it writes implicitly. Only the
first kind reaches the list that the next record prints.
-/

namespace GumTVM

open Foundation

/-- `X0` to `X30` and `SP`. -/
inductive Gpr where
  | x (n : Fin 31)
  | sp
deriving DecidableEq

def Gpr.value (ctx : GumCpuContext) : Gpr → BitVec 64
  | .x n => ctx.xAt n.val
  | .sp => ctx.sp

/-- The register an `X` or `W` name stands for. -/
def gprOf : Arm64Reg → Option Gpr
  | .x n => some (.x (n.castLE (by decide)))
  | .w n => some (.x n)
  | .fp => some (.x 29)
  | .lr => some (.x 30)
  | .sp | .wsp => some .sp
  | _ => none

/-- A list of registers names `gpr` in one of its forms. -/
def Names (regs : List Arm64Reg) (gpr : Gpr) : Prop := ∃ reg ∈ regs, gprOf reg = some gpr

/-- The registers written without being a written register operand: the base of
a memory operand with writeback, and implicitly written registers. -/
def sideWrites (info : InstructionInfo) : List Arm64Reg :=
  (if info.detailCopy.arm64.writeback then
    info.operands.filterMap fun op =>
      match op.value with
      | .mem mem => some mem.base
      | _ => none
  else []) ++ info.detailCopy.regsWrite

/-- The effect of an instruction leaves alone every register it does not write. -/
def ArchEffect (info : InstructionInfo) (before after : GumCpuContext) : Prop :=
  ∀ gpr, ¬ Names (writtenRegisters info ++ sideWrites info) gpr →
    gpr.value after = gpr.value before

variable {cs : Capstone}

theorem isGeneralPurpose_of_gprOf {reg : Arm64Reg} {gpr : Gpr} (hreg : gprOf reg = some gpr) :
    isGeneralPurpose reg = true := by
  cases reg <;> first | rfl | cases hreg

/-- The registers on the line are the written operands. -/
theorem names_reported_iff {info : InstructionInfo} {ctx : GumCpuContext} {gpr : Gpr} :
    Names ((reportedResults info ctx).map Prod.fst) gpr ↔ Names (writtenRegisters info) gpr := by
  rw [reportedResults_registers]
  constructor
  · intro hnamed
    obtain ⟨reg, hreg, hgpr⟩ := hnamed
    exact ⟨reg, List.mem_of_mem_filter hreg, hgpr⟩
  · intro hnamed
    obtain ⟨reg, hreg, hgpr⟩ := hnamed
    exact ⟨reg, List.mem_filter.mpr ⟨hreg, isGeneralPurpose_of_gprOf hgpr⟩, hgpr⟩

/-- The line of the second record lists `reported`, and every register that
differs between the two states is named on it. -/
structure ReportsChanges (cs : Capstone) (reported : List (Arm64Reg × BitVec 64))
    (record : TraceRecord) (before after : GumCpuContext) : Prop where
  line : record.postInfo = postInfo cs reported
  complete : ∀ gpr, gpr.value after ≠ gpr.value before → Names (reported.map Prod.fst) gpr

/-- Two instructions executed one right after the other report every change
exactly when no register is changed by writeback or implicitly alone. -/
theorem reports_changes_iff {self last : InstructionTracerManager}
    {inputs later : List CallbackInput} {first second : CallbackInput}
    {results : List CallbackResult} (heffect : ArchEffect first.info first.ctx second.ctx)
    (hrun : runCallbacks cs self (inputs ++ first :: second :: later) = some (last, results)) :
    ∃ early firstResult secondResult late,
      results = early ++ firstResult :: secondResult :: late ∧ early.length = inputs.length ∧
        (ReportsChanges cs (reportedResults first.info second.ctx) secondResult.record
            first.ctx second.ctx ↔
          ∀ gpr, Names (sideWrites first.info) gpr → ¬ Names (writtenRegisters first.info) gpr →
            gpr.value second.ctx = gpr.value first.ctx) := by
  obtain ⟨early, firstResult, secondResult, late, hresults, hlength, hpost⟩ :=
    runCallbacks_consecutive hrun
  refine ⟨early, firstResult, secondResult, late, hresults, hlength, ?_⟩
  constructor
  · intro hreports gpr _ hwritten
    by_contra hchanged
    exact hwritten (names_reported_iff.mp (hreports.complete gpr hchanged))
  · intro hsilent
    refine ⟨hpost, ?_⟩
    intro gpr hchanged
    rw [names_reported_iff]
    by_contra hwritten
    have hside : ¬ Names (sideWrites first.info) gpr :=
      fun hside => hchanged (hsilent gpr hside hwritten)
    refine hchanged (heffect gpr ?_)
    intro hnamed
    obtain ⟨reg, hreg, hgpr⟩ := hnamed
    rcases List.mem_append.mp hreg with hreg | hreg
    · exact hwritten ⟨reg, hreg, hgpr⟩
    · exact hside ⟨reg, hreg, hgpr⟩

theorem moveStep_effect : ArchEffect moveStep.info moveStep.before moveStep.after := by
  unfold ArchEffect Names
  intro gpr
  cases gpr with
  | sp => exact fun _ => rfl
  | x n =>
      revert n
      decide

theorem moveStep_changes_reported :
    ∃ last firstResult secondResult,
      runCallbacks .standard (.ofModule 0x1000 0x2000)
        [moveStep.callback, (nopStep (stateAt 0x1004 1)).callback] =
          some (last, [firstResult, secondResult]) ∧
      ReportsChanges .standard (reportedResults moveStep.info (stateAt 0x1004 1))
        secondResult.record moveStep.before (stateAt 0x1004 1) := by
  obtain ⟨last, firstResult, secondResult, hrun⟩ : ∃ last firstResult secondResult,
      runCallbacks .standard (.ofModule 0x1000 0x2000)
        ([] ++ moveStep.callback :: (nopStep (stateAt 0x1004 1)).callback :: []) =
          some (last, [firstResult, secondResult]) := ⟨_, _, _, rfl⟩
  refine ⟨last, firstResult, secondResult, hrun, ?_⟩
  obtain ⟨early, firstResult', secondResult', late, hresults, hlength, hiff⟩ :=
    reports_changes_iff moveStep_effect hrun
  obtain rfl := List.length_eq_zero_iff.mp hlength
  obtain ⟨rfl, htail⟩ := List.cons.inj hresults
  obtain ⟨rfl, _⟩ := List.cons.inj htail
  apply hiff.mpr
  rintro gpr ⟨reg, hreg, _⟩
  cases hreg

/-- `ldr x0, [x1, #8]!` -/
def preIndexedLoad : InstructionInfo :=
  ⟨{ id := .ldr
     address := 0x1000
     mnemonic := "ldr".toList
     opStr := "x0, [x1, #8]!".toList
     detail :=
      { regsWrite := []
        groups := []
        arm64 := ⟨[.plain (.reg (.x 0)) ⟨false, true⟩,
          .plain (.mem ⟨.x 1, .invalid, 8⟩) ⟨true, false⟩], by decide, true⟩ } }⟩

/-- A state with values in `X0` and `X1`. -/
def loadState (pc x0 x1 : BitVec 64) : GumCpuContext :=
  { GumCpuContext.zero with pc := pc, x := fun n => if n = 0 then x0 else if n = 1 then x1 else 0 }

/-- The updated base register of the load is not on the line. -/
theorem preIndexedLoad_base_missing :
    ArchEffect preIndexedLoad (loadState 0x1000 0 0x5000) (loadState 0x1004 7 0x5008) ∧
      ∃ last firstResult secondResult,
        runCallbacks .standard (.ofModule 0x1000 0x2000)
          [⟨.empty, loadState 0x1000 0 0x5000, preIndexedLoad⟩,
            (nopStep (loadState 0x1004 7 0x5008)).callback] =
              some (last, [firstResult, secondResult]) ∧
        ¬ ReportsChanges .standard
          (reportedResults preIndexedLoad (loadState 0x1004 7 0x5008)) secondResult.record
          (loadState 0x1000 0 0x5000) (loadState 0x1004 7 0x5008) := by
  refine ⟨?_, _, _, _, rfl, ?_⟩
  · unfold ArchEffect Names
    intro gpr
    cases gpr with
    | sp => exact fun _ => rfl
    | x n =>
        revert n
        decide
  · intro hreports
    obtain ⟨reg, hreg, hgpr⟩ := hreports.complete (.x 1) (by decide)
    obtain rfl := List.mem_singleton.mp hreg
    exact absurd hgpr (by decide)

end GumTVM
