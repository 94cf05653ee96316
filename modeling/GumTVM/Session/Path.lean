import GumTVM.Record.Location
import GumTVM.Session.Init
import GumTVM.Session.TraceFile

/-!
# The path of the traced thread

The range of the main module stays what `gum_trace` found and ranges of other
modules are only added, so the lines of a trace can all be read with one base:
the program counters of a whole session are recovered from its trace file.
-/

namespace GumTVM

open Foundation

variable {cs : Capstone}

/-! ## Ranges during a session -/

theorem otherRanges_subset_registerOtherModules (self : InstructionTracerManager)
    (find : Text → Option GumMemoryRange) :
    self.otherRanges ⊆ (self.registerOtherModules find).otherRanges := by
  intro range hrange
  obtain ⟨name, hname⟩ := InstructionTracerManager.mem_otherRanges.mp hrange
  refine InstructionTracerManager.mem_otherRanges.mpr ⟨name, ?_⟩
  rw [InstructionTracerManager.registerOtherModules_range]
  unfold InstructionTracerManager.rangeInForce
  rw [hname, Option.some_or]

/-- The main module is the same, and no other module is forgotten. -/
structure RangesGrow (manager next : InstructionTracerManager) : Prop where
  moduleRange : next.moduleRange = manager.moduleRange
  otherRanges : manager.otherRanges ⊆ next.otherRanges

theorem HookFrame.rangesGrow {world next : World} (hframe : HookFrame world next) :
    RangesGrow world.manager next.manager := by
  refine ⟨hframe.moduleRange, ?_⟩
  unfold InstructionTracerManager.otherRanges
  rw [hframe.otherModulesRange]
  exact List.Subset.refl _

theorem transformCallback_rangesGrow (self : InstructionTracerManager)
    (find : Text → Option GumMemoryRange) (block : List CsInsn) :
    RangesGrow self (transformCallback self find block).1 := by
  refine ⟨?_, otherRanges_subset_registerOtherModules self find⟩
  simp only [transformCallback]
  rw [InstructionTracerManager.registerOtherModules_frame]

theorem step_rangesGrow {system next : System} {event : Event} {report : Report}
    (hcall : ∀ call, event ≠ .gumTrace call)
    (hstep : system.step cs event = some (next, report)) :
    RangesGrow system.world.manager next.world.manager := by
  cases event with
  | gumTrace call => exact absurd rfl (hcall call)
  | enter tid target x0 x1 x2 => exact (step_hookFrame (by trivial) hstep).rangesGrow
  | leave tid => exact (step_hookFrame (by trivial) hstep).rangesGrow
  | transform find block =>
      obtain ⟨rfl, rfl⟩ := Prod.mk.inj (Option.some.inj hstep)
      exact transformCallback_rangesGrow _ find block
  | callback tid input =>
      obtain ⟨_, result, _, _, hresult, rfl, _⟩ := step_callback_eq_some hstep
      dsimp only
      rw [instructionCallback_self hresult]
      exact ⟨rfl, List.Subset.refl _⟩

/-- After a successful call the main module is the one that was found. -/
theorem start_moduleRange (files : Files) {call : GumTraceCall} (hcall : call.Succeeds)
    {range : GumMemoryRange} (hrange : call.host.findModuleByName call.moduleName = some range) :
    (System.start files call).world.manager.moduleRange = range.moduleRange := by
  obtain ⟨⟨found, hfound, hoffset⟩, -, -⟩ := hcall
  obtain rfl : found = range := Option.some.inj (hfound.symm.trans hrange)
  have hinit : (World.initial files).manager.init call.host call.moduleName call.offset = _ :=
    init_accepted hrange hoffset
  simp only [System.start, gumTrace, hinit]
  rfl

/-! ## Locations of records -/

/-- A callout prints where its instruction is. -/
theorem recordStep_location {system next : System} {tid : Nat} {input : CallbackInput}
    {output : Report × Option RecordSummary}
    (hstep : system.recordStep cs (.callback tid input) = some (next, output)) :
    ∃ record, output.2 = some record ∧
      readLocation record.instruction = some (system.world.manager.locate input.ctx.pc) := by
  obtain ⟨hsystem, hrecord⟩ := recordStep_eq_some.mp hstep
  obtain ⟨_, result, _, _, hresult, _⟩ := step_callback_eq_some hsystem
  refine ⟨result.record.summary cs input.proc (postResults system.world.manager input.ctx),
    hrecord.trans (system.recorded_callback hresult), ?_⟩
  obtain ⟨_, _, _, rfl⟩ := instructionCallback_eq_some.mp hresult
  unfold TraceRecord.summary TraceRecord.instructionLine
  dsimp only
  rw [List.append_assoc]
  exact readLocation_disasmInfo _ _ _ _

/-- The program counter that a record shows, for a base of the main module. -/
def RecordSummary.pc (base : BitVec 64) (record : RecordSummary) : Option (BitVec 64) :=
  (readLocation record.instruction).map (Location.pc base)

def Event.input : Event → Option CallbackInput
  | .callback _ input => some input
  | _ => none

theorem calloutInputs_eq (events : List Event) :
    calloutInputs events = events.filterMap Event.input := rfl

/-- A step records the program counter of its callout, if it is one. -/
theorem recordStep_pc {system next : System} {event : Event}
    {output : Report × Option RecordSummary} (hcall : ∀ call, event ≠ .gumTrace call)
    (hstep : system.recordStep cs event = some (next, output)) :
    event.input.map (fun input => some input.ctx.pc) =
      output.2.map (RecordSummary.pc system.world.manager.moduleRange.base) := by
  by_cases hcallout : ∃ tid input, event = .callback tid input
  · obtain ⟨tid, input, rfl⟩ := hcallout
    obtain ⟨record, hrecord, hlocation⟩ := recordStep_location hstep
    rw [hrecord, Option.map_some]
    unfold RecordSummary.pc
    rw [hlocation, Option.map_some, locate_pc]
    rfl
  · have hother : ∀ tid input, event ≠ .callback tid input :=
      fun tid input heq => hcallout ⟨tid, input, heq⟩
    obtain ⟨hsystem, hrecord⟩ := recordStep_eq_some.mp hstep
    obtain ⟨-, -, hnone⟩ := step_unrecorded hother hcall hsystem
    rw [hrecord, hnone]
    cases event with
    | callback tid input => exact absurd rfl (hother tid input)
    | gumTrace call | enter tid target x0 x1 x2 | leave tid | transform find block => rfl

theorem records_pc {base : BitVec 64} {system last : System} {events : List Event}
    {outputs : List (Report × Option RecordSummary)}
    (honce : ∀ event ∈ events, ∀ call, event ≠ .gumTrace call)
    (hbase : system.world.manager.moduleRange.base = base)
    (hrun : runFrom (System.recordStep cs) system events = some (last, outputs)) :
    (records outputs).map (RecordSummary.pc base) =
      (calloutInputs events).map fun input => some input.ctx.pc := by
  induction events generalizing system outputs with
  | nil =>
      obtain ⟨-, rfl⟩ := Prod.mk.inj (Option.some.inj hrun)
      rfl
  | cons event rest ih =>
      obtain ⟨next, output, later, hstep, hrest, rfl⟩ := runFrom_cons_eq_some.mp hrun
      have hcall := honce event List.mem_cons_self
      have hgrow := step_rangesGrow hcall (recordStep_eq_some.mp hstep).1
      have hlater := ih (fun other hother => honce other (List.mem_cons_of_mem _ hother))
        (hgrow.moduleRange ▸ hbase) hrest
      have hhere := recordStep_pc hcall hstep
      rw [hbase] at hhere
      rw [calloutInputs_eq] at hlater ⊢
      unfold records at hlater ⊢
      rw [List.filterMap_cons, List.filterMap_cons]
      cases hinput : event.input with
      | none =>
          rw [hinput, Option.map_none] at hhere
          rw [Option.map_eq_none_iff.mp hhere.symm]
          exact hlater
      | some input =>
          rw [hinput, Option.map_some] at hhere
          obtain ⟨record, hrecord, hpc⟩ := Option.map_eq_some_iff.mp hhere.symm
          rw [hrecord]
          dsimp only
          rw [List.map_cons, List.map_cons, hpc, hlater]

/-- Whatever the threads do, the trace file and the base of the main module tell
the program counters of all callouts of the session in order. -/
theorem session_path (hnames : cs.WordNames) (files : Files) {call : GumTraceCall}
    (hcall : call.Succeeds) {range : GumMemoryRange}
    (hrange : call.host.findModuleByName call.moduleName = some range) {events : List Event}
    (honce : ∀ event ∈ events, ∀ call, event ≠ .gumTrace call)
    (hclean : ∀ tid input, Event.callback tid input ∈ events → input.Clean) {last : System}
    {outputs : List (Report × Option RecordSummary)}
    (hrun : runFrom (System.recordStep cs) (System.start files call) events =
      some (last, outputs)) :
    (decodeTrace (last.world.files call.traceFile)).map (RecordSummary.pc range.baseAddress) =
      (calloutInputs events).map fun input => some input.ctx.pc := by
  have hinv := TraceInvariant.of_run hnames files hcall honce hclean hrun
  rw [hinv.file.decodeTrace.1]
  refine records_pc honce ?_ hrun
  rw [start_moduleRange files hcall hrange]
  rfl

theorem session_path_recorded :
    ∃ last outputs,
      runFrom (System.recordStep .standard) (System.start (fun _ => []) sampleCall)
        recordedSession = some (last, outputs) ∧
      (decodeTrace (last.world.files sampleCall.traceFile)).map (RecordSummary.pc 0x1000) =
        [some moveStep.callback.ctx.pc, some 0x1004] := by
  obtain ⟨last, outputs, hrun⟩ : ∃ last outputs,
      runFrom (System.recordStep .standard) (System.start (fun _ => []) sampleCall)
        recordedSession = some (last, outputs) := ⟨_, _, rfl⟩
  have hcall : sampleCall.Succeeds := ⟨⟨_, rfl, by decide⟩, rfl, rfl⟩
  exact ⟨last, outputs, hrun, session_path Capstone.standard_wordNames _ hcall rfl
    recordedSession_once (fun _ _ hmem => recordedSession_clean hmem) hrun⟩

end GumTVM
