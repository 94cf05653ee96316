import GumTVM.Record.Annotation
import GumTVM.Record.Decode
import GumTVM.Record.Results
import GumTVM.Session.System

/-!
# Decoding the trace file

Every callback that runs with the file open appends the lines of its record.
The file is therefore recovered by splitting it at line ends, and decodes to one
summary for every callback, in order.
-/

namespace GumTVM

open Foundation

/-! ## Runs with the file open -/

/-- A callout with the summary of the record it wrote. -/
def loggedStep (cs : Capstone) (world : World) (input : CallbackInput) :
    Option (World × RecordSummary) :=
  (runCallout cs world input).bind fun next =>
    (instructionCallback cs input.proc world.manager input.ctx input.info).map fun result =>
      (next, result.record.summary cs input.proc (postResults world.manager input.ctx))

theorem loggedStep_eq_some {cs : Capstone} {world next : World} {input : CallbackInput}
    {summary : RecordSummary} {logger : LoggerManager}
    (hlogger : world.manager.logger = some logger)
    (hstep : loggedStep cs world input = some (next, summary)) :
    ∃ result, instructionCallback cs input.proc world.manager input.ctx input.info = some result ∧
      next = { world with
        manager := result.self
        files := logger.writeInfo world.files result.record.outInfo } ∧
      summary = result.record.summary cs input.proc (postResults world.manager input.ctx) := by
  unfold loggedStep runCallout at hstep
  rw [hlogger, Option.bind_some] at hstep
  cases hcall : instructionCallback cs input.proc world.manager input.ctx input.info with
  | none =>
      rw [hcall] at hstep
      cases hstep
  | some result =>
      rw [hcall] at hstep
      obtain ⟨rfl, rfl⟩ := Prod.mk.inj (Option.some.inj hstep)
      exact ⟨result, rfl, rfl, rfl⟩

theorem Capstone.WordNames.oneLineNames {cs : Capstone} (hnames : cs.WordNames) :
    OneLineNames cs := fun reg => hnames.not_mem reg (by decide)

theorem instructionCallback_marked {cs : Capstone} {self : InstructionTracerManager}
    {input : CallbackInput} {result : CallbackResult} (hnames : OneLineNames cs)
    (hinput : input.Clean)
    (hcall : instructionCallback cs input.proc self input.ctx input.info = some result) :
    result.record.Marked := by
  obtain ⟨next, callText, hstep, rfl⟩ := instructionCallback_eq_some.mp hcall
  refine ⟨disasmInfo_starts, ?_, ?_⟩
  · exact (callStep_text hinput hstep).imp_right CallText.starts
  · exact (operandLoop_clean hnames).memory.imp_right MemoryEntries.starts

/-- The file holds whole lines, and they decode to the records written. -/
structure Decodes (path : Text) (log : List RecordSummary) (world : World) : Prop where
  openFile : world.openFile = some path
  lines : ∃ lines : List Text, world.files path = terminated '\n' lines ∧
    (∀ line ∈ lines, OneLine line) ∧
    lines.foldl Decoder.step ⟨[], [], []⟩ = ⟨log, [], []⟩ ∧
    lines.map lineKind = log.flatMap RecordSummary.kinds

/-- One callback appends the lines of its record. -/
theorem Decodes.step {cs : Capstone} (hnames : cs.WordNames) {path : Text}
    {log : List RecordSummary} {world next : World} {input : CallbackInput}
    {summary : RecordSummary} (hinput : input.Clean) (hworld : Decodes path log world)
    (hstep : loggedStep cs world input = some (next, summary)) :
    Decodes path (log ++ [summary]) next := by
  obtain ⟨lines, hfile, hlines, hdecode, hkinds⟩ := hworld.lines
  obtain ⟨logger, hlogger, hout⟩ := Option.bind_eq_some_iff.mp hworld.openFile
  obtain ⟨result, hcall, rfl, rfl⟩ := loggedStep_eq_some hlogger hstep
  have hmarked := instructionCallback_marked hnames.oneLineNames hinput hcall
  have hself := instructionCallback_self hcall
  have hwritten : result.record.outInfo = terminated '\n'
      (recordLines cs input.proc (postResults world.manager input.ctx) result.record) :=
    outInfo_eq (instructionCallback_postInfo hcall) (instructionCallback_dumpRegInfo hcall)
  refine ⟨?_, lines ++ recordLines cs input.proc (postResults world.manager input.ctx)
    result.record, ?_, ?_, ?_, ?_⟩
  · unfold World.openFile
    rw [hself]
    exact hworld.openFile
  · unfold LoggerManager.writeInfo
    rw [hout, terminated_append, ← hwritten, ← hfile]
    exact Files.write_same _ _ _
  · intro line hline
    rcases List.mem_append.mp hline with hold | hnew
    · exact hlines line hold
    · exact recordLines_oneLine hnames.oneLineNames hinput hcall line hnew
  · rw [List.foldl_append, hdecode, foldl_recordLines hnames _ _ hmarked]
  · rw [List.map_append, hkinds, recordLines_kinds cs _ _ hmarked, List.flatMap_append,
      List.flatMap_singleton]

/-- The instruction line of a record starts with the place of the instruction,
its mnemonic and its operand text. Callbacks do not move the modules. -/
theorem loggedStep_disasmText {cs : Capstone} {world next : World} {input : CallbackInput}
    {summary : RecordSummary} (hstep : loggedStep cs world input = some (next, summary)) :
    disasmText next.manager = disasmText world.manager ∧
      disasmText world.manager input.ctx input.info <+: summary.instruction := by
  obtain ⟨_, hcallout, _⟩ := Option.bind_eq_some_iff.mp hstep
  obtain ⟨logger, hlogger, -⟩ := Option.bind_eq_some_iff.mp hcallout
  obtain ⟨result, hcall, rfl, rfl⟩ := loggedStep_eq_some hlogger hstep
  refine ⟨?_, ?_⟩
  · rw [instructionCallback_self hcall]
    rfl
  · obtain ⟨_, _, _, rfl⟩ := instructionCallback_eq_some.mp hcall
    unfold TraceRecord.summary TraceRecord.instructionLine
    rw [List.append_assoc]
    exact (disasmInfo_starts_text _ _ _).trans (List.prefix_append _ _)

/-- Splitting the file at its line ends loses nothing, and reading it line by
line recovers the record of every callback, whatever memory held. -/
theorem trace_decodable {cs : Capstone} (hnames : cs.WordNames) {world last : World}
    {path : Text} (hopen : world.openFile = some path) (hempty : world.files path = [])
    {inputs : List CallbackInput} (hinputs : ∀ input ∈ inputs, input.Clean)
    {summaries : List RecordSummary}
    (hrun : runFrom (loggedStep cs) world inputs = some (last, summaries)) :
    terminated '\n' (splitTerminated '\n' (last.files path)) = last.files path ∧
      decodeTrace (last.files path) = summaries ∧
      (splitTerminated '\n' (last.files path)).map lineKind =
        summaries.flatMap RecordSummary.kinds ∧
      List.Forall₂ (fun input summary =>
        disasmText world.manager input.ctx input.info <+: summary.instruction)
        inputs summaries := by
  have hlast : Decodes path summaries last := by
    refine runFrom_history_invariant CallbackInput.Clean (Decodes path) ?_ hinputs ?_ hrun
    · intro log state input next summary hinput hstate hstep
      exact hstate.step hnames hinput hstep
    · exact ⟨hopen, [], hempty, by simp, rfl, rfl⟩
  obtain ⟨lines, hfile, hlines, hdecode, hkinds⟩ := hlast.lines
  have hsplit : splitTerminated '\n' (last.files path) = lines := by
    have hwhole := splitTerminated_terminated_append hlines List.not_mem_nil
    rwa [List.append_nil, ← hfile] at hwhole
  unfold decodeTrace
  rw [hsplit, hdecode]
  refine ⟨hfile.symm, rfl, hkinds, ?_⟩
  refine runFrom_forall₂_invariant
    (fun state => disasmText state.manager = disasmText world.manager) _ ?_ rfl hrun
  intro state input next summary hstate hstep
  obtain ⟨hnext, htext⟩ := loggedStep_disasmText hstep
  exact ⟨hnext.trans hstate, hstate ▸ htext⟩

/-! ## Memory full of line ends -/

/-- A process in which every address can be read and every byte is a line end. -/
def Process.lineEnds : Process :=
  { Process.empty with
    mincore := fun _ _ => true
    processVmReadv := fun _ length => List.replicate length 0x0A }

/-- A world whose logger has an empty file open. -/
def World.logging (path : Text) : World :=
  { World.initial (fun _ => []) with
    manager := { InstructionTracerManager.ofModule 0x1000 0x2000 with
      logger := some { LoggerManager.create [] ⟨0x1000, 0x2000⟩ with traceOut := some path } } }

/-- `mov x0, #1` and the instruction after it, over that memory. -/
def lineEndInputs : List CallbackInput :=
  [{ moveStep.callback with proc := .lineEnds },
    { (nopStep (stateAt 0x1004 1)).callback with proc := .lineEnds }]

theorem trace_decodable_lineEnds :
    ∃ last first second,
      runFrom (loggedStep .standard) (.logging "trace".toList) lineEndInputs =
        some (last, [first, second]) ∧
      first.results = [] ∧ second.results = [("x0".toList, 1)] ∧
      second.dumps = [("x0".toList, .hexdump)] ∧
      decodeTrace (last.files "trace".toList) = [first, second] ∧
      (splitTerminated '\n' (last.files "trace".toList)).map lineKind =
        [.instruction, .results, .hexHeader, .hexRow, .hexRow, .instruction] := by
  obtain ⟨last, first, second, hrun, hfirst, hsecond, hdumps, hkinds⟩ : ∃ last first second,
      runFrom (loggedStep .standard) (.logging "trace".toList) lineEndInputs =
        some (last, [first, second]) ∧
      first.results = [] ∧ second.results = [("x0".toList, 1)] ∧
      second.dumps = [("x0".toList, .hexdump)] ∧
      [first, second].flatMap RecordSummary.kinds =
        [.instruction, .results, .hexHeader, .hexRow, .hexRow, .instruction] :=
    ⟨_, _, _, rfl, rfl, rfl, by decide +kernel, by decide +kernel⟩
  have hinputs : ∀ input ∈ lineEndInputs, input.Clean := by
    intro input hinput
    rcases List.mem_pair.mp hinput with rfl | rfl <;>
      exact clean_of_empty rfl (by decide) (by decide)
  obtain ⟨_, hdecode, hlines, _⟩ :=
    trace_decodable Capstone.standard_wordNames rfl rfl hinputs hrun
  exact ⟨last, first, second, hrun, hfirst, hsecond, hdumps, hdecode, hlines.trans hkinds⟩

end GumTVM
