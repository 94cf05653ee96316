import GumTVM.Record.Trace
import GumTVM.Session.Reinit

/-!
# The trace file of a session

What a whole run leaves in the trace file, whatever threads do in between: the
records of the callouts in order, each with the results of the instruction of
the callout before it.
-/

namespace GumTVM

open Foundation

variable {cs : Capstone}

/-! ## Runs with the records they write -/

/-- The record that an event writes, if it is a callout. -/
def System.recorded (cs : Capstone) (system : System) : Event → Option RecordSummary
  | .callback _ input =>
      (instructionCallback cs input.proc system.world.manager input.ctx input.info).map
        fun result =>
          result.record.summary cs input.proc (postResults system.world.manager input.ctx)
  | _ => none

theorem System.recorded_callback (system : System) {tid : Nat} {input : CallbackInput}
    {result : CallbackResult}
    (hresult : instructionCallback cs input.proc system.world.manager input.ctx input.info =
      some result) :
    system.recorded cs (.callback tid input) = some (result.record.summary cs input.proc
      (postResults system.world.manager input.ctx)) := by
  unfold System.recorded
  dsimp only
  rw [hresult, Option.map_some]

/-- A step with its report and the record it wrote. -/
def System.recordStep (cs : Capstone) (system : System) (event : Event) :
    Option (System × (Report × Option RecordSummary)) :=
  (system.step cs event).map fun (next, report) => (next, report, system.recorded cs event)

/-- The records of a run in the order they were written. -/
def records (outputs : List (Report × Option RecordSummary)) : List RecordSummary :=
  outputs.filterMap Prod.snd

theorem records_append (first second : List (Report × Option RecordSummary)) :
    records (first ++ second) = records first ++ records second :=
  List.filterMap_append

theorem recordStep_eq_some {system next : System} {event : Event}
    {output : Report × Option RecordSummary} :
    system.recordStep cs event = some (next, output) ↔
      system.step cs event = some (next, output.1) ∧ output.2 = system.recorded cs event := by
  obtain ⟨report, record⟩ := output
  unfold System.recordStep
  rw [Option.map_eq_some_iff]
  constructor
  · rintro ⟨⟨state, seen⟩, hstep, heq⟩
    obtain ⟨rfl, houtput⟩ := Prod.mk.inj heq
    obtain ⟨rfl, rfl⟩ := Prod.mk.inj houtput
    exact ⟨hstep, rfl⟩
  · rintro ⟨hstep, rfl⟩
    exact ⟨(next, report), hstep, rfl⟩

/-- The files, and of the manager what callouts hand on and the module ranges. -/
structure HookFrame (world next : World) : Prop where
  files : next.files = world.files
  writeRegList : next.manager.writeRegList = world.manager.writeRegList
  isPltJmp : next.manager.isPltJmp = world.manager.isPltJmp
  moduleRange : next.manager.moduleRange = world.manager.moduleRange
  otherModulesRange :
    next.manager.traceOtherModulesRange = world.manager.traceOtherModulesRange

namespace HookFrame

variable {world middle next : World}

theorem refl (world : World) : HookFrame world world := ⟨rfl, rfl, rfl, rfl, rfl⟩

theorem trans (hfirst : HookFrame world middle) (hsecond : HookFrame middle next) :
    HookFrame world next where
  files := hsecond.files.trans hfirst.files
  writeRegList := hsecond.writeRegList.trans hfirst.writeRegList
  isPltJmp := hsecond.isPltJmp.trans hfirst.isPltJmp
  moduleRange := hsecond.moduleRange.trans hfirst.moduleRange
  otherModulesRange := hsecond.otherModulesRange.trans hfirst.otherModulesRange

theorem tripDoCommandEnter (world : World) (tid : Nat) (x0 x1 x2 : BitVec 64) :
    HookFrame world (tripDoCommandEnter world tid x0 x1 x2).1 := by
  have hentry (manager : InstructionTracerManager) (name : Text) (status : Bool) :
      ∃ table, (manager.addTraceOtherModuleEntry name status).2 =
        { manager with traceOtherModules := table } := by
    unfold InstructionTracerManager.addTraceOtherModuleEntry
    split
    · exact ⟨_, rfl⟩
    · exact ⟨_, rfl⟩
  unfold GumTVM.tripDoCommandEnter
  split
  · dsimp only
    obtain ⟨_, hfirst⟩ := hentry { world.manager with
      traceTid := tid, pltRange := (0x20EA4, 0x21DD0) }
      "libsgsecuritybodyso-6.6.230703.so".toList false
    rw [hfirst]
    obtain ⟨_, hsecond⟩ := hentry _ "libsgmiddletierso-6.6.230703.so".toList false
    rw [hsecond]
    exact ⟨rfl, rfl, rfl, rfl, rfl⟩
  · exact refl world

theorem hookCommonEnter (tid : Nat) (x0 x1 x2 : BitVec 64) (world : World) :
    HookFrame world (hookCommonEnter tid x0 x1 x2 world).1 := by
  have hcount : HookFrame world (if world.manager.traceTid = tid
      then { world with tidCallSum := world.tidCallSum + 1 } else world) := by
    split
    · exact ⟨rfl, rfl, rfl, rfl, rfl⟩
    · exact refl world
  unfold GumTVM.hookCommonEnter
  split
  · dsimp only
    generalize (if world.manager.traceTid = tid then _ else _) = counted at hcount ⊢
    split
    · exact hcount.trans (.tripDoCommandEnter counted tid x0 x1 x2)
    · exact hcount
  · exact refl world

theorem hookCommonLeave (tid : Nat) (world : World) :
    HookFrame world (hookCommonLeave tid world).1 := by
  unfold GumTVM.hookCommonLeave
  split
  · dsimp only
    split
    · split <;> exact ⟨rfl, rfl, rfl, rfl, rfl⟩
    · exact ⟨rfl, rfl, rfl, rfl, rfl⟩
  · exact refl world

theorem dispatch {hook : World → World × List SessionAction}
    (hhook : ∀ world, HookFrame world (hook world).1) (listeners : List Listener)
    (world : World) : HookFrame world (dispatch hook listeners world).1 := by
  induction listeners generalizing world with
  | nil => exact refl world
  | cons listener rest ih => exact (hhook world).trans (ih _)

end HookFrame

theorem step_hookFrame {system next : System} {event : Event} {report : Report}
    (hevent : event.IsCall) (hstep : system.step cs event = some (next, report)) :
    HookFrame system.world next.world := by
  cases event with
  | enter tid target x0 x1 x2 =>
      obtain ⟨_, _, hworld, _⟩ := step_enter_eq_some hstep
      rw [hworld]
      exact .dispatch (.hookCommonEnter tid x0 x1 x2) _ _
  | leave tid =>
      obtain ⟨_, _, _, _, hworld, _⟩ := step_leave_eq_some hstep
      rw [hworld]
      exact .dispatch (.hookCommonLeave tid) _ _
  | gumTrace call | transform find block | callback tid input => cases hevent

/-- An event that is neither a callout nor a call of `gum_trace` writes no file
and no record, and leaves the registers noted alone. -/
theorem step_unrecorded {system next : System} {event : Event} {report : Report}
    (hcallout : ∀ tid input, event ≠ .callback tid input)
    (hcall : ∀ call, event ≠ .gumTrace call)
    (hstep : system.step cs event = some (next, report)) :
    next.world.files = system.world.files ∧
      next.world.manager.writeRegList = system.world.manager.writeRegList ∧
      system.recorded cs event = none := by
  cases event with
  | gumTrace call => exact absurd rfl (hcall call)
  | enter tid target x0 x1 x2 =>
      have hframe := step_hookFrame (by trivial) hstep
      exact ⟨hframe.files, hframe.writeRegList, rfl⟩
  | leave tid =>
      have hframe := step_hookFrame (by trivial) hstep
      exact ⟨hframe.files, hframe.writeRegList, rfl⟩
  | transform find block =>
      obtain ⟨rfl, rfl⟩ := Prod.mk.inj (Option.some.inj hstep)
      refine ⟨rfl, ?_, rfl⟩
      simp only [transformCallback]
      rw [InstructionTracerManager.registerOtherModules_frame]
  | callback tid input => exact absurd rfl (hcallout tid input)

/-! ## The file over a whole run -/

/-- The file holds whole lines, which decode to the records of a log. -/
def FileHolds (path : Text) (log : List RecordSummary) (files : Files) : Prop :=
  ∃ lines : List Text, files path = terminated '\n' lines ∧ (∀ line ∈ lines, OneLine line) ∧
    lines.foldl Decoder.step ⟨[], [], []⟩ = ⟨log, [], []⟩ ∧
    lines.map lineKind = log.flatMap RecordSummary.kinds

/-- The session is in one of its phases, and the trace file holds the records
written so far; other files are as they were. -/
structure TraceInvariant (start : SessionView) (path : Text) (files : Files)
    (outputs : List (Report × Option RecordSummary)) (system : System) : Prop where
  ids : system.IdsFresh (outputs.map Prod.fst)
  session : SessionInvariant start (outputs.map Prod.fst) system
  file : FileHolds path (records outputs) system.world.files
  frame : ∀ other, other ≠ path → system.world.files other = files other

namespace TraceInvariant

variable {start : SessionView} {path : Text} {files : Files}
variable {outputs : List (Report × Option RecordSummary)} {system next : System}

/-- Callouts run only while the session is active, for the thread that started
it and with its file open. -/
theorem callback_active {reports : List Report} (hfresh : start.Fresh)
    (hsession : SessionInvariant start reports system) {tid : Nat} {input : CallbackInput}
    {report : Report} (hstep : system.step cs (.callback tid input) = some (next, report)) :
    (∃ id, Started reports tid id) ∧ system.world.openFile = start.openFile := by
  obtain ⟨_, _, hfollowed, _⟩ := step_callback_eq_some hstep
  cases hsession with
  | idle hview hquiet =>
      have hnone : system.world.followed = [] :=
        (congrArg SessionView.followed hview).trans hfresh.followed
      rw [hnone] at hfollowed
      cases hfollowed
  | active owner id target above below hreports hview hstack habove =>
      have howner : system.world.followed = [owner] := congrArg SessionView.followed hview
      rw [howner, List.mem_singleton] at hfollowed
      subst hfollowed
      exact ⟨⟨id, hreports⟩, congrArg SessionView.openFile hview⟩
  | ended owner id hreports hlisteners hnone hfile =>
      have hnone : system.world.followed = [] := hnone
      rw [hnone] at hfollowed
      cases hfollowed

/-- A callout appends its record to the open file and leaves other files alone. -/
theorem callback_files (hnames : cs.WordNames) {log : List RecordSummary} {tid : Nat}
    {input : CallbackInput} {report : Report} (hinput : input.Clean)
    (hopen : system.world.openFile = some path) (hfile : FileHolds path log system.world.files)
    (hstep : system.step cs (.callback tid input) = some (next, report)) :
    ∃ record, system.recorded cs (.callback tid input) = some record ∧
      FileHolds path (log ++ [record]) next.world.files ∧
      ∀ other, other ≠ path → next.world.files other = system.world.files other := by
  obtain ⟨logger, result, _, hlogger, hresult, rfl, _⟩ := step_callback_eq_some hstep
  let record := result.record.summary cs input.proc (postResults system.world.manager input.ctx)
  have hlogged : loggedStep cs system.world input = some ({ system.world with
      manager := result.self
      files := logger.writeInfo system.world.files result.record.outInfo }, record) := by
    unfold loggedStep runCallout
    rw [hlogger, Option.bind_some, hresult, Option.map_some, Option.bind_some, Option.map_some]
  have hdecodes := Decodes.step hnames hinput ⟨hopen, hfile⟩ hlogged
  refine ⟨record, system.recorded_callback hresult, hdecodes.lines, ?_⟩
  intro other hother
  unfold World.openFile at hopen
  rw [hlogger, Option.bind_some] at hopen
  dsimp only
  unfold LoggerManager.writeInfo
  rw [hopen]
  exact Function.update_of_ne hother _ _

theorem step (hnames : cs.WordNames) (hfresh : start.Fresh) (hopen : start.openFile = some path)
    {event : Event} {output : Report × Option RecordSummary}
    (hcall : ∀ call, event ≠ .gumTrace call)
    (hclean : ∀ tid input, event = .callback tid input → input.Clean)
    (hinv : TraceInvariant start path files outputs system)
    (hstep : system.recordStep cs event = some (next, output)) :
    TraceInvariant start path files (outputs ++ [output]) next := by
  obtain ⟨hsystem, hrecord⟩ := recordStep_eq_some.mp hstep
  have hids : next.IdsFresh ((outputs ++ [output]).map Prod.fst) := by
    rw [List.map_append]
    exact hinv.ids.step hsystem
  have hsession : SessionInvariant start ((outputs ++ [output]).map Prod.fst) next := by
    rw [List.map_append]
    exact hinv.session.step hfresh hinv.ids hcall hsystem
  by_cases hcallout : ∃ tid input, event = .callback tid input
  · obtain ⟨tid, input, rfl⟩ := hcallout
    obtain ⟨-, hfile⟩ := callback_active hfresh hinv.session hsystem
    obtain ⟨record, hsome, hholds, hframe⟩ := callback_files hnames (hclean tid input rfl)
      (hfile.trans hopen) hinv.file hsystem
    refine ⟨hids, hsession, ?_, ?_⟩
    · rw [records_append]
      rw [hsome] at hrecord
      simpa [records, hrecord] using hholds
    · intro other hother
      rw [hframe other hother, hinv.frame other hother]
  · have hother : ∀ tid input, event ≠ .callback tid input :=
      fun tid input heq => hcallout ⟨tid, input, heq⟩
    obtain ⟨hfiles, -, hnone⟩ := step_unrecorded hother hcall hsystem
    refine ⟨hids, hsession, ?_, ?_⟩
    · rw [records_append, hfiles]
      rw [hnone] at hrecord
      simpa [records, hrecord] using hinv.file
    · rw [hfiles]
      exact hinv.frame

end TraceInvariant

/-- After a call of `gum_trace` that ran to its end the trace file is open and
empty. -/
theorem start_openFile (files : Files) {call : GumTraceCall} (hcall : call.Succeeds) :
    (System.start files call).world.session.openFile = some call.traceFile ∧
      (System.start files call).world.files = files.write call.traceFile [] := by
  obtain ⟨⟨range, hrange, hoffset⟩, hopens, hattaches⟩ := hcall
  have hsize : ¬ call.offset > range.size := BitVec.not_lt.mpr hoffset
  simp [System.start, gumTrace, InstructionTracerManager.init, hrange, hsize,
    LoggerManager.create, LoggerManager.setEnableToFile, hopens, runAttach, World.session,
    World.openFile, System.initial, World.initial, GumTraceCall.traceFile]

theorem TraceInvariant.of_run (hnames : cs.WordNames) (files : Files) {call : GumTraceCall}
    (hcall : call.Succeeds) {events : List Event}
    (honce : ∀ event ∈ events, ∀ call, event ≠ .gumTrace call)
    (hclean : ∀ tid input, Event.callback tid input ∈ events → input.Clean) {last : System}
    {outputs : List (Report × Option RecordSummary)}
    (hrun : runFrom (System.recordStep cs) (System.start files call) events =
      some (last, outputs)) :
    TraceInvariant (System.start files call).world.session call.traceFile files outputs last := by
  obtain ⟨hopen, hempty⟩ := start_openFile files hcall
  refine runFrom_history_invariant
    (fun event => (∀ call, event ≠ Event.gumTrace call) ∧
      ∀ tid input, event = .callback tid input → input.Clean)
    (TraceInvariant _ call.traceFile files) ?_ ?_ ?_ hrun
  · intro log state event next output hevent hstate hstep
    exact hstate.step hnames (gumTrace_initial_fresh files call) hopen hevent.1 hevent.2 hstep
  · exact fun event hevent => ⟨honce event hevent, fun tid input heq => hclean tid input
      (heq ▸ hevent)⟩
  · refine ⟨System.start_idsFresh files call, .idle rfl (by simp [Quiet]), ?_, ?_⟩
    · exact ⟨[], by rw [hempty, Files.write_same]; rfl, by simp, rfl, rfl⟩
    · intro other hother
      rw [hempty]
      exact Function.update_of_ne hother _ _

theorem FileHolds.decodeTrace {path : Text} {log : List RecordSummary} {files : Files}
    (hfile : FileHolds path log files) :
    decodeTrace (files path) = log ∧
      terminated '\n' (splitTerminated '\n' (files path)) = files path := by
  obtain ⟨lines, hlines, honeLine, hdecode, -⟩ := hfile
  have hsplit : splitTerminated '\n' (files path) = lines := by
    have hwhole := splitTerminated_terminated_append honeLine List.not_mem_nil
    rwa [List.append_nil, ← hlines] at hwhole
  unfold GumTVM.decodeTrace
  rw [hsplit, hdecode]
  exact ⟨rfl, hlines.symm⟩

/-- Whatever the threads do, the trace file decodes to the records of the
callouts of the run in order, and no other file changes. -/
theorem session_trace (hnames : cs.WordNames) (files : Files) {call : GumTraceCall}
    (hcall : call.Succeeds) {events : List Event}
    (honce : ∀ event ∈ events, ∀ call, event ≠ .gumTrace call)
    (hclean : ∀ tid input, Event.callback tid input ∈ events → input.Clean) {last : System}
    {outputs : List (Report × Option RecordSummary)}
    (hrun : runFrom (System.recordStep cs) (System.start files call) events =
      some (last, outputs)) :
    decodeTrace (last.world.files call.traceFile) = records outputs ∧
      terminated '\n' (splitTerminated '\n' (last.world.files call.traceFile)) =
        last.world.files call.traceFile ∧
      ∀ path, path ≠ call.traceFile → last.world.files path = files path := by
  have hinv := TraceInvariant.of_run hnames files hcall honce hclean hrun
  obtain ⟨hdecode, hwhole⟩ := hinv.file.decodeTrace
  exact ⟨hdecode, hwhole, hinv.frame⟩

/-- Thread 1 is followed and executes `mov x0, #1` and a `nop`, while thread 2
enters and leaves the hooked function. -/
def recordedSession : List Event :=
  [.enter 1 0x1010 7 1 2, .callback 1 moveStep.callback, .enter 2 0x1010 7 1 2,
    .callback 1 (nopStep (stateAt 0x1004 1)).callback, .leave 2, .leave 1]

theorem recordedSession_once : ∀ event ∈ recordedSession, ∀ call, event ≠ .gumTrace call := by
  simp [recordedSession]

theorem recordedSession_clean {tid : Nat} {input : CallbackInput}
    (hmem : Event.callback tid input ∈ recordedSession) : input.Clean := by
  have hinput : input = moveStep.callback ∨ input = (nopStep (stateAt 0x1004 1)).callback := by
    simp only [recordedSession, List.mem_cons, Event.callback.injEq, List.not_mem_nil] at hmem
    tauto
  rcases hinput with rfl | rfl <;> exact clean_of_empty rfl (by decide) (by decide)

theorem session_trace_recorded :
    ∃ last outputs first second,
      runFrom (System.recordStep .standard) (System.start (fun _ => []) sampleCall)
        recordedSession = some (last, outputs) ∧
      records outputs = [first, second] ∧ second.results = [("x0".toList, 1)] ∧
      last.world.openFile = none ∧
      decodeTrace (last.world.files sampleCall.traceFile) = [first, second] := by
  obtain ⟨last, outputs, first, second, hrun, hrecords, hresults, hclosed⟩ :
      ∃ last outputs first second,
        runFrom (System.recordStep .standard) (System.start (fun _ => []) sampleCall)
          recordedSession = some (last, outputs) ∧
        records outputs = [first, second] ∧ second.results = [("x0".toList, 1)] ∧
        last.world.openFile = none := ⟨_, _, _, _, rfl, rfl, rfl, rfl⟩
  have hcall : sampleCall.Succeeds := ⟨⟨_, rfl, by decide⟩, rfl, rfl⟩
  have htrace := session_trace Capstone.standard_wordNames _ hcall recordedSession_once
    (fun _ _ hmem => recordedSession_clean hmem) hrun
  exact ⟨last, outputs, first, second, hrun, hrecords, hresults, hclosed, htrace.1.trans hrecords⟩

/-! ## Results across threads -/

/-- The inputs of the callouts among some events. -/
def calloutInputs (events : List Event) : List CallbackInput :=
  events.filterMap fun
    | .callback _ input => some input
    | _ => none

/-- The results and dumps that callouts print when each of them reads the
registers written by the instruction of the one before it. -/
def printedResults (cs : Capstone) :
    List Arm64Reg → List CallbackInput → List (List (Text × BitVec 64) × List (Text × DumpForm))
  | _, [] => []
  | written, input :: rest =>
      let results := written.filterMap fun reg =>
        (getRegisterValue reg input.ctx).map fun value => (reg, value)
      (results.map fun (reg, value) => (cs.regName reg, value), dumpsOf cs input.proc results) ::
        printedResults cs (writtenRegisters input.info) rest

/-- A callout prints the registers noted and notes those it writes. -/
theorem recordStep_callback {system next : System} {tid : Nat} {input : CallbackInput}
    {output : Report × Option RecordSummary}
    (hstep : system.recordStep cs (.callback tid input) = some (next, output)) :
    ∃ record, output.2 = some record ∧
      record.results = (postResults system.world.manager input.ctx).map
        (fun (reg, value) => (cs.regName reg, value)) ∧
      record.dumps = dumpsOf cs input.proc (postResults system.world.manager input.ctx) ∧
      next.world.manager.writeRegList = writtenRegisters input.info := by
  obtain ⟨hsystem, hrecord⟩ := recordStep_eq_some.mp hstep
  obtain ⟨_, result, _, _, hresult, rfl, _⟩ := step_callback_eq_some hsystem
  refine ⟨result.record.summary cs input.proc (postResults system.world.manager input.ctx),
    hrecord.trans (system.recorded_callback hresult), rfl, rfl, ?_⟩
  dsimp only
  rw [instructionCallback_self hresult]

theorem records_results {system last : System} {events : List Event}
    {outputs : List (Report × Option RecordSummary)}
    (honce : ∀ event ∈ events, ∀ call, event ≠ .gumTrace call)
    (hrun : runFrom (System.recordStep cs) system events = some (last, outputs)) :
    (records outputs).map (fun record => (record.results, record.dumps)) =
      printedResults cs system.world.manager.writeRegList (calloutInputs events) := by
  induction events generalizing system outputs with
  | nil =>
      obtain ⟨rfl, rfl⟩ := Prod.mk.inj (Option.some.inj hrun)
      rfl
  | cons event rest ih =>
      obtain ⟨next, output, later, hstep, hrest, rfl⟩ := runFrom_cons_eq_some.mp hrun
      obtain ⟨hsystem, hrecord⟩ := recordStep_eq_some.mp hstep
      have hlater := ih (fun other hother => honce other (List.mem_cons_of_mem _ hother)) hrest
      by_cases hcallout : ∃ tid input, event = .callback tid input
      · obtain ⟨tid, input, rfl⟩ := hcallout
        obtain ⟨record, hsome, hresults, hdumps, hnoted⟩ := recordStep_callback hstep
        have hcons : records (output :: later) = record :: records later := by
          simp [records, hsome]
        have hinputs : calloutInputs (.callback tid input :: rest) =
            input :: calloutInputs rest := rfl
        rw [hcons, List.map_cons, hlater, hresults, hdumps, hnoted, hinputs]
        rfl
      · have hother : ∀ tid input, event ≠ .callback tid input :=
          fun tid input heq => hcallout ⟨tid, input, heq⟩
        have hcall := honce event List.mem_cons_self
        obtain ⟨-, hnoted, hnone⟩ := step_unrecorded hother hcall hsystem
        have hcons : records (output :: later) = records later := by
          simp [records, hrecord, hnone]
        have hinputs : calloutInputs (event :: rest) = calloutInputs rest := by
          cases event with
          | callback tid input => exact absurd rfl (hother tid input)
          | gumTrace call | enter tid target x0 x1 x2 | leave tid | transform find block => rfl
        rw [hcons, hlater, hinputs, hnoted]

/-- Callouts hand on nothing before the first one. -/
theorem start_handedOn (files : Files) (call : GumTraceCall) :
    (System.start files call).world.manager.writeRegList = [] ∧
      (System.start files call).world.manager.isPltJmp = false := by
  have hinit : ∀ manager, (InstructionTracerManager.initial.init call.host call.moduleName
      call.offset).2 = manager → manager.writeRegList = [] ∧ manager.isPltJmp = false := by
    rintro _ rfl
    unfold InstructionTracerManager.init
    dsimp only
    split
    · exact ⟨rfl, rfl⟩
    · split <;> exact ⟨rfl, rfl⟩
  show (gumTrace (World.initial files) call).manager.writeRegList = [] ∧
    (gumTrace (World.initial files) call).manager.isPltJmp = false
  unfold gumTrace
  split
  · next manager heq => exact hinit manager (congrArg Prod.snd heq)
  · next manager heq =>
      have hmanager := hinit manager (congrArg Prod.snd heq)
      split <;> exact hmanager

/-- Read back from the trace file, the results of every callout are the registers
that the instruction of the callout before it writes, with their values at this
one: other threads, nested calls and compiled blocks make no difference. -/
theorem session_results (hnames : cs.WordNames) (files : Files) {call : GumTraceCall}
    (hcall : call.Succeeds) {events : List Event}
    (honce : ∀ event ∈ events, ∀ call, event ≠ .gumTrace call)
    (hclean : ∀ tid input, Event.callback tid input ∈ events → input.Clean) {last : System}
    {outputs : List (Report × Option RecordSummary)}
    (hrun : runFrom (System.recordStep cs) (System.start files call) events =
      some (last, outputs)) :
    (decodeTrace (last.world.files call.traceFile)).map
        (fun record => (record.results, record.dumps)) =
      printedResults cs [] (calloutInputs events) := by
  have hfile := (TraceInvariant.of_run hnames files hcall honce hclean hrun).file
  rw [hfile.decodeTrace.1, records_results honce hrun, (start_handedOn files call).1]

theorem session_results_recorded :
    ∃ last outputs,
      runFrom (System.recordStep .standard) (System.start (fun _ => []) sampleCall)
        recordedSession = some (last, outputs) ∧
      (decodeTrace (last.world.files sampleCall.traceFile)).map
          (fun record => (record.results, record.dumps)) =
        [([], []), ([("x0".toList, 1)], [])] := by
  obtain ⟨last, outputs, hrun⟩ : ∃ last outputs,
      runFrom (System.recordStep .standard) (System.start (fun _ => []) sampleCall)
        recordedSession = some (last, outputs) := ⟨_, _, rfl⟩
  have hcall : sampleCall.Succeeds := ⟨⟨_, rfl, by decide⟩, rfl, rfl⟩
  have hresults := session_results Capstone.standard_wordNames _ hcall recordedSession_once
    (fun _ _ hmem => recordedSession_clean hmem) hrun
  exact ⟨last, outputs, hrun, hresults.trans (by decide +kernel)⟩

end GumTVM
