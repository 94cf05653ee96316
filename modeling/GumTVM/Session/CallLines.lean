import GumTVM.Record.Calls
import GumTVM.Session.Path
import GumTVM.Session.PltRange
import GumTVM.Session.Replay

/-!
# Call lines in the trace file

The call lines of a trace file are those of the calls of a session in order. The
range of the PLT is the one that the hook puts in place when the session starts.
-/

namespace GumTVM

open Foundation

variable {cs : Capstone}

/-! ## The range in force -/

/-- The main module with the range that the hook gives its PLT. -/
def sessionPlt (range : GumMemoryRange) : PltLayout := ⟨range.baseAddress, 0x20EA4, 0x21DD0⟩

/-- Whenever a thread is followed, the PLT is the one of the session. -/
def PltInForce (plt : PltLayout) (world : World) : Prop :=
  world.manager.moduleRange.base = plt.base ∧
    (world.followed = [] ∨ world.manager.pltRange = (plt.first, plt.last))

theorem PltInForce.dispatch {plt : PltLayout} {hook : World → World × List SessionAction}
    (hhook : ∀ world, PltInForce plt world → PltInForce plt (hook world).1)
    (listeners : List Listener) {world : World} (hplt : PltInForce plt world) :
    PltInForce plt (dispatch hook listeners world).1 := by
  induction listeners generalizing world with
  | nil => exact hplt
  | cons listener rest ih => exact ih (hhook world hplt)

theorem tripDoCommandEnter_pltInForce {range : GumMemoryRange} {world : World}
    (hplt : PltInForce (sessionPlt range) world) (tid : Nat) (x0 x1 x2 : BitVec 64) :
    PltInForce (sessionPlt range) (tripDoCommandEnter world tid x0 x1 x2).1 := by
  have hentry (manager : InstructionTracerManager) (name : Text) (status : Bool) :
      (manager.addTraceOtherModuleEntry name status).2.pltRange = manager.pltRange := by
    unfold InstructionTracerManager.addTraceOtherModuleEntry
    split <;> rfl
  refine ⟨(HookFrame.tripDoCommandEnter world tid x0 x1 x2).moduleRange ▸ hplt.1, ?_⟩
  unfold tripDoCommandEnter
  split
  · right
    dsimp only
    rw [hentry, hentry]
    rfl
  · exact hplt.2

theorem hookCommonEnter_pltInForce {range : GumMemoryRange} (tid : Nat) (x0 x1 x2 : BitVec 64)
    {world : World} (hplt : PltInForce (sessionPlt range) world) :
    PltInForce (sessionPlt range) (hookCommonEnter tid x0 x1 x2 world).1 := by
  have hcounted : PltInForce (sessionPlt range) (world.counted tid) := by
    unfold World.counted
    split
    · exact hplt
    · exact hplt
  rw [hookCommonEnter_eq]
  split
  · split
    · exact tripDoCommandEnter_pltInForce hcounted tid x0 x1 x2
    · exact hcounted
  · exact hplt

theorem hookCommonLeave_pltInForce {plt : PltLayout} (tid : Nat) {world : World}
    (hplt : PltInForce plt world) : PltInForce plt (hookCommonLeave tid world).1 := by
  refine ⟨(HookFrame.hookCommonLeave tid world).moduleRange ▸ hplt.1, ?_⟩
  refine hplt.2.imp (hookCommonLeave_followed tid) fun hrange => ?_
  -- the range that the world has already
  have hsame := hookCommonLeave_withPlt tid world world.manager.pltRange
  have hframe : (hookCommonLeave tid world).1.manager.pltRange = world.manager.pltRange :=
    congrArg (fun answer => answer.1.manager.pltRange) hsame
  exact hframe.trans hrange

theorem step_pltInForce {range : GumMemoryRange} {system next : System} {event : Event}
    {report : Report} (hcall : ∀ call, event ≠ .gumTrace call)
    (hplt : PltInForce (sessionPlt range) system.world)
    (hstep : system.step cs event = some (next, report)) :
    PltInForce (sessionPlt range) next.world := by
  cases event with
  | gumTrace call => exact absurd rfl (hcall call)
  | enter tid target x0 x1 x2 =>
      obtain ⟨_, _, hworld, _⟩ := step_enter_eq_some hstep
      rw [hworld]
      exact hplt.dispatch (fun _ => hookCommonEnter_pltInForce tid x0 x1 x2) _
  | leave tid =>
      obtain ⟨_, _, _, _, hworld, _⟩ := step_leave_eq_some hstep
      rw [hworld]
      exact hplt.dispatch (fun _ => hookCommonLeave_pltInForce tid) _
  | transform find block =>
      obtain ⟨rfl, rfl⟩ := Prod.mk.inj (Option.some.inj hstep)
      unfold PltInForce
      simp only [transformCallback]
      rw [InstructionTracerManager.registerOtherModules_frame]
      exact hplt
  | callback tid input =>
      obtain ⟨_, result, _, _, hresult, rfl, _⟩ := step_callback_eq_some hstep
      unfold PltInForce
      dsimp only
      rw [instructionCallback_self hresult]
      exact hplt

/-- The flag changes at callouts only. -/
theorem step_isPltJmp {system next : System} {event : Event} {report : Report}
    (hcallout : ∀ tid input, event ≠ .callback tid input)
    (hcall : ∀ call, event ≠ .gumTrace call)
    (hstep : system.step cs event = some (next, report)) :
    next.world.manager.isPltJmp = system.world.manager.isPltJmp := by
  cases event with
  | gumTrace call => exact absurd rfl (hcall call)
  | enter tid target x0 x1 x2 => exact (step_hookFrame (by trivial) hstep).isPltJmp
  | leave tid => exact (step_hookFrame (by trivial) hstep).isPltJmp
  | transform find block =>
      obtain ⟨rfl, rfl⟩ := Prod.mk.inj (Option.some.inj hstep)
      simp only [transformCallback]
      rw [InstructionTracerManager.registerOtherModules_frame]
  | callback tid input => exact absurd rfl (hcallout tid input)

/-! ## Runs and their parts -/

theorem pendingAfter_append (plt : PltLayout) (pending : Bool) (first second : List CallbackInput) :
    pendingAfter plt pending (first ++ second) =
      pendingAfter plt (pendingAfter plt pending first) second := List.foldl_append

theorem expected_append (plt : PltLayout) (pending : Bool) (first second : List CallbackInput) :
    expected plt pending (first ++ second) =
      expected plt pending first ++ expected plt (pendingAfter plt pending first) second := by
  induction first generalizing pending with
  | nil => rfl
  | cons input rest ih =>
      rw [List.cons_append, expected, expected, ih]
      rfl

theorem trackedTransfers_append (plt : PltLayout) (pending : Bool)
    (first second : List CallbackInput) :
    trackedTransfers plt pending (first ++ second) = trackedTransfers plt pending first ++
      trackedTransfers plt (pendingAfter plt pending first) second := by
  induction first generalizing pending with
  | nil => rfl
  | cons input rest ih =>
      rw [List.cons_append, trackedTransfers, trackedTransfers, ih, List.append_assoc]
      rfl

/-! ## The lines -/

/-- A call line of a trace. -/
def lineCalls : Text → List Text := readKind .call fun line => [line]

/-- The call lines of a trace. -/
def traceCalls (text : Text) : List Text := (splitTerminated '\n' text).flatMap lineCalls

/-- The lines that some calls should have. -/
def callLines (reports : List (Text × Bool)) : List Text :=
  (reports.map Prod.fst).filter fun line => line ≠ []

theorem callLines_append (first second : List (Text × Bool)) :
    callLines (first ++ second) = callLines first ++ callLines second := by
  unfold callLines
  rw [List.map_append, List.filter_append]

theorem callLines_length (reports : List (Text × Bool)) :
    (callLines reports).length = reports.countP fun report => decide (report.1 ≠ []) := by
  unfold callLines
  rw [← List.countP_eq_length_filter, List.countP_map]
  rfl

theorem callLines_singleton (report : Text × Bool) :
    callLines [report] = optionalLine report.1 report.1 := by
  unfold callLines optionalLine
  by_cases hnone : report.1 = []
  · simp [hnone]
  · simp [hnone]

/-- The lines of a record have its call line. -/
theorem recordLines_calls (cs : Capstone) (proc : Process)
    (results : List (Arm64Reg × BitVec 64)) {record : TraceRecord} (hmarked : record.Marked) :
    (recordLines cs proc results record).flatMap lineCalls =
      optionalLine record.callInfo record.callInfo := by
  have hmemory : ∀ line ∈ optionalLine record.memoryAccessInfo
      ("   ".toList ++ record.memoryAccessInfo), lineKind line ≠ .call := by
    intro line hline heq
    rw [memoryLine_kind hmarked hline] at heq
    cases heq
  unfold lineCalls
  rw [recordLines_read hmarked cs proc results _ (Or.inl rfl), flatMap_readKind_eq_nil hmemory,
    flatMap_readKind fun _ => callLine_kind hmarked, List.append_nil]
  exact List.flatMap_singleton' _

/-! ## The file over a session -/

/-- The file has the call lines expected so far, and the flag of the tracer is the
one expected. -/
structure CallsInvariant (start : SessionView) (plt : PltLayout) (path : Text)
    (done : List CallbackInput) (log : List Report) (system : System) : Prop where
  ids : system.IdsFresh log
  session : SessionInvariant start log system
  layout : PltInForce plt system.world
  pending : system.world.manager.isPltJmp = pendingAfter plt false done
  reads : FileReads lineCalls path (callLines (expected plt false done)) system.world.files

theorem CallsInvariant.callback {start : SessionView} {range : GumMemoryRange} {path : Text}
    {done : List CallbackInput} {log : List Report} {system next : System} {tid : Nat}
    {input : CallbackInput} {report : Report} (hnames : cs.WordNames) (hfresh : start.Fresh)
    (hopen : start.openFile = some path) (hinput : input.Clean) (hresolved : Resolved input)
    (hregular : ∀ transfer, tracked (pendingAfter (sessionPlt range) false done) input =
      some transfer → Regular (sessionPlt range) input transfer)
    (hinv : CallsInvariant start (sessionPlt range) path done log system)
    (hstep : system.step cs (.callback tid input) = some (next, report)) :
    CallsInvariant start (sessionPlt range) path (done ++ [input]) (log ++ [report]) next := by
  have hcall : ∀ call, Event.callback tid input ≠ .gumTrace call := fun _ => Event.noConfusion
  obtain ⟨-, hfile⟩ := TraceInvariant.callback_active hfresh hinv.session hstep
  obtain ⟨result, hresult, hmanager, hreads⟩ :=
    hinv.reads.callback hnames hinput (hfile.trans hopen) hstep
  have hlayout : system.world.manager.pltLayout = sessionPlt range := by
    obtain ⟨_, _, hfollowed, _⟩ := step_callback_eq_some hstep
    obtain ⟨hbase, hrange⟩ := hinv.layout
    unfold InstructionTracerManager.pltLayout
    rw [hbase, hrange.resolve_left (List.ne_nil_of_mem hfollowed)]
  -- the callout reports what the transfer asks for
  have hreport : (result.record.callInfo, result.self.isPltJmp) =
      expectStep (sessionPlt range) (pendingAfter (sessionPlt range) false done) input := by
    obtain ⟨other, hother, hexpected⟩ := (instructionCallback_expected_iff cs
      system.world.manager hresolved).mpr (by rw [hlayout, hinv.pending]; exact hregular)
    rw [hlayout, hinv.pending] at hexpected
    rw [← hexpected, Option.some.inj (hresult.symm.trans hother)]
  refine ⟨hinv.ids.step hstep, hinv.session.step hfresh hinv.ids hcall hstep,
    step_pltInForce hcall hinv.layout hstep, ?_, ?_⟩
  · rw [hmanager, pendingAfter_append]
    exact congrArg Prod.snd hreport
  · have hline : (recordLines cs input.proc (postResults system.world.manager input.ctx)
        result.record).flatMap lineCalls =
          callLines (expected (sessionPlt range)
            (pendingAfter (sessionPlt range) false done) [input]) := by
      rw [recordLines_calls cs _ _ (instructionCallback_marked hnames.oneLineNames hinput hresult),
        expected, expected, callLines_singleton, ← hreport]
    rw [expected_append, callLines_append, ← hline]
    exact hreads

theorem CallsInvariant.start (files : Files) {call : GumTraceCall} (hcall : call.Succeeds)
    {range : GumMemoryRange} (hrange : call.host.findModuleByName call.moduleName = some range) :
    CallsInvariant (System.start files call).world.session (sessionPlt range) call.traceFile [] []
      (System.start files call) where
  ids := System.start_idsFresh files call
  session := .idle rfl (by simp [Quiet])
  layout := by
    refine ⟨?_, Or.inl (gumTrace_followed _ call)⟩
    rw [start_moduleRange files hcall hrange]
    rfl
  pending := (start_handedOn files call).2
  reads := .start lineCalls files hcall

/-- Whatever the threads do, the call lines of the trace file are those of the calls
of the session, by way of the PLT that the hook set, and every call is on one of
them except one that still waits in the PLT. -/
theorem session_calls (hnames : cs.WordNames) (files : Files) {call : GumTraceCall}
    (hcall : call.Succeeds) {range : GumMemoryRange}
    (hrange : call.host.findModuleByName call.moduleName = some range) {events : List Event}
    (honce : ∀ event ∈ events, ∀ call, event ≠ .gumTrace call)
    (hclean : ∀ tid input, Event.callback tid input ∈ events → input.Clean) {last : System}
    {reports : List Report}
    (hrun : System.run cs (System.start files call) events = some (last, reports))
    (hresolved : ∀ input ∈ calloutInputs events, Resolved input)
    (hstubs : StubsFollow (sessionPlt range) false (calloutInputs events))
    (hregular : ∀ entry ∈ trackedTransfers (sessionPlt range) false (calloutInputs events),
      Regular (sessionPlt range) entry.1 entry.2) :
    traceCalls (last.world.files call.traceFile) =
        callLines (expected (sessionPlt range) false (calloutInputs events)) ∧
      (traceCalls (last.world.files call.traceFile)).length +
          (pendingAfter (sessionPlt range) false (calloutInputs events)).toNat =
        (calloutInputs events).countP isCall := by
  have hfresh := gumTrace_initial_fresh files call
  obtain ⟨hopen, -⟩ := start_openFile files hcall
  have hinv := runFrom_run_invariant (fun done event => ∃ rest, events = done ++ event :: rest)
    (fun done log state => CallsInvariant (System.start files call).world.session
      (sessionPlt range) call.traceFile (calloutInputs done) log state)
    ?_ (fun _ _ rest hsplit => ⟨rest, hsplit⟩) (CallsInvariant.start files hcall hrange) hrun
  · have hlines : traceCalls (last.world.files call.traceFile) =
        callLines (expected (sessionPlt range) false (calloutInputs events)) := hinv.reads.split
    refine ⟨hlines, ?_⟩
    have hcount := expected_count hresolved hstubs
    rw [Bool.toNat_false, Nat.add_zero] at hcount
    rw [hlines, ← hcount, callLines_length]
  · rintro done log state event next report ⟨rest, hsplit⟩ hstate hstep
    have hevent : event ∈ events := hsplit ▸ List.mem_append_right _ List.mem_cons_self
    rw [calloutInputs_append]
    by_cases hcallout : ∃ tid input, event = .callback tid input
    · obtain ⟨tid, input, rfl⟩ := hcallout
      have hinputs : calloutInputs events = calloutInputs done ++ input :: calloutInputs rest := by
        rw [hsplit, calloutInputs_append]
        rfl
      have hmem : input ∈ calloutInputs events := by
        rw [hinputs]
        exact List.mem_append_right _ List.mem_cons_self
      refine hstate.callback hnames hfresh hopen (hclean tid input hevent) (hresolved input hmem)
        ?_ hstep
      intro transfer htransfer
      refine hregular (input, transfer) ?_
      rw [hinputs, trackedTransfers_append, trackedTransfers, htransfer]
      exact List.mem_append_right _ List.mem_cons_self
    · have hplain : ∀ tid input, event ≠ .callback tid input :=
        fun tid input heq => hcallout ⟨tid, input, heq⟩
      have hother := honce event hevent
      rw [calloutInputs_singleton hplain, List.append_nil]
      refine ⟨hstate.ids.step hstep, hstate.session.step hfresh hstate.ids hother hstep,
        step_pltInForce hother hstate.layout hstep, ?_, ?_⟩
      · rw [step_isPltJmp hplain hother hstep]
        exact hstate.pending
      · rw [(step_unrecorded hplain hother hstep).1]
        exact hstate.reads

/-- Thread 1 is followed, calls through the PLT and calls directly. -/
def callingSession : List Event :=
  [.enter 1 0x1010 7 1 2, .callback 1 (callTo 0x21EA4), .callback 1 (branchTo 0x70001000),
    .callback 1 (callTo 0x1400), .leave 1]

theorem callingSession_input {input : CallbackInput}
    (hinput : input ∈ calloutInputs callingSession) :
    input = callTo 0x21EA4 ∨ input = branchTo 0x70001000 ∨ input = callTo 0x1400 := by
  have hinputs : calloutInputs callingSession =
      [callTo 0x21EA4, branchTo 0x70001000, callTo 0x1400] := rfl
  simpa [hinputs] using hinput

theorem callingSession_clean {tid : Nat} {input : CallbackInput}
    (hmem : Event.callback tid input ∈ callingSession) : input.Clean := by
  have hinput : input ∈ calloutInputs callingSession :=
    List.mem_filterMap.mpr ⟨_, hmem, rfl⟩
  have hlibrary : input.proc = libraryProcess := by
    rcases callingSession_input hinput with rfl | rfl | rfl <;> rfl
  have htexts : OneLine input.info.insnCopy.mnemonic ∧ OneLine input.info.insnCopy.opStr := by
    rcases callingSession_input hinput with rfl | rfl | rfl <;> exact ⟨by decide, by decide⟩
  refine ⟨htexts.1, htexts.2, ?_, ?_, ?_⟩
  · intro addr xdlInfo hfound
    rw [hlibrary] at hfound
    obtain rfl := Option.some.inj hfound
    decide
  · intro addr xdlInfo name hfound hname
    rw [hlibrary] at hfound
    obtain rfl := Option.some.inj hfound
    obtain rfl := Option.some.inj hname
    decide
  · intro addr xdlInfo hfound hnone
    rw [hlibrary] at hfound
    obtain rfl := Option.some.inj hfound
    cases hnone

theorem session_calls_library :
    ∃ last reports,
      System.run .standard (System.start (fun _ => []) sampleCall) callingSession =
        some (last, reports) ∧
      traceCalls (last.world.files sampleCall.traceFile) =
        ["call addr: 70001000 [libc.so!memcpy]".toList,
          "call addr: 1400 [libc.so!memcpy]".toList] := by
  obtain ⟨last, reports, hrun⟩ : ∃ last reports,
      System.run .standard (System.start (fun _ => []) sampleCall) callingSession =
        some (last, reports) := ⟨_, _, rfl⟩
  have hcall : sampleCall.Succeeds := ⟨⟨_, rfl, by decide⟩, rfl, rfl⟩
  have hresolved : ∀ input ∈ calloutInputs callingSession, Resolved input := by
    intro input hinput
    rcases callingSession_input hinput with rfl | rfl | rfl
    · exact callTo_resolved (by decide)
    · exact branchTo_resolved (by decide)
    · exact callTo_resolved (by decide)
  have hstubs : StubsFollow (sessionPlt ⟨0x1000, 0x2000⟩) false (calloutInputs callingSession) := by
    refine ⟨?_, ?_, ?_, trivial⟩ <;> decide
  have htracked : trackedTransfers (sessionPlt ⟨0x1000, 0x2000⟩) false
        (calloutInputs callingSession) =
      [(callTo 0x21EA4, ⟨.call, 0x21EA4⟩), (branchTo 0x70001000, ⟨.branch, 0x70001000⟩),
        (callTo 0x1400, ⟨.call, 0x1400⟩)] := rfl
  have hregular : ∀ entry ∈ trackedTransfers (sessionPlt ⟨0x1000, 0x2000⟩) false
      (calloutInputs callingSession), Regular (sessionPlt ⟨0x1000, 0x2000⟩) entry.1 entry.2 := by
    rw [htracked]
    simp only [List.mem_cons, List.not_mem_nil, or_false, forall_eq_or_imp, forall_eq]
    exact ⟨regular_of_libraryProcess rfl (by decide), regular_of_libraryProcess rfl (by decide),
      regular_of_libraryProcess rfl (by decide)⟩
  have hlines := session_calls Capstone.standard_wordNames _ hcall rfl (by simp [callingSession])
    (fun _ _ hmem => callingSession_clean hmem) hrun hresolved hstubs hregular
  exact ⟨last, reports, hrun, hlines.1.trans (by decide +kernel)⟩

end GumTVM
