import GumTVM.Session.Protocol

/-!
# Repeated initialisation

`gum_trace` resets the tracing thread, replaces the logger and attaches a second
listener, while the globals of the hooks keep their values. When a session is
running the hooks then match no thread any more: nothing they drive ever changes
again, and the trace file has been truncated.
-/

namespace GumTVM

open Foundation

variable {cs : Capstone}

/-! ## What hooks do to followed threads -/

/-- A transition never stops the trace, and a thread that is or becomes followed
stays so unless it is unfollowed. -/
structure KeepsFollowed (world next : World) (actions : List SessionAction) : Prop where
  running : world.traceIsRunning = true → next.traceIsRunning = true
  starts : ∀ tid, SessionAction.follow tid ∈ actions → next.traceIsRunning = true
  followed : ∀ tid, tid ∈ world.followed ∨ SessionAction.follow tid ∈ actions →
    SessionAction.unfollow tid ∉ actions → tid ∈ next.followed

namespace KeepsFollowed

variable {world middle next : World} {first second : List SessionAction}

theorem of_session_eq (hrunning : next.traceIsRunning = world.traceIsRunning)
    (hfollowed : next.followed = world.followed) : KeepsFollowed world next [] := by
  refine ⟨fun hworld => hrunning.trans hworld, by simp, ?_⟩
  intro tid hold _
  rw [hfollowed]
  exact hold.resolve_right (by simp)

theorem trans (hfirst : KeepsFollowed world middle first)
    (hsecond : KeepsFollowed middle next second) :
    KeepsFollowed world next (first ++ second) := by
  refine ⟨fun hworld => hsecond.running (hfirst.running hworld), ?_, ?_⟩
  · intro tid hmem
    rcases List.mem_append.mp hmem with hmem | hmem
    · exact hsecond.running (hfirst.starts tid hmem)
    · exact hsecond.starts tid hmem
  · intro tid hold hnever
    obtain ⟨hnotFirst, hnotSecond⟩ := not_or.mp (fun hmem => hnever (List.mem_append.mpr hmem))
    rw [List.mem_append, ← or_assoc] at hold
    refine hsecond.followed tid ?_ hnotSecond
    exact hold.imp_left fun hfollowed => hfirst.followed tid hfollowed hnotFirst

theorem enter (tid : Nat) (x0 x1 x2 : BitVec 64) (world : World) :
    KeepsFollowed world (hookCommonEnter tid x0 x1 x2 world).1
      (hookCommonEnter tid x0 x1 x2 world).2 := by
  have htrip (world : World) : KeepsFollowed world (tripDoCommandEnter world tid x0 x1 x2).1
      (tripDoCommandEnter world tid x0 x1 x2).2 := by
    rcases tripDoCommandEnter_cases world tid x0 x1 x2 with hnone | ⟨next, hnext, _, hsession⟩
    · rw [hnone]
      exact of_session_eq rfl rfl
    · rw [hnext]
      have hrunning : next.traceIsRunning = true := congrArg SessionView.traceIsRunning hsession
      have hfollowed : next.followed = tid :: world.followed :=
        congrArg SessionView.followed hsession
      refine ⟨fun _ => hrunning, fun _ _ => hrunning, ?_⟩
      intro other hold _
      rw [hfollowed]
      simpa [or_comm] using hold
  unfold hookCommonEnter
  split
  · have hcount : KeepsFollowed world
        (if world.manager.traceTid = tid then { world with tidCallSum := world.tidCallSum + 1 }
          else world) [] := by
      split <;> exact of_session_eq rfl rfl
    dsimp only
    generalize (if world.manager.traceTid = tid then _ else _) = counted at hcount ⊢
    split
    · exact hcount.trans (htrip counted)
    · exact hcount
  · exact of_session_eq rfl rfl

theorem leave (tid : Nat) (world : World) :
    KeepsFollowed world (hookCommonLeave tid world).1 (hookCommonLeave tid world).2 := by
  unfold hookCommonLeave
  split
  · dsimp only
    split
    · split
      · refine ⟨id, by simp [stopTrace], ?_⟩
        intro other hold hnever
        simp only [stopTrace, List.mem_append, List.mem_cons, not_or] at hold hnever
        have hne : other ≠ tid := by
          rintro rfl
          exact hnever.1.1 rfl
        simp [stopTrace, hne]
        simpa using hold
      · exact of_session_eq rfl rfl
    · exact of_session_eq rfl rfl
  · exact of_session_eq rfl rfl

theorem dispatch {hook : World → World × List SessionAction}
    (hhook : ∀ world, KeepsFollowed world (hook world).1 (hook world).2)
    (listeners : List Listener) (world : World) :
    KeepsFollowed world (dispatch hook listeners world).1
      (GumTVM.dispatch hook listeners world).2 := by
  induction listeners generalizing world with
  | nil => exact of_session_eq rfl rfl
  | cons listener rest ih => exact (hhook world).trans (ih _)

theorem step {system next : System} {event : Event} {report : Report}
    (hstep : system.step cs event = some (next, report)) :
    KeepsFollowed system.world next.world report.actions := by
  cases event with
  | gumTrace call =>
      obtain ⟨rfl, rfl⟩ := Prod.mk.inj (Option.some.inj hstep)
      exact of_session_eq (gumTrace_traceIsRunning _ call) (gumTrace_followed _ call)
  | enter tid target x0 x1 x2 =>
      obtain ⟨_, _, hworld, rfl, _⟩ := step_enter_eq_some hstep
      rw [hworld]
      exact dispatch (enter tid x0 x1 x2) _ _
  | leave tid =>
      obtain ⟨_, _, _, _, hworld, rfl, _⟩ := step_leave_eq_some hstep
      rw [hworld]
      exact dispatch (leave tid) _ _
  | transform find block =>
      obtain ⟨hview, rfl, _⟩ := step_silent (Or.inl ⟨find, block, rfl⟩) hstep
      exact of_session_eq (congrArg SessionView.traceIsRunning hview)
        (congrArg SessionView.followed hview)
  | callback tid input =>
      obtain ⟨hview, rfl, _⟩ := step_silent (Or.inr ⟨tid, input, rfl⟩) hstep
      exact of_session_eq (congrArg SessionView.traceIsRunning hview)
        (congrArg SessionView.followed hview)

theorem run {system last : System} {events : List Event} {reports : List Report}
    (hrun : System.run cs system events = some (last, reports)) :
    KeepsFollowed system.world last.world (reports.flatMap Report.actions) := by
  refine runFrom_history_invariant (fun _ => True)
    (fun log current => KeepsFollowed system.world current.world (log.flatMap Report.actions))
    ?_ (fun _ _ => trivial) (of_session_eq rfl rfl) hrun
  intro log current event next report _ hprior hstep
  rw [List.flatMap_append, List.flatMap_singleton]
  exact hprior.trans (KeepsFollowed.step hstep)

end KeepsFollowed

/-! ## Hooks without an owner -/

/-- The trace is running and no thread owns it. -/
structure World.Orphaned (world : World) : Prop where
  running : world.traceIsRunning = true
  owner : world.manager.traceTid = 0

/-- The events of hooked functions. -/
def Event.IsCall : Event → Prop
  | .enter .. | .leave _ => True
  | _ => False

/-- Without an owner no hook does anything, however many listeners call it. -/
theorem orphaned_step {system next : System} {event : Event} {report : Report}
    (horphaned : system.world.Orphaned) (hids : system.callStack 0 = []) (hcall : event.IsCall)
    (hstep : system.step cs event = some (next, report)) : next.world = system.world := by
  cases event with
  | enter tid target x0 x1 x2 =>
      obtain ⟨htid, _, hworld, _⟩ := step_enter_eq_some hstep
      have hother : system.world.manager.traceTid ≠ tid := by
        rw [horphaned.owner]
        exact htid.symm
      rw [hworld, dispatch_eq_self (hookCommonEnter_other horphaned.running hother)]
  | leave tid =>
      obtain ⟨invocation, rest, hstack, _, hworld, _⟩ := step_leave_eq_some hstep
      have hother : system.world.manager.traceTid ≠ tid := by
        rw [horphaned.owner]
        rintro rfl
        rw [hids] at hstack
        cases hstack
      rw [hworld, dispatch_eq_self (hookCommonLeave_other hother)]
  | gumTrace call | transform find block | callback tid input => cases hcall

theorem orphaned_run {system last : System} {events : List Event} {reports : List Report}
    (horphaned : system.world.Orphaned) (hids : system.IdsFresh [])
    (hcalls : ∀ event ∈ events, event.IsCall)
    (hrun : System.run cs system events = some (last, reports)) :
    last.world = system.world := by
  have hboth := runFrom_history_invariant Event.IsCall
    (fun log current => current.IdsFresh log ∧ current.world = system.world)
    ?_ hcalls ⟨hids, rfl⟩ hrun
  · exact hboth.2
  · intro log current event next report hcall hprior hstep
    obtain ⟨hcurrent, hworld⟩ := hprior
    refine ⟨hcurrent.step hstep, ?_⟩
    rw [← hworld]
    exact orphaned_step (hworld ▸ horphaned) hcurrent.nonzero hcall hstep

/-! ## A repeated call -/

theorem System.IdsFresh.run {system last : System} {events : List Event} {reports : List Report}
    (hfresh : system.IdsFresh []) (hrun : System.run cs system events = some (last, reports)) :
    last.IdsFresh reports := by
  refine runFrom_history_invariant (fun _ => True)
    (fun log current => current.IdsFresh log) ?_ (fun _ _ => trivial) hfresh hrun
  exact fun log current event next report _ hprior hstep => hprior.step hstep

def GumTraceCall.traceFile (call : GumTraceCall) : Text :=
  LoggerManager.traceDir ++ call.traceFileName

/-- The call succeeds on the module and with the trace file of the session. -/
structure Repeats (world : World) (call : GumTraceCall) : Prop where
  succeeds : call.Succeeds
  module_eq : call.moduleName = world.manager.moduleName
  file_eq : ∃ logger, world.manager.logger = some logger ∧ logger.traceFileName = call.traceFile

/-- Once the invocation `id` of thread `tid` has left, that thread is not
followed, no hook is attached and no file is open; and what the trace file held
before is still in it. -/
structure SessionUndamaged (before last : World) (file : Text) (reports : List Report)
    (tid id : Nat) : Prop where
  stopped : ∀ actions, Report.left tid id actions ∈ reports →
    tid ∉ last.followed ∧ last.listeners = [] ∧ last.openFile = none
  records : before.files file <:+: last.files file

/-- After a repeated call nothing unfollows the thread any more, and what the
trace file held is gone. -/
theorem repeated_call_outcome {files : Files} {events later : List Event} {system last : System}
    {reports laterReports : List Report} {call : GumTraceCall} {tid id : Nat}
    (hrun : System.run cs (System.initial files) events = some (system, reports))
    (hfollows : Follows reports tid id)
    (hopen : ∀ report ∈ reports, SessionAction.unfollow tid ∉ report.actions)
    (hsucceeds : call.Succeeds) (hcalls : ∀ event ∈ later, event.IsCall)
    (hlater : System.run cs system (.gumTrace call :: later) = some (last, laterReports)) :
    tid ∈ last.world.followed ∧ last.world.files call.traceFile = [] := by
  obtain ⟨actions, hentered, hfollow⟩ := hfollows
  have hkeeps := KeepsFollowed.run hrun
  have hmem : SessionAction.follow tid ∈ reports.flatMap Report.actions :=
    List.mem_flatMap.mpr ⟨_, hentered, hfollow⟩
  have hnever : SessionAction.unfollow tid ∉ reports.flatMap Report.actions := by
    intro hstop
    obtain ⟨report, hreport, haction⟩ := List.mem_flatMap.mp hstop
    exact hopen report hreport haction
  have hids := (System.initial_idsFresh files).run hrun
  obtain ⟨restarted, _, rest, hrestart, hrest, rfl⟩ := runFrom_cons_eq_some.mp hlater
  obtain ⟨rfl, rfl⟩ := Prod.mk.inj (Option.some.inj hrestart)
  obtain ⟨howner, hfiles⟩ := gumTrace_succeeds system.world hsucceeds
  -- the globals still say that a trace runs, the manager that no thread owns it
  have horphaned : (gumTrace system.world call).Orphaned :=
    ⟨(gumTrace_traceIsRunning _ call).trans (hkeeps.starts tid hmem), howner⟩
  have hids' : ({ system with world := gumTrace system.world call } : System).IdsFresh [] :=
    ⟨hids.nonzero, hids.opened, by simp⟩
  have hworld : last.world = gumTrace system.world call :=
    orphaned_run horphaned hids' hcalls hrest
  refine ⟨?_, ?_⟩
  · rw [hworld, gumTrace_followed]
    exact hkeeps.followed tid (Or.inr hmem) hnever
  · rw [hworld, hfiles]
    exact Files.write_same _ _ _

/-- A repeated call spares a running session only while the invocation that
started it is still open and nothing has been written to the trace file. -/
theorem session_undamaged_iff {files : Files} {events later : List Event} {system last : System}
    {reports laterReports : List Report} {call : GumTraceCall} {tid id : Nat}
    (hrun : System.run cs (System.initial files) events = some (system, reports))
    (hfollows : Follows reports tid id)
    (hopen : ∀ report ∈ reports, SessionAction.unfollow tid ∉ report.actions)
    (hrepeats : Repeats system.world call) (hcalls : ∀ event ∈ later, event.IsCall)
    (hlater : System.run cs system (.gumTrace call :: later) = some (last, laterReports)) :
    SessionUndamaged system.world last.world call.traceFile (reports ++ laterReports) tid id ↔
      (∀ actions, Report.left tid id actions ∉ reports ++ laterReports) ∧
        system.world.files call.traceFile = [] := by
  obtain ⟨hfollowed, hempty⟩ :=
    repeated_call_outcome hrun hfollows hopen hrepeats.succeeds hcalls hlater
  constructor
  · intro hundamaged
    obtain ⟨hstopped, hrecords⟩ := hundamaged
    refine ⟨fun actions hleft => (hstopped actions hleft).1 hfollowed, ?_⟩
    rw [hempty] at hrecords
    exact List.infix_nil.mp hrecords
  · intro hspared
    obtain ⟨hleft, hrecords⟩ := hspared
    refine ⟨fun actions hmem => absurd hmem (hleft actions), ?_⟩
    rw [hrecords]
    exact List.nil_infix

/-- Everything `gum_trace` and the first matching enter leave behind. -/
theorem sampleCall_starts :
    ∃ system, System.run .standard (System.initial fun _ => [])
        [.gumTrace sampleCall, .enter 1 0x1010 7 1 2] =
          some (system, [.silent, .entered 1 0 [.follow 1]]) ∧
      Repeats system.world sampleCall ∧ system.world.files sampleCall.traceFile = [] ∧
      system.world.followed = [1] := by
  refine ⟨_, rfl, ?_, rfl, rfl⟩
  exact ⟨⟨⟨_, rfl, by decide⟩, rfl, rfl⟩, rfl, _, rfl, rfl⟩

theorem session_undamaged_open :
    ∃ system last, System.run .standard (System.initial fun _ => [])
        [.gumTrace sampleCall, .enter 1 0x1010 7 1 2] =
          some (system, [.silent, .entered 1 0 [.follow 1]]) ∧
      System.run .standard system [.gumTrace sampleCall] = some (last, [.silent]) ∧
      SessionUndamaged system.world last.world sampleCall.traceFile
        ([.silent, .entered 1 0 [.follow 1]] ++ [.silent]) 1 0 := by
  obtain ⟨system, hrun, hrepeats, hempty, _⟩ := sampleCall_starts
  obtain ⟨last, hlater⟩ : ∃ last,
      System.run .standard system [.gumTrace sampleCall] = some (last, [.silent]) := ⟨_, rfl⟩
  have hfollows : Follows [.silent, .entered 1 0 [.follow 1]] 1 0 := ⟨[.follow 1], by simp⟩
  have hopen : ∀ report ∈ [Report.silent, .entered 1 0 [.follow 1]],
      SessionAction.unfollow 1 ∉ report.actions := by simp [Report.actions]
  refine ⟨system, last, hrun, hlater, ?_⟩
  exact (session_undamaged_iff hrun hfollows hopen hrepeats (by simp) hlater).mpr
    ⟨by simp, hempty⟩

/-- After the repeated call the leave of the starting invocation stops nothing. -/
theorem session_damaged_left :
    ∃ system last, System.run .standard (System.initial fun _ => [])
        [.gumTrace sampleCall, .enter 1 0x1010 7 1 2] =
          some (system, [.silent, .entered 1 0 [.follow 1]]) ∧
      Repeats system.world sampleCall ∧
      System.run .standard system [.gumTrace sampleCall, .leave 1] =
        some (last, [.silent, .left 1 0 []]) ∧
      ¬ SessionUndamaged system.world last.world sampleCall.traceFile
        ([.silent, .entered 1 0 [.follow 1]] ++ [.silent, .left 1 0 []]) 1 0 := by
  refine ⟨_, _, rfl, ?_, rfl, ?_⟩
  · exact ⟨⟨⟨_, rfl, by decide⟩, rfl, rfl⟩, rfl, _, rfl, rfl⟩
  · intro hundamaged
    exact (hundamaged.stopped [] (by simp)).1 List.mem_cons_self

end GumTVM
