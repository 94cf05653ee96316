import GumTVM.Session.TraceFile

/-!
# What other threads can do to a trace

Callouts run for one thread only, and only while the invocation that started the
session is open. Hooked calls start and end the session and have no other
influence on the records.
-/

namespace GumTVM

open Foundation

variable {cs : Capstone}

/-! ## Who is recorded -/

/-- Every callout runs for the thread that called `follow`, while the invocation
that did so is open. -/
theorem callout_in_session (files : Files) (call : GumTraceCall) {events : List Event}
    (honce : ∀ event ∈ events, ∀ call, event ≠ .gumTrace call) {system next : System}
    {reports : List Report} {tid : Nat} {input : CallbackInput} {report : Report}
    (hrun : System.run cs (System.start files call) events = some (system, reports))
    (hstep : system.step cs (.callback tid input) = some (next, report)) :
    ∃ id, Follows reports tid id ∧ ∀ actions, Report.left tid id actions ∉ reports := by
  have hfresh := gumTrace_initial_fresh files call
  have hsession : SessionInvariant _ reports system :=
    SessionInvariant.of_run hfresh rfl (System.start_idsFresh files call) honce hrun
  obtain ⟨⟨id, hstarted⟩, -⟩ := TraceInvariant.callback_active hfresh hsession hstep
  refine ⟨id, hstarted.follows_iff.mpr ⟨rfl, rfl⟩, ?_⟩
  intro actions hmem
  rcases hstarted.mem_cases hmem with heq | ⟨-, hopen⟩
  · cases heq
  · exact hopen actions rfl

theorem callout_in_session_recorded :
    ∃ system next reports report,
      System.run .standard (System.start (fun _ => []) sampleCall) (recordedSession.take 3) =
        some (system, reports) ∧
      System.step .standard system (.callback 1 (nopStep (stateAt 0x1004 1)).callback) =
        some (next, report) ∧
      ∃ id, Follows reports 1 id ∧ ∀ actions, Report.left 1 id actions ∉ reports := by
  obtain ⟨system, next, reports, report, hrun, hstep⟩ : ∃ system next reports report,
      System.run .standard (System.start (fun _ => []) sampleCall) (recordedSession.take 3) =
        some (system, reports) ∧
      System.step .standard system (.callback 1 (nopStep (stateAt 0x1004 1)).callback) =
        some (next, report) := ⟨_, _, _, _, rfl, rfl⟩
  have honce : ∀ event ∈ recordedSession.take 3, ∀ call, event ≠ .gumTrace call :=
    fun event hevent => recordedSession_once event (List.mem_of_mem_take hevent)
  exact ⟨system, next, reports, report, hrun, hstep,
    callout_in_session _ sampleCall honce hrun hstep⟩

/-! ## Calls do not disturb the records -/

/-- The events that make records: compiling blocks and running callouts. -/
def Event.isTracing : Event → Bool
  | .transform .. | .callback .. => true
  | _ => false

/-- While a session runs, a hooked call keeps the manager and the followed
threads, or ends the session. -/
theorem active_call_step {start : SessionView} {reports : List Report} {system next : System}
    {event : Event} {report : Report} (hfresh : start.Fresh)
    (hsession : SessionInvariant start reports system)
    (hrunning : system.world.traceIsRunning = true) (hcall : event.IsCall)
    (hstep : system.step cs event = some (next, report)) :
    (next.world.manager = system.world.manager ∧
        next.world.followed = system.world.followed) ∨ next.world.followed = [] := by
  cases hsession with
  | idle hview hquiet =>
      have hidle : system.world.traceIsRunning = false :=
        (congrArg SessionView.traceIsRunning hview).trans hfresh.traceIsRunning
      rw [hidle] at hrunning
      cases hrunning
  | active owner id target above below hreports hview hstack habove =>
      have hlisteners : system.world.listeners = start.listeners :=
        congrArg SessionView.listeners hview
      have howner : system.world.manager.traceTid = owner := congrArg SessionView.traceTid hview
      have hsum : system.world.tidCallSum = above.length + 1 :=
        congrArg SessionView.tidCallSum hview
      cases event with
      | enter tid target x0 x1 x2 =>
          obtain ⟨_, hattached, hworld, _⟩ := step_enter_eq_some hstep
          rw [SessionInvariant.dispatch_eq hfresh hlisteners hattached] at hworld
          rw [hworld]
          by_cases hown : owner = tid
          · rw [hookCommonEnter_own hrunning (howner.trans hown)]
            exact Or.inl ⟨rfl, rfl⟩
          · rw [hookCommonEnter_other hrunning (howner ▸ hown)]
            exact Or.inl ⟨rfl, rfl⟩
      | leave tid =>
          obtain ⟨_, _, _, hattached, hworld, _⟩ := step_leave_eq_some hstep
          rw [SessionInvariant.dispatch_eq hfresh hlisteners hattached] at hworld
          rw [hworld]
          by_cases hown : owner = tid
          · subst hown
            by_cases hdepth : system.world.tidCallSum = 1
            · have habove : above.length = 0 := by omega
              rw [habove] at hview
              obtain ⟨stopped, hleave, _, hfollowed, _⟩ :=
                SessionInvariant.hookCommonLeave_starting hfresh hview
              rw [hleave]
              exact Or.inr hfollowed
            · rw [hookCommonLeave_inner howner hdepth]
              exact Or.inl ⟨rfl, rfl⟩
          · rw [hookCommonLeave_other (howner ▸ hown)]
            exact Or.inl ⟨rfl, rfl⟩
      | gumTrace call | transform find block | callback tid input => cases hcall
  | ended owner id hreports hlisteners hfollowed hfile =>
      cases event with
      | enter tid target x0 x1 x2 =>
          obtain ⟨_, hattached, _⟩ := step_enter_eq_some hstep
          exact absurd (SessionInvariant.attachedAt_eq_nil hlisteners) hattached
      | leave tid =>
          obtain ⟨_, _, _, hattached, _⟩ := step_leave_eq_some hstep
          exact absurd (SessionInvariant.attachedAt_eq_nil hlisteners) hattached
      | gumTrace call | transform find block | callback tid input => cases hcall

/-- A system whose calls were left out: it has the files of the other one and,
as long as that one follows a thread, its manager. -/
structure Shadows (system shadow : System) : Prop where
  files : shadow.world.files = system.world.files
  tracing : system.world.followed = [] ∨
    shadow.world.manager = system.world.manager ∧ shadow.world.followed = system.world.followed

theorem Shadows.call {system shadow next : System} (hshadow : Shadows system shadow)
    (hfiles : next.world.files = system.world.files)
    (hcall : (next.world.manager = system.world.manager ∧
      next.world.followed = system.world.followed) ∨ next.world.followed = []) :
    Shadows next shadow := by
  refine ⟨hshadow.files.trans hfiles.symm, ?_⟩
  rcases hcall with ⟨hmanager, hfollowed⟩ | hnone
  · rw [hmanager, hfollowed]
    exact hshadow.tracing
  · exact Or.inl hnone

theorem Shadows.callback {system shadow next : System} (hshadow : Shadows system shadow)
    {tid : Nat} {input : CallbackInput} {output : Report × Option RecordSummary}
    (hstep : system.recordStep cs (.callback tid input) = some (next, output)) :
    ∃ shadowNext, shadow.recordStep cs (.callback tid input) = some (shadowNext, output) ∧
      Shadows next shadowNext := by
  obtain ⟨hsystem, hrecord⟩ := recordStep_eq_some.mp hstep
  obtain ⟨logger, result, hfollowed, hlogger, hresult, rfl, hreport⟩ :=
    step_callback_eq_some hsystem
  obtain ⟨hmanager, hsame⟩ := hshadow.tracing.resolve_left (List.ne_nil_of_mem hfollowed)
  -- the callout reads nothing but the manager and the files
  have hcalled : runCallout cs shadow.world input = some { shadow.world with
      manager := result.self
      files := logger.writeInfo shadow.world.files result.record.outInfo } := by
    unfold runCallout
    rw [hmanager, hlogger, Option.bind_some, hresult, Option.map_some]
  refine ⟨{ shadow with world := { shadow.world with
    manager := result.self
    files := logger.writeInfo shadow.world.files result.record.outInfo } }, ?_, ?_, ?_⟩
  · refine recordStep_eq_some.mpr ⟨?_, ?_⟩
    · simp only [System.step]
      rw [if_pos (hsame ▸ hfollowed), hcalled, Option.map_some, hreport]
    · rw [hrecord]
      unfold System.recorded
      dsimp only
      rw [hmanager]
  · dsimp only
    rw [hshadow.files]
  · exact Or.inr ⟨rfl, hsame⟩

theorem Shadows.transform {system shadow next : System} (hshadow : Shadows system shadow)
    {find : Text → Option GumMemoryRange} {block : List CsInsn}
    {output : Report × Option RecordSummary}
    (hstep : system.recordStep cs (.transform find block) = some (next, output)) :
    ∃ shadowNext, shadow.recordStep cs (.transform find block) = some (shadowNext, output) ∧
      Shadows next shadowNext := by
  obtain ⟨rfl, rfl⟩ := Prod.mk.inj (Option.some.inj hstep)
  refine ⟨_, rfl, hshadow.files, ?_⟩
  refine hshadow.tracing.imp_right fun hsame => ⟨?_, hsame.2⟩
  dsimp only
  rw [hsame.1]

/-- Some run of these events makes the records of the outputs and ends with the
files of a system. -/
def Reproduces (cs : Capstone) (system : System) (events : List Event)
    (outputs : List (Report × Option RecordSummary)) (last : System) : Prop :=
  ∃ other otherOutputs,
    runFrom (System.recordStep cs) system events = some (other, otherOutputs) ∧
    records otherOutputs = records outputs ∧ other.world.files = last.world.files

/-- While a session runs, the run in which all hooked calls are left out makes
the same records and the same files. -/
theorem Shadows.run {start : SessionView} (hfresh : start.Fresh) {reports : List Report}
    {system shadow last : System} {later : List Event}
    {outputs : List (Report × Option RecordSummary)} (hids : system.IdsFresh reports)
    (hsession : SessionInvariant start reports system)
    (hrunning : system.world.traceIsRunning = true) (hshadow : Shadows system shadow)
    (honce : ∀ event ∈ later, ∀ call, event ≠ .gumTrace call)
    (hrun : runFrom (System.recordStep cs) system later = some (last, outputs)) :
    Reproduces cs shadow (later.filter Event.isTracing) outputs last := by
  induction later generalizing reports system shadow outputs with
  | nil =>
      obtain ⟨rfl, rfl⟩ := Prod.mk.inj (Option.some.inj hrun)
      exact ⟨shadow, [], rfl, rfl, hshadow.files⟩
  | cons event rest ih =>
      obtain ⟨next, output, laterOutputs, hstep, hrest, rfl⟩ := runFrom_cons_eq_some.mp hrun
      obtain ⟨hsystem, hrecord⟩ := recordStep_eq_some.mp hstep
      have hevent := honce event List.mem_cons_self
      have hnextIds := hids.step hsystem
      have hnextSession := hsession.step hfresh hids hevent hsystem
      have hnextRunning := (KeepsFollowed.step hsystem).running hrunning
      have hfollowing (shadowNext : System) (hnext : Shadows next shadowNext) :=
        ih hnextIds hnextSession hnextRunning hnext
          (fun other hother => honce other (List.mem_cons_of_mem _ hother)) hrest
      have hskip (hcall : event.IsCall) (htracing : event.isTracing = false)
          (hnone : system.recorded cs event = none) :
          Reproduces cs shadow ((event :: rest).filter Event.isTracing) (output :: laterOutputs)
            last := by
        obtain ⟨shadowLast, shadowOutputs, hshadowRun, hrecords, hlast⟩ :=
          hfollowing shadow (hshadow.call (step_hookFrame hcall hsystem).files
            (active_call_step hfresh hsession hrunning hcall hsystem))
        refine ⟨shadowLast, shadowOutputs, ?_, ?_, hlast⟩
        · rw [List.filter_cons, if_neg (by rw [htracing]; exact Bool.false_ne_true)]
          exact hshadowRun
        · rw [hrecords]
          simp [records, hrecord, hnone]
      have hkeep (htracing : event.isTracing = true)
          (hboth : ∃ shadowNext, shadow.recordStep cs event = some (shadowNext, output) ∧
            Shadows next shadowNext) :
          Reproduces cs shadow ((event :: rest).filter Event.isTracing) (output :: laterOutputs)
            last := by
        obtain ⟨shadowNext, hshadowStep, hnext⟩ := hboth
        obtain ⟨shadowLast, shadowOutputs, hshadowRun, hrecords, hlast⟩ :=
          hfollowing shadowNext hnext
        refine ⟨shadowLast, output :: shadowOutputs, ?_, ?_, hlast⟩
        · rw [List.filter_cons, if_pos htracing]
          exact runFrom_cons_eq_some.mpr ⟨_, _, _, hshadowStep, hshadowRun, rfl⟩
        · unfold records at hrecords ⊢
          rw [List.filterMap_cons, List.filterMap_cons, hrecords]
      cases event with
      | gumTrace call => exact absurd rfl (hevent call)
      | enter tid target x0 x1 x2 => exact hskip trivial rfl rfl
      | leave tid => exact hskip trivial rfl rfl
      | transform find block => exact hkeep rfl (hshadow.transform hstep)
      | callback tid input => exact hkeep rfl (hshadow.callback hstep)

/-- Once a session runs, what is recorded does not depend on which hooked
functions any thread enters or leaves. -/
theorem records_without_calls (files : Files) (call : GumTraceCall) {events later : List Event}
    (honce : ∀ event ∈ events ++ later, ∀ call, event ≠ .gumTrace call) {system last : System}
    {reports : List Report} {outputs : List (Report × Option RecordSummary)}
    (hrun : System.run cs (System.start files call) events = some (system, reports))
    (hrunning : system.world.traceIsRunning = true)
    (hlater : runFrom (System.recordStep cs) system later = some (last, outputs)) :
    Reproduces cs system (later.filter Event.isTracing) outputs last := by
  have hfresh := gumTrace_initial_fresh files call
  have hids := System.start_idsFresh files call
  have hsession : SessionInvariant _ reports system :=
    SessionInvariant.of_run hfresh rfl hids
      (fun event hevent => honce event (List.mem_append_left _ hevent)) hrun
  exact Shadows.run hfresh (hids.run hrun) hsession hrunning ⟨rfl, Or.inr ⟨rfl, rfl⟩⟩
    (fun event hevent => honce event (List.mem_append_right _ hevent)) hlater

/-- The two callouts, which are the same without the calls. -/
def recordedCallouts : List Event :=
  [.callback 1 moveStep.callback, .callback 1 (nopStep (stateAt 0x1004 1)).callback]

theorem records_without_calls_recorded :
    ∃ system last reports outputs,
      System.run .standard (System.start (fun _ => []) sampleCall) (recordedSession.take 1) =
        some (system, reports) ∧
      runFrom (System.recordStep .standard) system (recordedSession.drop 1) =
        some (last, outputs) ∧
      last.world.followed = [] ∧
      Reproduces .standard system recordedCallouts outputs last := by
  obtain ⟨system, last, reports, outputs, hrun, hrunning, hlater, hended⟩ :
      ∃ system last reports outputs,
        System.run .standard (System.start (fun _ => []) sampleCall) (recordedSession.take 1) =
          some (system, reports) ∧
        system.world.traceIsRunning = true ∧
        runFrom (System.recordStep .standard) system (recordedSession.drop 1) =
          some (last, outputs) ∧
        last.world.followed = [] := ⟨_, _, _, _, rfl, rfl, rfl, rfl⟩
  have honce : ∀ event ∈ recordedSession.take 1 ++ recordedSession.drop 1,
      ∀ call, event ≠ .gumTrace call := by
    rw [List.take_append_drop]
    exact recordedSession_once
  exact ⟨system, last, reports, outputs, hrun, hlater, hended,
    records_without_calls _ sampleCall honce hrun hrunning hlater⟩

end GumTVM
