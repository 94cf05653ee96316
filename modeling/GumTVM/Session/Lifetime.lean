import GumTVM.Session.TraceFile

/-!
# One session in the life of a process

The flag of a running trace is never cleared. However often `gum_trace` is
called, with any outcome and between any events, one thread is followed once at
most, and callouts run for no other thread and never after it was unfollowed.
-/

namespace GumTVM

open Foundation

variable {cs : Capstone}

/-! ## The life of a process -/

/-- No trace has been started, and hooks have done nothing; or a thread has been
followed, and what is followed now is that thread, unless it was unfollowed. -/
inductive Lifetime (actions : List SessionAction) (world : World) : Prop
  | waiting (hidle : world.traceIsRunning = false) (howner : world.manager.traceTid = 0)
      (hfollowed : world.followed = []) (hactions : actions = [])
  | started (owner : Nat) (hrunning : world.traceIsRunning = true)
      (howner : world.manager.traceTid = 0 ∨ world.manager.traceTid = owner)
      (hactions : actions.filter SessionAction.isFollow = [.follow owner])
      (honly : ∀ tid, SessionAction.unfollow tid ∈ actions → tid = owner)
      (hfollowed : ∀ tid ∈ world.followed,
        tid = owner ∧ SessionAction.unfollow owner ∉ actions)

/-- What a transition must keep, for any actions before it. -/
def KeepsLifetime (world next : World) (actions : List SessionAction) : Prop :=
  ∀ before, Lifetime before world → Lifetime (before ++ actions) next

theorem KeepsLifetime.trans {world middle next : World} {first second : List SessionAction}
    (hfirst : KeepsLifetime world middle first) (hsecond : KeepsLifetime middle next second) :
    KeepsLifetime world next (first ++ second) := by
  intro before hlife
  rw [← List.append_assoc]
  exact hsecond _ (hfirst before hlife)

/-- Where flag, owner and followed threads are as before, nothing changes. -/
theorem KeepsLifetime.of_same {world next : World}
    (hrunning : next.traceIsRunning = world.traceIsRunning)
    (howner : next.manager.traceTid = 0 ∨
      next.manager.traceTid = world.manager.traceTid)
    (hfollowed : next.followed = world.followed) : KeepsLifetime world next [] := by
  intro before hlife
  rw [List.append_nil]
  cases hlife with
  | waiting hidle hnobody hnone hactions =>
      exact .waiting (hrunning.trans hidle) (howner.elim id fun hsame => hsame.trans hnobody)
        (hfollowed.trans hnone) hactions
  | started owner hstarted hown hactions honly hthreads =>
      refine .started owner (hrunning.trans hstarted) ?_ hactions honly (hfollowed ▸ hthreads)
      rcases howner with hzero | hsame
      · exact Or.inl hzero
      · rw [hsame]
        exact hown

theorem KeepsLifetime.dispatch {hook : World → World × List SessionAction}
    (hhook : ∀ world, KeepsLifetime world (hook world).1 (hook world).2)
    (listeners : List Listener) (world : World) :
    KeepsLifetime world (dispatch hook listeners world).1
      (GumTVM.dispatch hook listeners world).2 := by
  induction listeners generalizing world with
  | nil => exact .of_same rfl (Or.inr rfl) rfl
  | cons listener rest ih => exact (hhook world).trans (ih _)

/-! ## Hooks -/

/-- The first matching call starts the one trace. -/
theorem tripDoCommandEnter_lifetime (tid : Nat) (x0 x1 x2 : BitVec 64) {world : World}
    (hidle : world.traceIsRunning = false) :
    KeepsLifetime world (tripDoCommandEnter world tid x0 x1 x2).1
      (tripDoCommandEnter world tid x0 x1 x2).2 := by
  rcases tripDoCommandEnter_cases world tid x0 x1 x2 with hnone | ⟨next, hnext, _, hsession⟩
  · rw [hnone]
    exact .of_same rfl (Or.inr rfl) rfl
  · rw [hnext]
    intro before hlife
    cases hlife with
    | waiting _ _ hnobody hactions =>
        have hfollowed : next.followed = [tid] := by
          have hsame : next.followed = tid :: world.followed :=
            congrArg SessionView.followed hsession
          rw [hsame, hnobody]
        subst hactions
        refine .started tid (congrArg SessionView.traceIsRunning hsession)
          (Or.inr (congrArg SessionView.traceTid hsession)) rfl (by simp) ?_
        intro other hother
        rw [hfollowed] at hother
        exact ⟨List.mem_singleton.mp hother, by simp⟩
    | started owner hrunning =>
        rw [hidle] at hrunning
        cases hrunning

theorem hookCommonEnter_lifetime (tid : Nat) (x0 x1 x2 : BitVec 64) (world : World) :
    KeepsLifetime world (hookCommonEnter tid x0 x1 x2 world).1
      (hookCommonEnter tid x0 x1 x2 world).2 := by
  have hcount : KeepsLifetime world
      (if world.manager.traceTid = tid then { world with tidCallSum := world.tidCallSum + 1 }
        else world) [] := by
    split <;> exact .of_same rfl (Or.inr rfl) rfl
  unfold hookCommonEnter
  split
  · dsimp only
    generalize (if world.manager.traceTid = tid then _ else _) = counted at hcount ⊢
    split
    next hidle => exact hcount.trans (tripDoCommandEnter_lifetime tid x0 x1 x2 hidle)
    next => exact hcount
  · exact .of_same rfl (Or.inr rfl) rfl

theorem stopTrace_lifetime {tid : Nat} (htid : tid ≠ 0) {world : World}
    (hown : world.manager.traceTid = tid) :
    KeepsLifetime world (stopTrace tid world).1 (stopTrace tid world).2 := by
  intro before hlife
  cases hlife with
  | waiting _ howner =>
      rw [howner] at hown
      exact absurd hown.symm htid
  | started owner hrunning howner hactions honly hthreads =>
      have hsame : tid = owner := by
        rcases howner with hzero | hthread
        · rw [hzero] at hown
          exact absurd hown.symm htid
        · exact hown.symm.trans hthread
      subst hsame
      refine .started tid hrunning (Or.inr hown) ?_ ?_ ?_
      · have hnone : (stopTrace tid world).2.filter SessionAction.isFollow = [] := by
          rw [List.filter_eq_nil_iff]
          intro action haction
          simp only [stopTrace, List.mem_append, List.mem_cons, Option.mem_toList,
            Option.map_eq_some_iff, List.not_mem_nil, or_false] at haction
          rcases haction with (rfl | rfl) | ⟨_, _, rfl⟩ <;> exact Bool.false_ne_true
        rw [List.filter_append, hactions, hnone, List.append_nil]
      · intro other hother
        rcases List.mem_append.mp hother with hbefore | hnow
        · exact honly other hbefore
        · simpa [stopTrace] using hnow
      · intro other hother
        obtain ⟨hmem, hne⟩ := List.mem_filter.mp hother
        rw [(hthreads other hmem).1] at hne
        simp at hne

theorem hookCommonLeave_lifetime {tid : Nat} (htid : tid ≠ 0) (world : World) :
    KeepsLifetime world (hookCommonLeave tid world).1 (hookCommonLeave tid world).2 := by
  unfold hookCommonLeave
  split
  next hown =>
    have hcount : KeepsLifetime world { world with tidCallSum := world.tidCallSum - 1 } [] :=
      .of_same rfl (Or.inr rfl) rfl
    dsimp only
    split
    · split
      · exact hcount.trans (stopTrace_lifetime htid hown)
      · exact hcount
    · exact hcount
  next => exact .of_same rfl (Or.inr rfl) rfl

/-! ## Runs -/

theorem gumTrace_traceTid (world : World) (call : GumTraceCall) :
    (gumTrace world call).manager.traceTid = 0 := by
  unfold gumTrace
  split
  next manager heq => exact init_traceTid heq
  next manager heq =>
    have htid := init_traceTid heq
    split
    · exact htid
    · exact htid

theorem step_lifetime {system next : System} {event : Event} {report : Report}
    (hids : system.callStack 0 = []) (hstep : system.step cs event = some (next, report)) :
    KeepsLifetime system.world next.world report.actions := by
  cases event with
  | gumTrace call =>
      obtain ⟨rfl, rfl⟩ := Prod.mk.inj (Option.some.inj hstep)
      exact .of_same (gumTrace_traceIsRunning _ call) (Or.inl (gumTrace_traceTid _ call))
        (gumTrace_followed _ call)
  | enter tid target x0 x1 x2 =>
      obtain ⟨_, _, hworld, rfl, _⟩ := step_enter_eq_some hstep
      rw [hworld]
      exact .dispatch (hookCommonEnter_lifetime tid x0 x1 x2) _ _
  | leave tid =>
      obtain ⟨_, _, hstack, _, hworld, rfl, _⟩ := step_leave_eq_some hstep
      have htid : tid ≠ 0 := by
        rintro rfl
        rw [hids] at hstack
        cases hstack
      rw [hworld]
      exact .dispatch (hookCommonLeave_lifetime htid) _ _
  | transform find block =>
      obtain ⟨hview, rfl, _⟩ := step_silent (Or.inl ⟨find, block, rfl⟩) hstep
      exact .of_same (congrArg SessionView.traceIsRunning hview)
        (Or.inr (congrArg SessionView.traceTid hview)) (congrArg SessionView.followed hview)
  | callback tid input =>
      obtain ⟨hview, rfl, _⟩ := step_silent (Or.inr ⟨tid, input, rfl⟩) hstep
      exact .of_same (congrArg SessionView.traceIsRunning hview)
        (Or.inr (congrArg SessionView.traceTid hview)) (congrArg SessionView.followed hview)

/-- Over runs that start behind a history the history goes on. -/
theorem Lifetime.step {log : List Report} {system next : System} {event : Event}
    {report : Report} (hids : system.IdsFresh log)
    (hlife : Lifetime (log.flatMap Report.actions) system.world)
    (hstep : system.step cs event = some (next, report)) :
    next.IdsFresh (log ++ [report]) ∧
      Lifetime ((log ++ [report]).flatMap Report.actions) next.world := by
  refine ⟨hids.step hstep, ?_⟩
  rw [List.flatMap_append, List.flatMap_singleton]
  exact step_lifetime hids.nonzero hstep _ hlife

theorem Lifetime.of_run {files : Files} {events : List Event} {system : System}
    {reports : List Report}
    (hrun : System.run cs (System.initial files) events = some (system, reports)) :
    system.IdsFresh reports ∧ Lifetime (reports.flatMap Report.actions) system.world := by
  refine runFrom_history_invariant (fun _ => True)
    (fun log current => current.IdsFresh log ∧
      Lifetime (log.flatMap Report.actions) current.world)
    ?_ (fun _ _ => trivial) ⟨System.initial_idsFresh files, .waiting rfl rfl rfl rfl⟩ hrun
  exact fun log current event next report _ hprior hstep => hprior.2.step hprior.1 hstep

/-- Over the life of a process one thread is followed at most, and once; callouts
run for that thread only, and only before it is unfollowed. -/
theorem one_session (files : Files) {events : List Event} {system : System}
    {reports : List Report}
    (hrun : System.run cs (System.initial files) events = some (system, reports)) :
    (reports.flatMap Report.actions).countP SessionAction.isFollow ≤ 1 ∧
      ∀ tid input next report, system.step cs (.callback tid input) = some (next, report) →
        SessionAction.follow tid ∈ reports.flatMap Report.actions ∧
          SessionAction.unfollow tid ∉ reports.flatMap Report.actions := by
  obtain ⟨-, hlife⟩ := Lifetime.of_run hrun
  refine ⟨?_, ?_⟩
  · rw [List.countP_eq_length_filter]
    cases hlife with
    | waiting _ _ _ hactions =>
        rw [hactions]
        exact Nat.zero_le 1
    | started owner _ _ hactions =>
        rw [hactions]
        exact Nat.le_refl 1
  · intro tid input next report hstep
    obtain ⟨_, _, htid, _⟩ := step_callback_eq_some hstep
    cases hlife with
    | waiting _ _ hnone =>
        rw [hnone] at htid
        cases htid
    | started owner _ _ hactions _ hthreads =>
        obtain ⟨rfl, hnever⟩ := hthreads tid htid
        have hmem : SessionAction.follow tid ∈
            (reports.flatMap Report.actions).filter SessionAction.isFollow := by
          rw [hactions]
          exact List.mem_singleton_self _
        exact ⟨List.mem_of_mem_filter hmem, hnever⟩

/-- The function is hooked again while thread 1 is traced, and thread 2 calls it. -/
def rehookedSession : List Event :=
  [.gumTrace sampleCall, .enter 1 0x1010 7 1 2, .gumTrace sampleCall, .enter 2 0x1010 7 1 2]

theorem one_session_rehooked :
    ∃ system next reports report,
      System.run .standard (System.initial fun _ => []) rehookedSession =
        some (system, reports) ∧
      system.step .standard (.callback 1 moveStep.callback) = some (next, report) ∧
      (reports.flatMap Report.actions).countP SessionAction.isFollow ≤ 1 ∧
      SessionAction.unfollow 1 ∉ reports.flatMap Report.actions := by
  obtain ⟨system, next, reports, report, hrun, hstep⟩ : ∃ system next reports report,
      System.run .standard (System.initial fun _ => []) rehookedSession =
        some (system, reports) ∧
      system.step .standard (.callback 1 moveStep.callback) = some (next, report) :=
    ⟨_, _, _, _, rfl, rfl⟩
  obtain ⟨honce, hcallouts⟩ := one_session _ hrun
  exact ⟨system, next, reports, report, hrun, hstep, honce, (hcallouts _ _ _ _ hstep).2⟩

/-! ## The trace file after the session -/

theorem gumTrace_files_empty {world : World} (call : GumTraceCall) {path : Text}
    (hempty : world.files path = []) : (gumTrace world call).files path = [] := by
  unfold gumTrace
  split
  · exact hempty
  · split
    · exact hempty
    next logger _ =>
      have hwritten : (logger.setEnableToFile world.files true call.traceFileName
          call.opens).2 path = [] := by
        unfold LoggerManager.setEnableToFile
        rw [if_pos rfl]
        split
        · dsimp only
          split
          · by_cases hpath : path = LoggerManager.traceDir ++ call.traceFileName
            · rw [hpath]
              exact Files.write_same _ _ _
            · exact (Function.update_of_ne hpath _ _).trans hempty
          · exact hempty
        · exact hempty
      exact hwritten

/-- Once a thread was unfollowed no callout runs, so an empty file stays empty. -/
theorem files_empty_after_end {system next : System} {event : Event} {report : Report}
    {path : Text} (hnone : system.world.followed = []) (hempty : system.world.files path = [])
    (hstep : system.step cs event = some (next, report)) : next.world.files path = [] := by
  cases event with
  | gumTrace call =>
      obtain ⟨rfl, rfl⟩ := Prod.mk.inj (Option.some.inj hstep)
      exact gumTrace_files_empty call hempty
  | enter tid target x0 x1 x2 =>
      rw [(step_hookFrame (by trivial) hstep).files]
      exact hempty
  | leave tid =>
      rw [(step_hookFrame (by trivial) hstep).files]
      exact hempty
  | transform find block =>
      obtain ⟨rfl, rfl⟩ := Prod.mk.inj (Option.some.inj hstep)
      exact hempty
  | callback tid input =>
      obtain ⟨_, _, hfollowed, _⟩ := step_callback_eq_some hstep
      rw [hnone] at hfollowed
      cases hfollowed

theorem Lifetime.followed_eq_nil {actions : List SessionAction} {world : World} {tid : Nat}
    (hlife : Lifetime actions world) (hended : SessionAction.unfollow tid ∈ actions) :
    world.followed = [] := by
  cases hlife with
  | waiting _ _ hnone => exact hnone
  | started owner _ _ _ honly hthreads =>
      rw [List.eq_nil_iff_forall_not_mem]
      intro other hother
      exact (hthreads other hother).2 (honly tid hended ▸ hended)

/-- A further call of `gum_trace` after the session, once it succeeds, leaves its
trace file empty for the rest of the process. -/
theorem trace_lost_after_end {files : Files} {events later : List Event} {system last : System}
    {reports laterReports : List Report} {call : GumTraceCall} {tid : Nat}
    (hrun : System.run cs (System.initial files) events = some (system, reports))
    (hended : SessionAction.unfollow tid ∈ reports.flatMap Report.actions)
    (hsucceeds : call.Succeeds)
    (hlater : System.run cs system (.gumTrace call :: later) = some (last, laterReports)) :
    last.world.files call.traceFile = [] := by
  obtain ⟨restarted, _, rest, hrestart, hrest, rfl⟩ := runFrom_cons_eq_some.mp hlater
  obtain ⟨rfl, rfl⟩ := Prod.mk.inj (Option.some.inj hrestart)
  have hempty : (gumTrace system.world call).files call.traceFile = [] := by
    rw [(gumTrace_succeeds system.world hsucceeds).2]
    exact Files.write_same _ _ _
  have hstart := (Lifetime.of_run hrun).2.step (Lifetime.of_run hrun).1 hrestart
  have hlast := runFrom_history_invariant (fun _ => True)
    (fun log current => (current.IdsFresh (reports ++ [Report.silent] ++ log) ∧
        Lifetime ((reports ++ [Report.silent] ++ log).flatMap Report.actions) current.world) ∧
      current.world.files call.traceFile = [])
    ?_ (fun _ _ => trivial) ⟨by rw [List.append_nil]; exact hstart, hempty⟩ hrest
  · exact hlast.2
  · rintro log current event next report - ⟨⟨hids, hlife⟩, hfile⟩ hstep
    have hmem : SessionAction.unfollow tid ∈
        (reports ++ [Report.silent] ++ log).flatMap Report.actions := by
      rw [List.append_assoc, List.flatMap_append]
      exact List.mem_append_left _ hended
    refine ⟨?_, files_empty_after_end (hlife.followed_eq_nil hmem) hfile hstep⟩
    rw [← List.append_assoc]
    exact hlife.step hids hstep

theorem trace_lost_after_end_recorded :
    ∃ system last reports laterReports,
      System.run .standard (System.initial fun _ => []) (.gumTrace sampleCall :: recordedSession) =
        some (system, reports) ∧
      system.world.files sampleCall.traceFile ≠ [] ∧
      System.run .standard system [.gumTrace sampleCall, .enter 1 0x1010 7 1 2] =
        some (last, laterReports) ∧
      last.world.files sampleCall.traceFile = [] := by
  obtain ⟨system, last, reports, laterReports, hrun, hrecorded, hended, hlater⟩ :
      ∃ system last reports laterReports,
        System.run .standard (System.initial fun _ => [])
          (.gumTrace sampleCall :: recordedSession) = some (system, reports) ∧
        (system.world.files sampleCall.traceFile ≠ []) ∧
        SessionAction.unfollow 1 ∈ reports.flatMap Report.actions ∧
        System.run .standard system [.gumTrace sampleCall, .enter 1 0x1010 7 1 2] =
          some (last, laterReports) := ⟨_, _, _, _, rfl, by decide, by decide, rfl⟩
  have hcall : sampleCall.Succeeds := ⟨⟨_, rfl, by decide⟩, rfl, rfl⟩
  exact ⟨system, last, reports, laterReports, hrun, hrecorded, hlater,
    trace_lost_after_end hrun hended hcall hlater⟩

end GumTVM
