import GumTVM.Session.SessionLaws

/-!
# The session invariant

A session is started by the first matching enter and ended by the leave of that
same invocation. Between the two, the depth counter is the number of open
invocations of the tracing thread counted from the starting one. The invariant
holds for any interleaving of threads, nested calls and earlier open invocations.
-/

namespace GumTVM

open Foundation

variable {cs : Capstone}

/-! ## What one event can do -/

theorem step_enter_eq_some {system next : System} {tid : Nat} {target x0 x1 x2 : BitVec 64}
    {report : Report}
    (hstep : system.step cs (.enter tid target x0 x1 x2) = some (next, report)) :
    tid ≠ 0 ∧ system.world.attachedAt target ≠ [] ∧
      next.world = (dispatch (hookCommonEnter tid x0 x1 x2)
        (system.world.attachedAt target) system.world).1 ∧
      report = .entered tid system.clock (dispatch (hookCommonEnter tid x0 x1 x2)
        (system.world.attachedAt target) system.world).2 ∧
      next.callStack = Function.update system.callStack tid
        (⟨system.clock, target⟩ :: system.callStack tid) ∧
      next.clock = system.clock + 1 := by
  simp only [System.step] at hstep
  split at hstep
  next => cases hstep
  next hattached =>
    obtain ⟨rfl, rfl⟩ := Prod.mk.inj (Option.some.inj hstep)
    obtain ⟨htid, hne⟩ := not_or.mp hattached
    exact ⟨htid, hne, rfl, rfl, rfl, rfl⟩

theorem step_leave_eq_some {system next : System} {tid : Nat} {report : Report}
    (hstep : system.step cs (.leave tid) = some (next, report)) :
    ∃ invocation rest, system.callStack tid = invocation :: rest ∧
      system.world.attachedAt invocation.target ≠ [] ∧
      next.world = (dispatch (hookCommonLeave tid)
        (system.world.attachedAt invocation.target) system.world).1 ∧
      report = .left tid invocation.id (dispatch (hookCommonLeave tid)
        (system.world.attachedAt invocation.target) system.world).2 ∧
      next.callStack = Function.update system.callStack tid rest ∧
      next.clock = system.clock := by
  simp only [System.step] at hstep
  split at hstep
  next => cases hstep
  next invocation rest hstack =>
    split at hstep
    next => cases hstep
    next hne =>
      obtain ⟨rfl, rfl⟩ := Prod.mk.inj (Option.some.inj hstep)
      exact ⟨invocation, rest, hstack, hne, rfl, rfl, rfl, rfl⟩

/-- A callout runs for a followed thread, with the log open. -/
theorem step_callback_eq_some {system next : System} {tid : Nat} {input : CallbackInput}
    {report : Report} (hstep : system.step cs (.callback tid input) = some (next, report)) :
    ∃ logger result, tid ∈ system.world.followed ∧
      system.world.manager.logger = some logger ∧
      instructionCallback cs input.proc system.world.manager input.ctx input.info =
        some result ∧
      next = { system with world := { system.world with
        manager := result.self
        files := logger.writeInfo system.world.files result.record.outInfo } } ∧
      report = .silent := by
  simp only [System.step] at hstep
  split at hstep
  next hfollowed =>
    obtain ⟨world, hcallout, heq⟩ := Option.map_eq_some_iff.mp hstep
    obtain ⟨rfl, rfl⟩ := Prod.mk.inj heq
    obtain ⟨logger, hlogger, hcall⟩ := Option.bind_eq_some_iff.mp hcallout
    obtain ⟨result, hresult, rfl⟩ := Option.map_eq_some_iff.mp hcall
    exact ⟨logger, result, hfollowed, hlogger, hresult, rfl, rfl⟩
  next => cases hstep

/-- Compiling a block or running a callout leaves the session and the call
stacks as they are. -/
theorem step_silent {system next : System} {event : Event} {report : Report}
    (hevent : (∃ find block, event = .transform find block) ∨
      ∃ tid input, event = .callback tid input)
    (hstep : system.step cs event = some (next, report)) :
    next.world.session = system.world.session ∧ report = .silent ∧
      next.callStack = system.callStack ∧ next.clock = system.clock := by
  rcases hevent with ⟨find, block, rfl⟩ | ⟨tid, input, rfl⟩
  · obtain ⟨rfl, rfl⟩ := Prod.mk.inj (Option.some.inj hstep)
    exact ⟨transform_session system.world find block, rfl, rfl, rfl⟩
  · simp only [System.step] at hstep
    split at hstep
    next =>
      obtain ⟨world, hcallout, heq⟩ := Option.map_eq_some_iff.mp hstep
      obtain ⟨rfl, rfl⟩ := Prod.mk.inj heq
      exact ⟨runCallout_session hcallout, rfl, rfl, rfl⟩
    next => cases hstep

/-! ## Identities of invocations -/

/-- Every invocation that is open or has left was numbered by the clock, and
threads have non-zero ids. -/
structure System.IdsFresh (reports : List Report) (system : System) : Prop where
  nonzero : system.callStack 0 = []
  opened : ∀ tid, ∀ invocation ∈ system.callStack tid, invocation.id < system.clock
  closed : ∀ tid id actions, Report.left tid id actions ∈ reports → id < system.clock

theorem System.IdsFresh.silent {reports : List Report} {system next : System}
    (hfresh : system.IdsFresh reports) (hstack : next.callStack = system.callStack)
    (hclock : next.clock = system.clock) : next.IdsFresh (reports ++ [.silent]) := by
  refine ⟨?_, ?_, ?_⟩
  · rw [hstack, hfresh.nonzero]
  · rw [hstack, hclock]
    exact hfresh.opened
  · intro tid id actions hmem
    rw [hclock]
    exact hfresh.closed tid id actions (by simpa using hmem)

theorem System.IdsFresh.step {reports : List Report} {system next : System} {event : Event}
    {report : Report} (hfresh : system.IdsFresh reports)
    (hstep : system.step cs event = some (next, report)) :
    next.IdsFresh (reports ++ [report]) := by
  cases event with
  | gumTrace call =>
      obtain ⟨rfl, rfl⟩ := Prod.mk.inj (Option.some.inj hstep)
      exact hfresh.silent rfl rfl
  | enter tid target x0 x1 x2 =>
      obtain ⟨htid, _, _, hreport, hstack, hclock⟩ := step_enter_eq_some hstep
      refine ⟨?_, ?_, ?_⟩
      · rw [hstack, Function.update_of_ne htid.symm, hfresh.nonzero]
      · intro other invocation hmem
        rw [hclock]
        by_cases hother : other = tid
        · subst other
          rw [hstack, Function.update_self] at hmem
          rcases List.mem_cons.mp hmem with rfl | hmem
          · exact Nat.lt_succ_self _
          · exact Nat.lt_succ_of_lt (hfresh.opened tid invocation hmem)
        · rw [hstack, Function.update_of_ne hother] at hmem
          exact Nat.lt_succ_of_lt (hfresh.opened other invocation hmem)
      · intro other id actions hmem
        rw [hclock]
        subst report
        exact Nat.lt_succ_of_lt (hfresh.closed other id actions (by simpa using hmem))
  | leave tid =>
      obtain ⟨invocation, rest, hopen, _, _, hreport, hstack, hclock⟩ := step_leave_eq_some hstep
      refine ⟨?_, ?_, ?_⟩
      · have htid : tid ≠ 0 := by
          intro heq
          rw [heq, hfresh.nonzero] at hopen
          cases hopen
        rw [hstack, Function.update_of_ne htid.symm, hfresh.nonzero]
      · intro other inner hmem
        rw [hclock]
        by_cases hother : other = tid
        · subst other
          rw [hstack, Function.update_self] at hmem
          exact hfresh.opened tid inner (hopen ▸ List.mem_cons_of_mem _ hmem)
        · rw [hstack, Function.update_of_ne hother] at hmem
          exact hfresh.opened other inner hmem
      · intro other id actions hmem
        rw [hclock]
        rcases List.mem_append.mp hmem with hmem | hmem
        · exact hfresh.closed other id actions hmem
        · rw [List.mem_singleton, hreport] at hmem
          obtain ⟨-, rfl, -⟩ := Report.left.inj hmem
          exact hfresh.opened tid invocation (hopen ▸ List.mem_cons_self)
  | transform find block =>
      obtain ⟨_, rfl, hstack, hclock⟩ := step_silent (Or.inl ⟨find, block, rfl⟩) hstep
      exact hfresh.silent hstack hclock
  | callback tid input =>
      obtain ⟨_, rfl, hstack, hclock⟩ := step_silent (Or.inr ⟨tid, input, rfl⟩) hstep
      exact hfresh.silent hstack hclock

theorem System.initial_idsFresh (files : Files) : (System.initial files).IdsFresh [] := by
  refine ⟨rfl, ?_, ?_⟩
  · intro tid invocation hmem
    cases hmem
  · intro tid id actions hmem
    cases hmem

theorem System.start_idsFresh (files : Files) (call : GumTraceCall) :
    (System.start files call).IdsFresh [] :=
  ⟨rfl, (System.initial_idsFresh files).opened, (System.initial_idsFresh files).closed⟩

/-! ## The session invariant -/

/-- No report of the list carries an action. -/
def Quiet (reports : List Report) : Prop := ∀ report ∈ reports, report.actions = []

theorem Quiet.snoc {reports : List Report} {report : Report} (hquiet : Quiet reports)
    (hreport : report.actions = []) : Quiet (reports ++ [report]) := by
  intro other hother
  rcases List.mem_append.mp hother with hother | hother
  · exact hquiet other hother
  · rw [List.mem_singleton.mp hother]
    exact hreport

/-- The invocation `id` of thread `tid` called `follow` on entry and has not
left; nothing else happened. -/
def Started (reports : List Report) (tid id : Nat) : Prop :=
  ∃ before after, reports = before ++ .entered tid id [.follow tid] :: after ∧
    Quiet (before ++ after) ∧ ∀ actions, Report.left tid id actions ∉ before ++ after

/-- The invocation `id` of thread `tid` called `follow` on entry and ended the
session when it left; nothing else happened. -/
def Ended (start : SessionView) (reports : List Report) (tid id : Nat) : Prop :=
  ∃ before middle after, reports = before ++ .entered tid id [.follow tid] ::
      (middle ++ .left tid id (stopActions tid start) :: after) ∧
    Quiet (before ++ middle ++ after) ∧
    ∀ actions, Report.left tid id actions ∉ before ++ middle ++ after

theorem Started.snoc {reports : List Report} {tid id : Nat} {report : Report}
    (hstarted : Started reports tid id) (hreport : report.actions = [])
    (hother : ∀ actions, report ≠ .left tid id actions) :
    Started (reports ++ [report]) tid id := by
  obtain ⟨before, after, rfl, hquiet, hopen⟩ := hstarted
  refine ⟨before, after ++ [report], by simp, ?_, ?_⟩
  · rw [← List.append_assoc]
    exact hquiet.snoc hreport
  · intro actions hmem
    rw [← List.append_assoc, List.mem_append, List.mem_singleton] at hmem
    exact hmem.elim (hopen actions) (fun heq => hother actions heq.symm)

theorem Started.stop {reports : List Report} {tid id : Nat} (hstarted : Started reports tid id)
    (start : SessionView) :
    Ended start (reports ++ [.left tid id (stopActions tid start)]) tid id := by
  obtain ⟨before, after, rfl, hquiet, hopen⟩ := hstarted
  exact ⟨before, after, [], by simp, by simpa using hquiet, by simpa using hopen⟩

theorem Ended.silent {start : SessionView} {reports : List Report} {tid id : Nat}
    (hended : Ended start reports tid id) : Ended start (reports ++ [.silent]) tid id := by
  obtain ⟨before, middle, after, rfl, hquiet, hopen⟩ := hended
  refine ⟨before, middle, after ++ [.silent], by simp, ?_, ?_⟩
  · rw [← List.append_assoc]
    exact hquiet.snoc rfl
  · intro actions
    simpa using hopen actions

/-- The three phases of the only session: not started, running for the
invocation `id` of thread `tid`, and ended by the leave of that invocation. -/
inductive SessionInvariant (start : SessionView) (reports : List Report) (system : System) : Prop
  | idle (hview : system.world.session = start) (hquiet : Quiet reports)
  | active (tid id : Nat) (target : BitVec 64) (above below : List Invocation)
      (hreports : Started reports tid id)
      (hview : system.world.session = { start with
        traceIsRunning := true, traceTid := tid, tidCallSum := above.length + 1
        followed := [tid] })
      (hstack : system.callStack tid = above ++ ⟨id, target⟩ :: below)
      (habove : ∀ invocation ∈ above, id < invocation.id)
  | ended (tid id : Nat) (hreports : Ended start reports tid id)
      (hlisteners : system.world.session.listeners = [])
      (hfollowed : system.world.session.followed = [])
      (hfile : system.world.session.openFile = none)

namespace SessionInvariant

variable {start : SessionView} {reports : List Report} {system next : System}

theorem silent (hinv : SessionInvariant start reports system)
    (hview : next.world.session = system.world.session)
    (hstack : next.callStack = system.callStack) :
    SessionInvariant start (reports ++ [.silent]) next := by
  cases hinv with
  | idle hprior hquiet => exact .idle (hview.trans hprior) (hquiet.snoc rfl)
  | active tid id target above below hreports hprior hopen habove =>
      exact .active tid id target above below (hreports.snoc rfl (by simp))
        (hview.trans hprior) (by rw [hstack, hopen]) habove
  | ended tid id hreports hlisteners hfollowed hfile =>
      exact .ended tid id hreports.silent (by rw [hview, hlisteners])
        (by rw [hview, hfollowed]) (by rw [hview, hfile])

/-- While the session is not over the only listener is the manager's own, so
every delivered event reaches the hook once. -/
theorem dispatch_eq {world : World} {target : BitVec 64} (hfresh : start.Fresh)
    (hlisteners : world.listeners = start.listeners)
    (hattached : world.attachedAt target ≠ [])
    (hook : World → World × List SessionAction) :
    dispatch hook (world.attachedAt target) world = hook world := by
  rcases hfresh.listeners with hnone | ⟨listener, hsingle, _⟩
  · simp [World.attachedAt, hlisteners, hnone] at hattached
  · unfold World.attachedAt at hattached ⊢
    rw [hlisteners, hsingle] at hattached ⊢
    by_cases htarget : listener.target = target
    · simp [htarget, dispatch]
    · simp [htarget] at hattached

theorem attachedAt_eq_nil {world : World} {target : BitVec 64}
    (hlisteners : world.session.listeners = []) : world.attachedAt target = [] := by
  have hworld : world.listeners = [] := hlisteners
  simp [World.attachedAt, hworld]

theorem enter (hfresh : start.Fresh) (hids : system.IdsFresh reports)
    (hinv : SessionInvariant start reports system) {tid : Nat} {target x0 x1 x2 : BitVec 64}
    {report : Report} (hstep : system.step cs (.enter tid target x0 x1 x2) = some (next, report)) :
    SessionInvariant start (reports ++ [report]) next := by
  obtain ⟨htid, hattached, hworld, rfl, hstack, _⟩ := step_enter_eq_some hstep
  cases hinv with
  | idle hview hquiet =>
      have hidle : system.world.traceIsRunning = false :=
        (congrArg SessionView.traceIsRunning hview).trans hfresh.traceIsRunning
      have hreset : system.world.manager.traceTid = 0 :=
        (congrArg SessionView.traceTid hview).trans hfresh.traceTid
      rw [dispatch_eq hfresh (congrArg SessionView.listeners hview) hattached,
        hookCommonEnter_idle hidle hreset htid] at hworld ⊢
      rcases tripDoCommandEnter_cases system.world tid x0 x1 x2 with
        hnone | ⟨started, hfollow, _, hsession⟩
      · rw [hnone] at hworld ⊢
        exact .idle (by rw [hworld, hview]) (hquiet.snoc rfl)
      · -- the session starts with this invocation
        rw [hfollow] at hworld ⊢
        have hfollowed : system.world.followed = [] :=
          (congrArg SessionView.followed hview).trans hfresh.followed
        refine .active tid system.clock target [] (system.callStack tid) ?_ ?_ ?_ (by simp)
        · refine ⟨reports, [], rfl, by simpa using hquiet, ?_⟩
          intro actions hmem
          exact Nat.lt_irrefl _ (hids.closed tid system.clock actions (by simpa using hmem))
        · rw [hworld, hsession, hview, hfollowed]
          simp [hfresh.tidCallSum]
        · rw [hstack, Function.update_self]
          rfl
  | active owner id opened above below hreports hview hopen habove =>
      have hlisteners : system.world.listeners = start.listeners :=
        congrArg SessionView.listeners hview
      have hrunning : system.world.traceIsRunning = true :=
        congrArg SessionView.traceIsRunning hview
      have howner : system.world.manager.traceTid = owner := congrArg SessionView.traceTid hview
      rw [dispatch_eq hfresh hlisteners hattached] at hworld ⊢
      by_cases hown : owner = tid
      · -- a nested call of the tracing thread: one more open invocation
        subst hown
        rw [hookCommonEnter_own hrunning howner] at hworld ⊢
        refine .active owner id opened (⟨system.clock, target⟩ :: above) below
          (hreports.snoc rfl (by simp)) ?_ ?_ ?_
        · have hsum : system.world.tidCallSum = above.length + 1 :=
            congrArg SessionView.tidCallSum hview
          have hnested : next.world.session = { system.world.session with
              tidCallSum := system.world.tidCallSum + 1 } := by rw [hworld]; rfl
          rw [hnested, hview, hsum]
          simp
        · rw [hstack, Function.update_self, hopen]
          rfl
        · intro invocation hmem
          rcases List.mem_cons.mp hmem with rfl | hmem
          · exact hids.opened owner ⟨id, opened⟩ (by simp [hopen])
          · exact habove invocation hmem
      · rw [hookCommonEnter_other hrunning (howner ▸ hown)] at hworld ⊢
        refine .active owner id opened above below (hreports.snoc rfl (by simp))
          (by rw [hworld, hview]) ?_ habove
        rw [hstack, Function.update_of_ne hown, hopen]
  | ended owner id hreports hlisteners hfollowed hfile =>
      exact absurd (attachedAt_eq_nil hlisteners) hattached

/-- The leave that brings the counter back to zero unfollows the thread, detaches
the listener and closes the file of the session. -/
theorem hookCommonLeave_starting {world : World} {owner : Nat} (hfresh : start.Fresh)
    (hview : world.session = { start with
      traceIsRunning := true, traceTid := owner, tidCallSum := 1, followed := [owner] }) :
    ∃ stopped, hookCommonLeave owner world = (stopped, stopActions owner start) ∧
      stopped.session.listeners = [] ∧ stopped.session.followed = [] ∧
      stopped.session.openFile = none := by
  have howner : world.manager.traceTid = owner := congrArg SessionView.traceTid hview
  have hsum : world.tidCallSum = 1 := congrArg SessionView.tidCallSum hview
  have hrepeat : world.repeatTrace = false :=
    (congrArg SessionView.repeatTrace hview).trans hfresh.repeatTrace
  have hlistener : world.manager.commonInvocationListener = start.commonInvocationListener :=
    congrArg SessionView.commonInvocationListener hview
  have hlisteners : world.listeners = start.listeners := congrArg SessionView.listeners hview
  have hfollowed : world.followed = [owner] := congrArg SessionView.followed hview
  have hactions : stopActions owner world.session = stopActions owner start := by
    rw [hview]
    rfl
  refine ⟨(stopTrace owner { world with tidCallSum := 0 }).1, ?_, ?_, ?_, ?_⟩
  · rw [hookCommonLeave_last howner hsum hrepeat, ← hactions]
    rfl
  · rw [stopTrace_session]
    simp only [hlistener, hlisteners]
    rcases hfresh.listeners with hnone | ⟨listener, hsingle, hid⟩
    · simp [hnone]
    · simp [hsingle, hid]
  · rw [stopTrace_session]
    simp [hfollowed]
  · rw [stopTrace_session]

theorem leave (hfresh : start.Fresh) (hids : system.IdsFresh reports)
    (hinv : SessionInvariant start reports system) {tid : Nat} {report : Report}
    (hstep : system.step cs (.leave tid) = some (next, report)) :
    SessionInvariant start (reports ++ [report]) next := by
  obtain ⟨top, rest, htop, hattached, hworld, rfl, hstack, _⟩ := step_leave_eq_some hstep
  have htid : tid ≠ 0 := by
    intro heq
    rw [heq, hids.nonzero] at htop
    cases htop
  cases hinv with
  | idle hview hquiet =>
      have hreset : system.world.manager.traceTid = 0 :=
        (congrArg SessionView.traceTid hview).trans hfresh.traceTid
      rw [dispatch_eq hfresh (congrArg SessionView.listeners hview) hattached,
        hookCommonLeave_other (by rw [hreset]; exact htid.symm)] at hworld ⊢
      exact .idle (by rw [hworld, hview]) (hquiet.snoc rfl)
  | active owner id opened above below hreports hview hopen habove =>
      have hlisteners : system.world.listeners = start.listeners :=
        congrArg SessionView.listeners hview
      have howner : system.world.manager.traceTid = owner := congrArg SessionView.traceTid hview
      have hsum : system.world.tidCallSum = above.length + 1 :=
        congrArg SessionView.tidCallSum hview
      rw [dispatch_eq hfresh hlisteners hattached] at hworld ⊢
      by_cases hown : owner = tid
      · subst hown
        rw [htop] at hopen
        cases above with
        | nil =>
            -- the starting invocation itself leaves
            obtain ⟨rfl, rfl⟩ := List.cons.inj hopen
            obtain ⟨stopped, hleave, hnone, hfollowed, hfile⟩ :=
              hookCommonLeave_starting hfresh (by simpa using hview)
            rw [hleave] at hworld ⊢
            exact .ended owner id (hreports.stop start) (by rw [hworld, hnone])
              (by rw [hworld, hfollowed]) (by rw [hworld, hfile])
        | cons nested above =>
            -- a nested invocation leaves and the counter stays positive
            obtain ⟨rfl, rfl⟩ := List.cons.inj hopen
            have hdepth : system.world.tidCallSum ≠ 1 := by
              rw [hsum, List.length_cons]
              omega
            rw [hookCommonLeave_inner howner hdepth] at hworld ⊢
            refine .active owner id opened above below (hreports.snoc rfl ?_) ?_ ?_ ?_
            · intro actions heq
              obtain ⟨-, hid, -⟩ := Report.left.inj heq
              exact absurd hid (Nat.ne_of_gt (habove top List.mem_cons_self))
            · have hinner : next.world.session = { system.world.session with
                  tidCallSum := system.world.tidCallSum - 1 } := by rw [hworld]; rfl
              rw [hinner, hview, hsum]
              simp
            · rw [hstack, Function.update_self]
              rfl
            · exact fun invocation hmem => habove invocation (List.mem_cons_of_mem _ hmem)
      · rw [hookCommonLeave_other (howner ▸ hown)] at hworld ⊢
        refine .active owner id opened above below (hreports.snoc rfl ?_)
          (by rw [hworld, hview]) ?_ habove
        · intro actions heq
          exact hown (Report.left.inj heq).1.symm
        · rw [hstack, Function.update_of_ne hown, hopen]
  | ended owner id hreports hlisteners hfollowed hfile =>
      exact absurd (attachedAt_eq_nil hlisteners) hattached

theorem step (hfresh : start.Fresh) (hids : system.IdsFresh reports)
    (hinv : SessionInvariant start reports system) {event : Event} {report : Report}
    (hevent : ∀ call, event ≠ .gumTrace call)
    (hstep : system.step cs event = some (next, report)) :
    SessionInvariant start (reports ++ [report]) next := by
  cases event with
  | gumTrace call => exact absurd rfl (hevent call)
  | enter tid target x0 x1 x2 => exact enter hfresh hids hinv hstep
  | leave tid => exact leave hfresh hids hinv hstep
  | transform find block =>
      obtain ⟨hview, rfl, hstack, _⟩ := step_silent (Or.inl ⟨find, block, rfl⟩) hstep
      exact hinv.silent hview hstack
  | callback tid input =>
      obtain ⟨hview, rfl, hstack, _⟩ := step_silent (Or.inr ⟨tid, input, rfl⟩) hstep
      exact hinv.silent hview hstack

/-- The invariant holds after every run in which `gum_trace` is not called again. -/
theorem of_run (hfresh : start.Fresh) (hview : system.world.session = start)
    (hids : system.IdsFresh []) {events : List Event}
    (hevents : ∀ event ∈ events, ∀ call, event ≠ .gumTrace call)
    (hrun : System.run cs system events = some (next, reports)) :
    SessionInvariant start reports next := by
  have hboth := runFrom_history_invariant (fun event => ∀ call, event ≠ Event.gumTrace call)
    (fun log current => current.IdsFresh log ∧ SessionInvariant start log current) ?_
    hevents ⟨hids, .idle hview (by simp [Quiet])⟩ hrun
  · exact hboth.2
  · rintro log current event following report hevent ⟨hids, hinv⟩ hstep
    exact ⟨hids.step hstep, hinv.step hfresh hids hevent hstep⟩

end SessionInvariant

end GumTVM
