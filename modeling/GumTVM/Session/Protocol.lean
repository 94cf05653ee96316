import GumTVM.Session.Invariant

/-!
# The trace-session protocol

What an observer of a run can rely on: one thread is followed at most once, the
depth counter counts the open invocations of that thread from the starting one,
and the leave of the starting invocation, and no other event, ends the session.
-/

namespace GumTVM

open Foundation

variable {cs : Capstone}

/-! ## The protocol -/

def SessionAction.isFollow : SessionAction → Bool
  | .follow _ => true
  | _ => false

/-- Unfollowing, detaching the hook and closing the trace file. -/
def SessionAction.isStop : SessionAction → Bool
  | .follow _ => false
  | _ => true

/-- The enter of invocation `id` of thread `tid` called `follow`. -/
def Follows (reports : List Report) (tid id : Nat) : Prop :=
  ∃ actions, Report.entered tid id actions ∈ reports ∧ SessionAction.follow tid ∈ actions

/-- The session protocol, for a session that starts in the view `start`. -/
structure SessionProtocol (start : SessionView) (reports : List Report) (system : System) :
    Prop where
  /-- `follow` is called at most once. -/
  follow_once : (reports.flatMap Report.actions).countP SessionAction.isFollow ≤ 1
  /-- From then until the session stops, the counter is the number of open
  invocations of the tracing thread counted from the one that called `follow`. -/
  depth : ∀ tid id, Follows reports tid id →
    (∀ report ∈ reports, ∀ action ∈ report.actions, action.isStop = false) →
    ∃ target above below, system.callStack tid = above ++ ⟨id, target⟩ :: below ∧
      system.world.tidCallSum = above.length + 1
  /-- The leave of that invocation performs all the stop actions. -/
  stop_at_leave : ∀ tid id actions, Follows reports tid id →
    Report.left tid id actions ∈ reports → actions = stopActions tid start
  /-- No other event performs any. -/
  stop_only : ∀ report ∈ reports, ∀ action ∈ report.actions, action.isStop = true →
    ∃ tid id actions, report = .left tid id actions ∧ Follows reports tid id
  /-- While that invocation is open, tracing goes on. -/
  running : ∀ tid id, Follows reports tid id →
    (∀ actions, Report.left tid id actions ∉ reports) →
    system.world.followed = [tid] ∧ system.world.listeners = start.listeners ∧
      system.world.openFile = start.openFile
  /-- Once it has left, nothing is followed, hooked or open any more. -/
  stopped : ∀ tid id actions, Follows reports tid id → Report.left tid id actions ∈ reports →
    system.world.followed = [] ∧ system.world.listeners = [] ∧ system.world.openFile = none

theorem Quiet.actions_eq_nil {reports : List Report} (hquiet : Quiet reports) :
    reports.flatMap Report.actions = [] := by
  rw [List.flatMap_eq_nil_iff]
  exact hquiet

theorem Started.mem_cases {reports : List Report} {tid id : Nat} {report : Report}
    (hstarted : Started reports tid id) (hmem : report ∈ reports) :
    report = .entered tid id [.follow tid] ∨
      report.actions = [] ∧ ∀ actions, report ≠ .left tid id actions := by
  obtain ⟨before, after, rfl, hquiet, hopen⟩ := hstarted
  by_cases hother : report ∈ before ++ after
  · exact Or.inr ⟨hquiet report hother, fun actions heq => hopen actions (heq ▸ hother)⟩
  · simp only [List.mem_append, List.mem_cons] at hmem hother
    tauto

theorem Ended.mem_cases {start : SessionView} {reports : List Report} {tid id : Nat}
    {report : Report} (hended : Ended start reports tid id) (hmem : report ∈ reports) :
    report = .entered tid id [.follow tid] ∨ report = .left tid id (stopActions tid start) ∨
      report.actions = [] ∧ ∀ actions, report ≠ .left tid id actions := by
  obtain ⟨before, middle, after, rfl, hquiet, hopen⟩ := hended
  by_cases hother : report ∈ before ++ middle ++ after
  · exact Or.inr (Or.inr ⟨hquiet report hother, fun actions heq => hopen actions (heq ▸ hother)⟩)
  · simp only [List.mem_append, List.mem_cons] at hmem hother
    tauto

theorem stopActions_isStop {tid : Nat} {start : SessionView} {action : SessionAction}
    (haction : action ∈ stopActions tid start) : action.isStop = true := by
  simp only [stopActions, List.mem_append, List.mem_cons, Option.mem_toList, Option.map_eq_some_iff,
    List.not_mem_nil, or_false] at haction
  rcases haction with (rfl | rfl) | ⟨_, _, rfl⟩ <;> rfl

theorem not_follows_of_quiet {reports : List Report} (hquiet : Quiet reports) {tid id : Nat} :
    ¬ Follows reports tid id := by
  intro hfollows
  obtain ⟨actions, hmem, hfollow⟩ := hfollows
  rw [show actions = [] from hquiet _ hmem] at hfollow
  cases hfollow

theorem Started.follows_iff {reports : List Report} {tid id owner opened : Nat}
    (hstarted : Started reports owner opened) :
    Follows reports tid id ↔ tid = owner ∧ id = opened := by
  constructor
  · intro hfollows
    obtain ⟨actions, hmem, hfollow⟩ := hfollows
    rcases hstarted.mem_cases hmem with heq | ⟨hnone, _⟩
    · obtain ⟨rfl, rfl, -⟩ := Report.entered.inj heq
      exact ⟨rfl, rfl⟩
    · rw [show actions = [] from hnone] at hfollow
      cases hfollow
  · intro hsame
    obtain ⟨rfl, rfl⟩ := hsame
    obtain ⟨before, after, rfl, _⟩ := hstarted
    exact ⟨[.follow tid], by simp, by simp⟩

theorem Ended.follows_iff {start : SessionView} {reports : List Report}
    {tid id owner opened : Nat} (hended : Ended start reports owner opened) :
    Follows reports tid id ↔ tid = owner ∧ id = opened := by
  constructor
  · intro hfollows
    obtain ⟨actions, hmem, hfollow⟩ := hfollows
    rcases hended.mem_cases hmem with heq | heq | ⟨hnone, _⟩
    · obtain ⟨rfl, rfl, -⟩ := Report.entered.inj heq
      exact ⟨rfl, rfl⟩
    · cases heq
    · rw [show actions = [] from hnone] at hfollow
      cases hfollow
  · intro hsame
    obtain ⟨rfl, rfl⟩ := hsame
    obtain ⟨before, middle, after, rfl, _⟩ := hended
    exact ⟨[.follow tid], by simp, by simp⟩

theorem Started.follow_once {reports : List Report} {tid id : Nat}
    (hstarted : Started reports tid id) :
    (reports.flatMap Report.actions).countP SessionAction.isFollow ≤ 1 := by
  obtain ⟨before, after, rfl, hquiet, _⟩ := hstarted
  have hnone := hquiet.actions_eq_nil
  rw [List.flatMap_append, List.append_eq_nil_iff] at hnone
  simp [hnone.1, hnone.2, Report.actions, SessionAction.isFollow]

theorem Ended.follow_once {start : SessionView} {reports : List Report} {tid id : Nat}
    (hended : Ended start reports tid id) :
    (reports.flatMap Report.actions).countP SessionAction.isFollow ≤ 1 := by
  obtain ⟨before, middle, after, rfl, hquiet, _⟩ := hended
  have hnone := hquiet.actions_eq_nil
  rw [List.flatMap_append, List.flatMap_append, List.append_eq_nil_iff,
    List.append_eq_nil_iff] at hnone
  have hstops : (stopActions tid start).countP SessionAction.isFollow = 0 := by
    rw [List.countP_eq_zero]
    intro action haction hfollow
    have hstop := stopActions_isStop haction
    cases action with
    | follow _ => cases hstop
    | unfollow _ | detach _ | closeFile _ => cases hfollow
  simp only [List.flatMap_append, List.flatMap_cons, hnone.1.1, hnone.1.2, hnone.2,
    Report.actions, List.nil_append, List.append_nil, List.countP_append, hstops]
  simp [SessionAction.isFollow]

/-- Before anything is followed the protocol asks for nothing. -/
theorem Quiet.protocol {reports : List Report} (hquiet : Quiet reports) (start : SessionView)
    (system : System) : SessionProtocol start reports system := by
  refine ⟨by simp [hquiet.actions_eq_nil], ?_, ?_, ?_, ?_, ?_⟩
  · exact fun tid id hfollows => absurd hfollows (not_follows_of_quiet hquiet)
  · exact fun tid id actions hfollows => absurd hfollows (not_follows_of_quiet hquiet)
  · intro report hmem action haction
    rw [hquiet report hmem] at haction
    cases haction
  · exact fun tid id hfollows => absurd hfollows (not_follows_of_quiet hquiet)
  · exact fun tid id actions hfollows => absurd hfollows (not_follows_of_quiet hquiet)

/-- While the starting invocation is open it is on its thread's stack, below as
many invocations as the counter counts further. -/
theorem Started.protocol {start : SessionView} {reports : List Report} {system : System}
    {owner opened : Nat} {target : BitVec 64} {above below : List Invocation}
    (hstarted : Started reports owner opened)
    (hview : system.world.session = { start with
      traceIsRunning := true, traceTid := owner, tidCallSum := above.length + 1
      followed := [owner] })
    (hstack : system.callStack owner = above ++ ⟨opened, target⟩ :: below) :
    SessionProtocol start reports system := by
  have hleft (actions : List SessionAction) : Report.left owner opened actions ∉ reports := by
    intro hmem
    rcases hstarted.mem_cases hmem with heq | ⟨_, hopen⟩
    · cases heq
    · exact hopen actions rfl
  refine ⟨hstarted.follow_once, ?_, ?_, ?_, ?_, ?_⟩
  · intro tid id hfollows _
    obtain ⟨rfl, rfl⟩ := hstarted.follows_iff.mp hfollows
    exact ⟨target, above, below, hstack, congrArg SessionView.tidCallSum hview⟩
  · intro tid id actions hfollows hmem
    obtain ⟨rfl, rfl⟩ := hstarted.follows_iff.mp hfollows
    exact absurd hmem (hleft actions)
  · intro report hmem action haction hstop
    rcases hstarted.mem_cases hmem with rfl | ⟨hnone, _⟩
    · rw [List.mem_singleton.mp haction] at hstop
      cases hstop
    · rw [hnone] at haction
      cases haction
  · intro tid id hfollows _
    obtain ⟨rfl, rfl⟩ := hstarted.follows_iff.mp hfollows
    exact ⟨congrArg SessionView.followed hview, congrArg SessionView.listeners hview,
      congrArg SessionView.openFile hview⟩
  · intro tid id actions hfollows hmem
    obtain ⟨rfl, rfl⟩ := hstarted.follows_iff.mp hfollows
    exact absurd hmem (hleft actions)

/-- After the session nothing is left of it but the reports. -/
theorem Ended.protocol {start : SessionView} {reports : List Report} {system : System}
    {owner opened : Nat} (hended : Ended start reports owner opened)
    (hstopped : system.world.followed = [] ∧ system.world.listeners = [] ∧
      system.world.openFile = none) : SessionProtocol start reports system := by
  have hlast : Report.left owner opened (stopActions owner start) ∈ reports := by
    obtain ⟨before, middle, after, rfl, _⟩ := hended
    simp
  refine ⟨hended.follow_once, ?_, ?_, ?_, ?_, ?_⟩
  · intro tid id _ hnever
    have hstop := hnever _ hlast (.unfollow owner) (by simp [Report.actions, stopActions])
    cases hstop
  · intro tid id actions hfollows hmem
    obtain ⟨rfl, rfl⟩ := hended.follows_iff.mp hfollows
    rcases hended.mem_cases hmem with heq | heq | ⟨_, hopen⟩
    · cases heq
    · exact (Report.left.inj heq).2.2
    · exact absurd rfl (hopen actions)
  · intro report hmem action haction hstop
    rcases hended.mem_cases hmem with rfl | rfl | ⟨hnone, _⟩
    · rw [List.mem_singleton.mp haction] at hstop
      cases hstop
    · exact ⟨owner, opened, _, rfl, hended.follows_iff.mpr ⟨rfl, rfl⟩⟩
    · rw [hnone] at haction
      cases haction
  · intro tid id hfollows hleft
    obtain ⟨rfl, rfl⟩ := hended.follows_iff.mp hfollows
    exact absurd hlast (hleft _)
  · exact fun _ _ _ _ _ => hstopped

theorem SessionInvariant.protocol {start : SessionView} {reports : List Report} {system : System}
    (hinv : SessionInvariant start reports system) : SessionProtocol start reports system := by
  cases hinv with
  | idle hview hquiet => exact hquiet.protocol start system
  | active owner opened target above below hreports hview hstack habove =>
      exact hreports.protocol hview hstack
  | ended owner opened hreports hlisteners hfollowed hfile =>
      exact hreports.protocol ⟨hfollowed, hlisteners, hfile⟩

/-- Every run after one call of `gum_trace` follows the session protocol. -/
theorem session_protocol (files : Files) (call : GumTraceCall) {events : List Event}
    {system : System} {reports : List Report}
    (honce : ∀ event ∈ events, ∀ call, event ≠ .gumTrace call)
    (hrun : System.run cs (System.start files call) events = some (system, reports)) :
    SessionProtocol (System.start files call).world.session reports system :=
  (SessionInvariant.of_run (gumTrace_initial_fresh files call) rfl
    (System.start_idsFresh files call) honce hrun).protocol

/-- A library mapped at `0x1000` with the hooked function at offset `0x10`. -/
def sampleCall : GumTraceCall where
  host :=
    { findModuleByName := fun _ => some ⟨0x1000, 0x2000⟩
      dladdr := fun _ => "/data/libtarget.so".toList
      loadElf := fun _ => none }
  moduleName := "libtarget.so".toList
  offset := 0x10
  traceFileName := "trace.txt".toList
  opens := true
  attaches := true

/-- Two threads, an outer invocation that does not match and a nested one. -/
def sampleSession : List Event :=
  [.enter 1 0x1010 0 0 0, .enter 2 0x1010 0 0 0, .enter 1 0x1010 7 1 2, .enter 2 0x1010 7 1 2,
    .enter 1 0x1010 7 1 2, .leave 1, .leave 2, .leave 1]

theorem session_protocol_sample :
    ∃ system reports,
      System.run .standard (System.start (fun _ => []) sampleCall) sampleSession =
        some (system, reports) ∧
      reports = [.entered 1 0 [], .entered 2 1 [], .entered 1 2 [.follow 1], .entered 2 3 [],
        .entered 1 4 [], .left 1 4 [], .left 2 3 [],
        .left 1 2 [.unfollow 1, .detach (some 0),
          .closeFile "/sdcard/Download/qbdiTVM/trace.txt".toList]] ∧
      SessionProtocol (System.start (fun _ => []) sampleCall).world.session reports system := by
  have honce : ∀ event ∈ sampleSession, ∀ call, event ≠ .gumTrace call := by
    simp [sampleSession]
  have hrun : ∃ system reports,
      System.run .standard (System.start (fun _ => []) sampleCall) sampleSession =
        some (system, reports) ∧ reports = _ := ⟨_, _, rfl, rfl⟩
  obtain ⟨system, reports, hrun, hreports⟩ := hrun
  exact ⟨system, reports, hrun, hreports, session_protocol _ sampleCall honce hrun⟩

end GumTVM
