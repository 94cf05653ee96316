import GumTVM.Session.TraceFile

/-!
# The PLT range of a session

`init` takes the range of the PLT from the ELF file of the module, and the hook
that starts a session puts another one in its place. Callouts run in between for
no thread, so what the file says has no influence on a session.
-/

namespace GumTVM

open Foundation

variable {cs : Capstone}

/-- Another range of the PLT. -/
def World.withPlt (world : World) (plt : BitVec 64 × BitVec 64) : World :=
  { world with manager := { world.manager with pltRange := plt } }

/-- Two worlds agree but for the range of the PLT, and on that too if a thread is
followed. -/
def World.Agrees (world other : World) : Prop :=
  other = world ∨ world.followed = [] ∧ ∃ plt, other = world.withPlt plt

/-! ## Hooks -/

/-- A hook acts alike on worlds that agree, and they agree afterwards. -/
def KeepsAgreement (hook : World → World × List SessionAction) : Prop :=
  ∀ world other, World.Agrees world other →
    World.Agrees (hook world).1 (hook other).1 ∧ (hook other).2 = (hook world).2

theorem KeepsAgreement.of_withPlt {hook : World → World × List SessionAction}
    (hhook : ∀ world plt, world.followed = [] →
      World.Agrees (hook world).1 (hook (world.withPlt plt)).1 ∧
        (hook (world.withPlt plt)).2 = (hook world).2) : KeepsAgreement hook := by
  intro world other hagrees
  rcases hagrees with rfl | ⟨hnone, plt, rfl⟩
  · exact ⟨Or.inl rfl, rfl⟩
  · exact hhook world plt hnone

theorem KeepsAgreement.dispatch {hook : World → World × List SessionAction}
    (hhook : KeepsAgreement hook) (listeners : List Listener) :
    KeepsAgreement (dispatch hook listeners) := by
  intro world other hagrees
  induction listeners generalizing world other with
  | nil => exact ⟨hagrees, rfl⟩
  | cons listener rest ih =>
      obtain ⟨hmiddle, hactions⟩ := hhook world other hagrees
      obtain ⟨hlast, hlater⟩ := ih _ _ hmiddle
      exact ⟨hlast, congrArg₂ (· ++ ·) hactions hlater⟩

theorem tripDoCommandEnter_withPlt (tid : Nat) (x0 x1 x2 : BitVec 64) {world : World}
    (hnone : world.followed = []) (plt : BitVec 64 × BitVec 64) :
    World.Agrees (tripDoCommandEnter world tid x0 x1 x2).1
        (tripDoCommandEnter (world.withPlt plt) tid x0 x1 x2).1 ∧
      (tripDoCommandEnter (world.withPlt plt) tid x0 x1 x2).2 =
        (tripDoCommandEnter world tid x0 x1 x2).2 := by
  unfold tripDoCommandEnter
  split
  -- the range is replaced before the thread is followed
  · exact ⟨Or.inl rfl, rfl⟩
  · exact ⟨Or.inr ⟨hnone, plt, rfl⟩, rfl⟩

/-- The world after `tid_call_sum` has counted an invocation of a thread. -/
def World.counted (world : World) (tid : Nat) : World :=
  if world.manager.traceTid = tid then { world with tidCallSum := world.tidCallSum + 1 }
  else world

theorem World.counted_withPlt (world : World) (tid : Nat) (plt : BitVec 64 × BitVec 64) :
    (world.withPlt plt).counted tid = (world.counted tid).withPlt plt := by
  unfold counted
  by_cases hthread : world.manager.traceTid = tid
  · have hother : (world.withPlt plt).manager.traceTid = tid := hthread
    rw [if_pos hthread, if_pos hother]
    rfl
  · have hother : ¬ (world.withPlt plt).manager.traceTid = tid := hthread
    rw [if_neg hthread, if_neg hother]

theorem World.counted_followed (world : World) (tid : Nat) :
    (world.counted tid).followed = world.followed := by
  unfold counted
  split <;> rfl

theorem hookCommonEnter_eq (tid : Nat) (x0 x1 x2 : BitVec 64) (world : World) :
    hookCommonEnter tid x0 x1 x2 world =
      if world.manager.traceTid = 0 ∨ world.manager.traceTid = tid then
        if (world.counted tid).traceIsRunning = false then
          tripDoCommandEnter (world.counted tid) tid x0 x1 x2
        else (world.counted tid, [])
      else (world, []) := rfl

theorem hookCommonEnter_keeps (tid : Nat) (x0 x1 x2 : BitVec 64) :
    KeepsAgreement (hookCommonEnter tid x0 x1 x2) := by
  refine .of_withPlt fun world plt hnone => ?_
  have hcounted : (world.counted tid).followed = [] := (world.counted_followed tid).trans hnone
  have hthread : (world.withPlt plt).manager.traceTid = world.manager.traceTid := rfl
  have hrunning : ((world.counted tid).withPlt plt).traceIsRunning =
      (world.counted tid).traceIsRunning := rfl
  rw [hookCommonEnter_eq, hookCommonEnter_eq, World.counted_withPlt, hthread, hrunning]
  split
  · split
    · exact tripDoCommandEnter_withPlt tid x0 x1 x2 hcounted plt
    · exact ⟨Or.inr ⟨hcounted, plt, rfl⟩, rfl⟩
  · exact ⟨Or.inr ⟨hnone, plt, rfl⟩, rfl⟩

/-- A leave reads no range, and follows no thread. -/
theorem hookCommonLeave_withPlt (tid : Nat) (world : World) (plt : BitVec 64 × BitVec 64) :
    hookCommonLeave tid (world.withPlt plt) =
      ((hookCommonLeave tid world).1.withPlt plt, (hookCommonLeave tid world).2) := by
  have hthread : (world.withPlt plt).manager.traceTid = world.manager.traceTid := rfl
  have hsum : (world.withPlt plt).tidCallSum = world.tidCallSum := rfl
  have hrepeat : (world.withPlt plt).repeatTrace = world.repeatTrace := rfl
  unfold hookCommonLeave
  dsimp only
  rw [hthread, hsum, hrepeat]
  split
  · split
    · split <;> rfl
    · rfl
  · rfl

theorem hookCommonLeave_followed (tid : Nat) {world : World} (hnone : world.followed = []) :
    (hookCommonLeave tid world).1.followed = [] := by
  unfold hookCommonLeave
  dsimp only
  split
  · split
    · split
      · unfold stopTrace
        dsimp only
        rw [hnone]
        rfl
      · exact hnone
    · exact hnone
  · exact hnone

theorem hookCommonLeave_keeps (tid : Nat) : KeepsAgreement (hookCommonLeave tid) := by
  refine .of_withPlt fun world plt hnone => ?_
  rw [hookCommonLeave_withPlt]
  exact ⟨Or.inr ⟨hookCommonLeave_followed tid hnone, plt, rfl⟩, rfl⟩

/-! ## Steps -/

theorem registerOtherModule_withPlt (find : Text → Option GumMemoryRange)
    (self : InstructionTracerManager) (plt : BitVec 64 × BitVec 64) (entry : Text × Bool) :
    InstructionTracerManager.registerOtherModule find { self with pltRange := plt } entry =
      { self.registerOtherModule find entry with pltRange := plt } := by
  unfold InstructionTracerManager.registerOtherModule
    InstructionTracerManager.addTraceOtherModuleRangeEntry
  split
  · rfl
  · split
    · rfl
    · dsimp only
      split <;> rfl

theorem registerOtherModules_withPlt (find : Text → Option GumMemoryRange)
    (self : InstructionTracerManager) (plt : BitVec 64 × BitVec 64) :
    InstructionTracerManager.registerOtherModules { self with pltRange := plt } find =
      { self.registerOtherModules find with pltRange := plt } := by
  have hfold (entries : List (Text × Bool)) (current : InstructionTracerManager) :
      entries.foldl (InstructionTracerManager.registerOtherModule find)
          { current with pltRange := plt } =
        { entries.foldl (InstructionTracerManager.registerOtherModule find) current with
          pltRange := plt } := by
    induction entries generalizing current with
    | nil => rfl
    | cons entry rest ih =>
        rw [List.foldl_cons, List.foldl_cons, registerOtherModule_withPlt, ih]
  exact hfold _ _

/-- Two systems that agree in their worlds, with the same open invocations. -/
structure System.Agrees (system other : System) : Prop where
  world : World.Agrees system.world other.world
  callStack : other.callStack = system.callStack
  clock : other.clock = system.clock

theorem World.Agrees.listeners {world other : World} (hagrees : World.Agrees world other) :
    other.listeners = world.listeners := by
  rcases hagrees with rfl | ⟨-, _, rfl⟩ <;> rfl

theorem World.Agrees.files {world other : World} (hagrees : World.Agrees world other) :
    other.files = world.files := by
  rcases hagrees with rfl | ⟨-, _, rfl⟩ <;> rfl

/-- Systems that agree answer every event but `gum_trace` alike. -/
theorem recordStep_agrees {system other : System} {event : Event}
    (hcall : ∀ call, event ≠ .gumTrace call) (hagrees : System.Agrees system other) :
    Option.Rel (fun first second => System.Agrees first.1 second.1 ∧ first.2 = second.2)
      (system.recordStep cs event) (other.recordStep cs event) := by
  obtain ⟨world, callStack, clock⟩ := system
  obtain ⟨otherWorld, otherStack, otherClock⟩ := other
  obtain ⟨hworld, hstack, hclock⟩ := hagrees
  dsimp only at hworld hstack hclock
  subst hstack hclock
  have hlisteners := hworld.listeners
  unfold System.recordStep
  cases event with
  | gumTrace call => exact absurd rfl (hcall call)
  | enter tid target x0 x1 x2 =>
      have hattached : otherWorld.attachedAt target = world.attachedAt target := by
        unfold World.attachedAt
        rw [hlisteners]
      obtain ⟨hnext, hactions⟩ := (hookCommonEnter_keeps tid x0 x1 x2).dispatch
        (world.attachedAt target) world otherWorld hworld
      simp only [System.step, hattached]
      split
      · exact .none
      · exact .some ⟨⟨hnext, rfl, rfl⟩, by simp only [hactions, System.recorded]⟩
  | leave tid =>
      simp only [System.step]
      split
      · exact .none
      next invocation rest _ =>
        have hattached : otherWorld.attachedAt invocation.target =
            world.attachedAt invocation.target := by
          unfold World.attachedAt
          rw [hlisteners]
        obtain ⟨hnext, hactions⟩ := (hookCommonLeave_keeps tid).dispatch
          (world.attachedAt invocation.target) world otherWorld hworld
        rw [hattached]
        split
        · exact .none
        · exact .some ⟨⟨hnext, rfl, rfl⟩, by simp only [hactions, System.recorded]⟩
  | transform find block =>
      refine .some ⟨⟨?_, rfl, rfl⟩, rfl⟩
      rcases hworld with rfl | ⟨hnone, plt, rfl⟩
      · exact Or.inl rfl
      · refine Or.inr ⟨hnone, plt, ?_⟩
        unfold World.withPlt
        dsimp only [transformCallback]
        rw [registerOtherModules_withPlt]
  | callback tid input =>
      rcases hworld with rfl | ⟨hnone, plt, rfl⟩
      · generalize Option.map _ _ = answer
        cases answer with
        | none => exact .none
        | some next => exact .some ⟨⟨Or.inl rfl, rfl, rfl⟩, rfl⟩
      · have hidle : (world.withPlt plt).followed = [] := hnone
        simp only [System.step, hnone, hidle, List.not_mem_nil, if_false, Option.map_none]
        exact .none

/-- The same call where the module has another path and files hold other ELF
data. -/
def GumTraceCall.withElf (call : GumTraceCall) (dladdr : BitVec 64 → Text)
    (loadElf : Text → Option ElfFile) : GumTraceCall :=
  { call with host := { call.host with dladdr, loadElf } }

theorem init_withElf (self : InstructionTracerManager) (call : GumTraceCall)
    (dladdr : BitVec 64 → Text) (loadElf : Text → Option ElfFile) :
    ∃ plt, self.init (call.withElf dladdr loadElf).host call.moduleName call.offset =
      ((self.init call.host call.moduleName call.offset).1,
        { (self.init call.host call.moduleName call.offset).2 with pltRange := plt }) := by
  unfold InstructionTracerManager.init GumTraceCall.withElf
  dsimp only
  split
  · exact ⟨_, rfl⟩
  · split
    · exact ⟨_, rfl⟩
    · exact ⟨_, rfl⟩

theorem start_agrees (files : Files) (call : GumTraceCall) (dladdr : BitVec 64 → Text)
    (loadElf : Text → Option ElfFile) :
    System.Agrees (System.start files call) (System.start files (call.withElf dladdr loadElf)) := by
  refine ⟨?_, rfl, rfl⟩
  refine Or.inr ⟨gumTrace_followed _ call, ?_⟩
  obtain ⟨plt, hinit⟩ := init_withElf (World.initial files).manager call dladdr loadElf
  show ∃ plt, gumTrace (.initial files) (call.withElf dladdr loadElf) =
    (gumTrace (.initial files) call).withPlt plt
  refine ⟨plt, ?_⟩
  have hname : (call.withElf dladdr loadElf).moduleName = call.moduleName := rfl
  have hoffset : (call.withElf dladdr loadElf).offset = call.offset := rfl
  unfold gumTrace
  rw [hname, hoffset, hinit]
  generalize (World.initial files).manager.init call.host call.moduleName call.offset = answer
  obtain ⟨accepted, manager⟩ := answer
  cases accepted with
  | false => rfl
  | true =>
      obtain ⟨_, _, _, logger, _⟩ := manager
      cases logger with
      | none => rfl
      | some logger => rfl

/-- The trace of a session does not depend on the ELF file of the module, nor on
the path it is loaded by: with any other the same events happen, are answered
and recorded alike and leave the same files. -/
theorem elf_unused (files : Files) (call : GumTraceCall) (dladdr : BitVec 64 → Text)
    (loadElf : Text → Option ElfFile) {events : List Event}
    (honce : ∀ event ∈ events, ∀ call, event ≠ .gumTrace call) :
    Option.Rel (fun first second => first.1.world.files = second.1.world.files ∧
        first.2 = second.2)
      (runFrom (System.recordStep cs) (System.start files call) events)
      (runFrom (System.recordStep cs) (System.start files (call.withElf dladdr loadElf))
        events) := by
  have hrelated := @runFrom_related _ _ _ (System.recordStep cs) _ (System.recordStep cs)
    (fun event => ∀ call, event ≠ Event.gumTrace call) System.Agrees
    (fun _ _ _ hevent hagrees => recordStep_agrees hevent hagrees) _ _
    (start_agrees files call dladdr loadElf) _ honce
  generalize runFrom _ (System.start files call) events = run at hrelated
  generalize runFrom _ (System.start files (call.withElf dladdr loadElf)) events = otherRun
    at hrelated
  cases hrelated with
  | none => exact .none
  | some hlast => exact .some ⟨hlast.1.world.files.symm, hlast.2⟩

theorem elf_unused_recorded :
    ∃ run, runFrom (System.recordStep .standard) (System.start (fun _ => []) sampleCall)
        recordedSession = some run ∧
      Option.Rel (fun first second => first.1.world.files = second.1.world.files ∧
          first.2 = second.2)
        (some run)
        (runFrom (System.recordStep .standard) (System.start (fun _ => [])
          (sampleCall.withElf (fun _ => "/data/app/base.apk".toList) fun _ => none))
          recordedSession) := by
  obtain ⟨run, hrun⟩ : ∃ run, runFrom (System.recordStep .standard)
      (System.start (fun _ => []) sampleCall) recordedSession = some run := ⟨_, rfl⟩
  refine ⟨run, hrun, ?_⟩
  rw [← hrun]
  exact elf_unused _ sampleCall _ _ recordedSession_once

end GumTVM
