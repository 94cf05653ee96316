import GumTVM.Session.System

/-!
# Laws of the hooks

The part of the world that the session protocol is about, and what each hook
does to it in each situation. Compiling blocks and running callouts leave this
part alone.
-/

namespace GumTVM

open Foundation

/-- The globals of the hooks, the tracing thread, and what the session drives. -/
@[ext] structure SessionView where
  repeatTrace : Bool
  traceIsRunning : Bool
  tidCallSum : Int
  traceTid : Nat
  commonInvocationListener : Option Nat
  listeners : List Listener
  followed : List Nat
  openFile : Option Text

def World.session (world : World) : SessionView where
  repeatTrace := world.repeatTrace
  traceIsRunning := world.traceIsRunning
  tidCallSum := world.tidCallSum
  traceTid := world.manager.traceTid
  commonInvocationListener := world.manager.commonInvocationListener
  listeners := world.listeners
  followed := world.followed
  openFile := world.openFile

/-- A hook that does nothing in a world does nothing there for any number of
listeners. -/
theorem dispatch_eq_self {hook : World → World × List SessionAction} {world : World}
    (hhook : hook world = (world, [])) (listeners : List Listener) :
    dispatch hook listeners world = (world, []) := by
  induction listeners with
  | nil => rfl
  | cons listener rest ih => simp [dispatch, hhook, ih]

section Enter

variable {world : World} {tid : Nat} {x0 x1 x2 : BitVec 64}

theorem tripDoCommandEnter_cases (world : World) (tid : Nat) (x0 x1 x2 : BitVec 64) :
    tripDoCommandEnter world tid x0 x1 x2 = (world, []) ∨
      ∃ next, tripDoCommandEnter world tid x0 x1 x2 = (next, [.follow tid]) ∧
        next.files = world.files ∧
        next.session = { world.session with
          traceIsRunning := true, traceTid := tid, followed := tid :: world.followed } := by
  unfold tripDoCommandEnter
  split
  · refine Or.inr ⟨_, rfl, rfl, ?_⟩
    have hframe (manager : InstructionTracerManager) (name : Text) (status : Bool) :
        (manager.addTraceOtherModuleEntry name status).2 = { manager with
          traceOtherModules :=
            (manager.addTraceOtherModuleEntry name status).2.traceOtherModules } := by
      unfold InstructionTracerManager.addTraceOtherModuleEntry
      split <;> rfl
    simp only [World.session, World.openFile]
    rw [hframe, hframe]
  · exact Or.inl rfl

/-- Outside the tracing thread a running trace ignores every enter; so does a
running trace whose thread id was reset. -/
theorem hookCommonEnter_other (hrunning : world.traceIsRunning = true)
    (hother : world.manager.traceTid ≠ tid) :
    hookCommonEnter tid x0 x1 x2 world = (world, []) := by
  simp [hookCommonEnter, hother, hrunning]

theorem hookCommonEnter_own (hrunning : world.traceIsRunning = true)
    (hown : world.manager.traceTid = tid) :
    hookCommonEnter tid x0 x1 x2 world =
      ({ world with tidCallSum := world.tidCallSum + 1 }, []) := by
  simp [hookCommonEnter, hown, hrunning]

theorem hookCommonEnter_idle (hidle : world.traceIsRunning = false)
    (hreset : world.manager.traceTid = 0) (htid : tid ≠ 0) :
    hookCommonEnter tid x0 x1 x2 world = tripDoCommandEnter world tid x0 x1 x2 := by
  simp [hookCommonEnter, hreset, hidle, htid.symm]

end Enter

section Leave

variable {world : World} {tid : Nat}

theorem hookCommonLeave_other (hother : world.manager.traceTid ≠ tid) :
    hookCommonLeave tid world = (world, []) := by
  simp [hookCommonLeave, hother]

theorem hookCommonLeave_inner (hown : world.manager.traceTid = tid)
    (hdepth : world.tidCallSum ≠ 1) :
    hookCommonLeave tid world = ({ world with tidCallSum := world.tidCallSum - 1 }, []) := by
  have hpositive : world.tidCallSum - 1 ≠ 0 := by omega
  simp [hookCommonLeave, hown, hpositive]

theorem hookCommonLeave_last (hown : world.manager.traceTid = tid)
    (hdepth : world.tidCallSum = 1) (hrepeat : world.repeatTrace = false) :
    hookCommonLeave tid world = stopTrace tid { world with tidCallSum := 0 } := by
  simp [hookCommonLeave, hown, hdepth, hrepeat]

/-- The actions that end a session in a given world. -/
def stopActions (tid : Nat) (world : SessionView) : List SessionAction :=
  [.unfollow tid, .detach world.commonInvocationListener] ++
    (world.openFile.map SessionAction.closeFile).toList

theorem stopTrace_session (tid : Nat) (world : World) :
    (stopTrace tid world).1.session = { world.session with
      followed := world.followed.filter (· ≠ tid)
      listeners := world.listeners.filter
        (fun attached => some attached.id ≠ world.manager.commonInvocationListener)
      openFile := none } := by
  simp only [stopTrace, World.session, World.openFile, LoggerManager.setEnableToFile]
  cases world.manager.logger <;> rfl

end Leave

/-! ## Events that do not concern the session -/

theorem transform_session (world : World) (find : Text → Option GumMemoryRange)
    (block : List CsInsn) :
    ({ world with manager := (transformCallback world.manager find block).1 } : World).session =
      world.session := by
  simp only [World.session, World.openFile, transformCallback]
  rw [InstructionTracerManager.registerOtherModules_frame]

theorem runCallout_session {cs : Capstone} {world next : World} {input : CallbackInput}
    (hcallout : runCallout cs world input = some next) : next.session = world.session := by
  obtain ⟨logger, hlogger, hcall⟩ := Option.bind_eq_some_iff.mp hcallout
  obtain ⟨result, hresult, rfl⟩ := Option.map_eq_some_iff.mp hcall
  simp only [World.session, World.openFile]
  rw [instructionCallback_self hresult]

/-! ## The start of a session -/

/-- Loading the library and calling `gum_trace` once, with any outcome. -/
def System.start (files : Files) (call : GumTraceCall) : System :=
  { System.initial files with world := gumTrace (.initial files) call }

/-- The globals have their initial values, and at most the manager's own
listener is attached. -/
structure SessionView.Fresh (view : SessionView) : Prop where
  repeatTrace : view.repeatTrace = false
  traceIsRunning : view.traceIsRunning = false
  tidCallSum : view.tidCallSum = 1
  traceTid : view.traceTid = 0
  followed : view.followed = []
  listeners : view.listeners = [] ∨ ∃ listener : Listener,
    view.listeners = [listener] ∧ view.commonInvocationListener = some listener.id

/-- `init` clears the thread id in every outcome and keeps the listener. -/
theorem init_traceTid {manager next : InstructionTracerManager} {host : Host} {name : Text}
    {offset : BitVec 64} {ok : Bool} (hinit : manager.init host name offset = (ok, next)) :
    next.traceTid = 0 := by
  unfold InstructionTracerManager.init at hinit
  dsimp only at hinit
  split at hinit
  · obtain ⟨-, rfl⟩ := Prod.mk.inj hinit
    rfl
  · split at hinit <;> (obtain ⟨-, rfl⟩ := Prod.mk.inj hinit; rfl)

theorem gumTrace_traceIsRunning (world : World) (call : GumTraceCall) :
    (gumTrace world call).traceIsRunning = world.traceIsRunning := by
  unfold gumTrace
  split
  · rfl
  · split <;> rfl

theorem gumTrace_followed (world : World) (call : GumTraceCall) :
    (gumTrace world call).followed = world.followed := by
  unfold gumTrace
  split
  · rfl
  · split <;> rfl

/-- A call that succeeds resets the tracing thread and truncates the trace file. -/
theorem gumTrace_succeeds (world : World) {call : GumTraceCall} (hcall : call.Succeeds) :
    (gumTrace world call).manager.traceTid = 0 ∧
      (gumTrace world call).files =
        world.files.write (LoggerManager.traceDir ++ call.traceFileName) [] := by
  obtain ⟨⟨range, hrange, hoffset⟩, hopens, hattaches⟩ := hcall
  have hsize : ¬ call.offset > range.size := BitVec.not_lt.mpr hoffset
  simp [gumTrace, InstructionTracerManager.init, hrange, hsize, LoggerManager.create,
    LoggerManager.setEnableToFile, hopens, runAttach]

theorem gumTrace_initial_fresh (files : Files) (call : GumTraceCall) :
    (gumTrace (.initial files) call).session.Fresh := by
  unfold gumTrace
  split
  next manager heq => exact ⟨rfl, rfl, rfl, init_traceTid heq, rfl, Or.inl rfl⟩
  next manager heq =>
    have htid := init_traceTid heq
    split
    next => exact ⟨rfl, rfl, rfl, htid, rfl, Or.inl rfl⟩
    next logger hlogger =>
      refine ⟨rfl, rfl, rfl, htid, rfl, ?_⟩
      cases hattaches : call.attaches with
      | false => exact Or.inl (by simp [runAttach, World.session, World.initial])
      | true =>
          refine Or.inr ⟨⟨0, manager.targetTraceAddress⟩, ?_, ?_⟩ <;>
            simp [runAttach, World.session, World.initial]

end GumTVM
