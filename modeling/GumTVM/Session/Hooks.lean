import GumTVM.Tracer.Transform
import GumTVM.Tracer.Callback

/-!
# Hooks and the entry point

The globals of `custom_hook.cpp`, the manager, and what they drive: the threads
the stalker follows, the listeners attached to a function, and the files. Each
hook returns the world afterwards with the actions it performed on them.
-/

namespace GumTVM

open Foundation

/-- A call listener made from `hook_common_enter` and `hook_common_leave`,
attached to the function at `target`. -/
structure Listener where
  id : Nat
  target : BitVec 64
deriving DecidableEq

inductive SessionAction where
  | follow (tid : Nat)
  | unfollow (tid : Nat)
  | detach (listener : Option Nat)
  | closeFile (path : Text)
deriving DecidableEq

structure World where
  repeatTrace : Bool
  traceIsRunning : Bool
  /-- A 32-bit `int` in the source. It counts open calls of one thread, which end
  with its stack long before `2 ^ 31` of them. -/
  tidCallSum : Int
  manager : InstructionTracerManager
  listeners : List Listener
  nextListener : Nat
  followed : List Nat
  files : Files

namespace World

/-- The library has been loaded and nothing has been called. -/
def initial (files : Files) : World where
  repeatTrace := false
  traceIsRunning := false
  tidCallSum := 1
  manager := .initial
  listeners := []
  nextListener := 0
  followed := []
  files := files

/-- The file the logger has open. -/
def openFile (world : World) : Option Text := world.manager.logger.bind LoggerManager.traceOut

def attachedAt (world : World) (target : BitVec 64) : List Listener :=
  world.listeners.filter (·.target = target)

end World

/-! ## `custom_hook.cpp` -/

def tripDoCommandEnter (world : World) (tid : Nat) (x0 x1 x2 : BitVec 64) :
    World × List SessionAction :=
  if x0 = 7 ∧ x1 = 1 ∧ x2 = 2 then
    -- the section table of this module is erased, so its PLT is given here
    let manager := { world.manager with
      traceTid := tid
      pltRange := (0x20EA4, 0x21DD0) }
    let manager := (manager.addTraceOtherModuleEntry
      "libsgsecuritybodyso-6.6.230703.so".toList false).2
    let manager := (manager.addTraceOtherModuleEntry
      "libsgmiddletierso-6.6.230703.so".toList false).2
    ({ world with traceIsRunning := true, manager, followed := tid :: world.followed },
      [.follow tid])
  else (world, [])

def hookCommonEnter (tid : Nat) (x0 x1 x2 : BitVec 64) (world : World) :
    World × List SessionAction :=
  if world.manager.traceTid = 0 ∨ world.manager.traceTid = tid then
    let world :=
      if world.manager.traceTid = tid then { world with tidCallSum := world.tidCallSum + 1 }
      else world
    if world.traceIsRunning = false then tripDoCommandEnter world tid x0 x1 x2
    else (world, [])
  else (world, [])

/-- `unfollow`, `gum_interceptor_detach` and closing the trace file. -/
def stopTrace (tid : Nat) (world : World) : World × List SessionAction :=
  let listener := world.manager.commonInvocationListener
  ({ world with
      followed := world.followed.filter (· ≠ tid)
      listeners := world.listeners.filter (fun attached => some attached.id ≠ listener)
      manager := { world.manager with
        logger := world.manager.logger.map fun logger =>
          (logger.setEnableToFile world.files false [] false).1 } },
    [.unfollow tid, .detach listener] ++ (world.openFile.map SessionAction.closeFile).toList)

def hookCommonLeave (tid : Nat) (world : World) : World × List SessionAction :=
  if world.manager.traceTid = tid then
    let world := { world with tidCallSum := world.tidCallSum - 1 }
    if world.tidCallSum = 0 then
      if world.repeatTrace = false then stopTrace tid world
      -- never taken: nothing sets the flag
      else (world, [])
    else (world, [])
  else (world, [])

/-! ## `init.cpp` -/

/-- A call of `gum_trace` with the answers its environment gives: module
lookup, whether the trace file opens and whether the interceptor attaches. -/
structure GumTraceCall where
  host : Host
  moduleName : Text
  offset : BitVec 64
  traceFileName : Text
  opens : Bool
  attaches : Bool

/-- `run_attach` -/
def runAttach (world : World) (attaches : Bool) : World :=
  { world with
    manager := { world.manager with commonInvocationListener := some world.nextListener }
    nextListener := world.nextListener + 1
    listeners :=
      if attaches then
        world.listeners ++ [⟨world.nextListener, world.manager.targetTraceAddress⟩]
      else world.listeners }

def gumTrace (world : World) (call : GumTraceCall) : World :=
  match world.manager.init call.host call.moduleName call.offset with
  | (false, manager) => { world with manager }
  | (true, manager) =>
      -- `init` has just made the logger
      match manager.logger with
      | none => { world with manager }
      | some logger =>
          let (logger, files) :=
            logger.setEnableToFile world.files true call.traceFileName call.opens
          runAttach { world with manager := { manager with logger := some logger }, files }
            call.attaches

/-- The call ran to its end: the module was found with the offset accepted, the
trace file was opened and the listener attached. -/
def GumTraceCall.Succeeds (call : GumTraceCall) : Prop :=
  (∃ range, call.host.findModuleByName call.moduleName = some range ∧
    call.offset ≤ range.size) ∧ call.opens = true ∧ call.attaches = true

end GumTVM
