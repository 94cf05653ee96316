import GumTVM.Session.Hooks
import GumTVM.Tracer.CallbackLaws

/-!
# The system: threads, hooks and callbacks

Threads enter and leave hooked functions, blocks of a followed thread are
compiled and its callouts run, and `gum_trace` is called, in any order. Every
invocation that a listener sees has its own identity, and a leave closes the
latest open invocation of its thread. An event is refused when nothing would
deliver it: no listener is attached to the function, or the thread is not
followed.
-/

namespace GumTVM

open Foundation

structure Invocation where
  id : Nat
  target : BitVec 64
deriving DecidableEq

structure System where
  world : World
  callStack : Nat → List Invocation
  clock : Nat

inductive Event where
  | gumTrace (call : GumTraceCall)
  | enter (tid : Nat) (target x0 x1 x2 : BitVec 64)
  | leave (tid : Nat)
  | transform (find : Text → Option GumMemoryRange) (block : List CsInsn)
  | callback (tid : Nat) (input : CallbackInput)

/-- What an observer of the session sees of one event. -/
inductive Report where
  | entered (tid invocation : Nat) (actions : List SessionAction)
  | left (tid invocation : Nat) (actions : List SessionAction)
  | silent
deriving DecidableEq

def Report.actions : Report → List SessionAction
  | .entered _ _ actions => actions
  | .left _ _ actions => actions
  | .silent => []

/-- Call a hook once for every attached listener. -/
def dispatch (hook : World → World × List SessionAction) :
    List Listener → World → World × List SessionAction
  | [], world => (world, [])
  | _ :: rest, world =>
      let (middle, actions) := hook world
      let (last, later) := dispatch hook rest middle
      (last, actions ++ later)

/-- The callout of a traced instruction, with its record written to the log. -/
def runCallout (cs : Capstone) (world : World) (input : CallbackInput) : Option World :=
  world.manager.logger.bind fun logger =>
    (instructionCallback cs input.proc world.manager input.ctx input.info).map fun result =>
      { world with
        manager := result.self
        files := logger.writeInfo world.files result.record.outInfo }

def System.step (cs : Capstone) (system : System) : Event → Option (System × Report)
  | .gumTrace call => some ({ system with world := gumTrace system.world call }, .silent)
  | .enter tid target x0 x1 x2 =>
      let attached := system.world.attachedAt target
      if tid = 0 ∨ attached = [] then none
      else
        let (world, actions) := dispatch (hookCommonEnter tid x0 x1 x2) attached system.world
        some ({ world
                callStack := Function.update system.callStack tid
                  (⟨system.clock, target⟩ :: system.callStack tid)
                clock := system.clock + 1 },
          .entered tid system.clock actions)
  | .leave tid =>
      match system.callStack tid with
      | [] => none
      | invocation :: rest =>
          let attached := system.world.attachedAt invocation.target
          if attached = [] then none
          else
            let (world, actions) := dispatch (hookCommonLeave tid) attached system.world
            some ({ system with world, callStack := Function.update system.callStack tid rest },
              .left tid invocation.id actions)
  | .transform find block =>
      some ({ system with world := { system.world with
        manager := (transformCallback system.world.manager find block).1 } }, .silent)
  | .callback tid input =>
      if tid ∈ system.world.followed then
        (runCallout cs system.world input).map fun world => ({ system with world }, .silent)
      else none

def System.initial (files : Files) : System where
  world := .initial files
  callStack := fun _ => []
  clock := 0

abbrev System.run (cs : Capstone) := runFrom (System.step cs)

end GumTVM
