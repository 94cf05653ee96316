import Mathlib.Data.List.Infix
import GumTVM.Script.CopyFile
import GumTVM.Session.TraceFile

/-!
# The loader script

The script hooks `android_dlopen_ext`. When a load of the target module is left
it copies and loads the library and calls `gum_trace`. All loads of the process
share one variable for the name of the module that is being loaded, and the name
is read again, through its pointer, when a load is left.
-/

namespace GumTVM

open Foundation

variable {cs : Capstone}

/-- The variables at the top of the script. -/
structure ScriptSettings where
  moduleName : Text
  targetOffset : BitVec 64
  packageName : Text
  traceFileName : Text

def ScriptSettings.shipped : ScriptSettings where
  moduleName := "libmyapplication.so".toList
  targetOffset := 0x2EBD4
  packageName := "com.example.myapplication".toList
  traceFileName := "trace.txt".toList

/-- What the process answers when the script loads the library and calls it. -/
structure LoadAnswers where
  kernel : FileHost
  /-- `Module.load` accepts a library with these contents. -/
  loads : List Byte → Bool
  host : Host
  opens : Bool
  attaches : Bool

/-- The process with the script attached to it. -/
structure Scripted where
  system : System
  binaries : ByteFiles
  moduleNameLoad : Option (BitVec 64)
  /-- The names of the loads that a thread is in, the latest one first. -/
  loading : Nat → List (BitVec 64)

inductive ScriptEvent where
  | dlopenEnter (tid : Nat) (args0 : BitVec 64)
  | dlopenLeave (tid : Nat) (readCString : BitVec 64 → Option Text) (answers : LoadAnswers)
  | process (event : Event)

/-- What an observer of the script sees of one event. -/
inductive ScriptReport where
  | loading (tid : Nat) (args0 : BitVec 64)
  | loaded (tid : Nat) (name : BitVec 64) (hooking : Bool) (call : Option GumTraceCall)
  | process (event : Event) (output : Report × Option RecordSummary)

/-- `load_gum`: the files afterwards, and whether the library is loaded. -/
def loadGum (settings : ScriptSettings) (answers : LoadAnswers) (binaries : ByteFiles) :
    ByteFiles × Bool :=
  let destPath := "/data/data/".toList ++ settings.packageName ++ "/libgumTVM.so".toList
  let binaries :=
    (copyFile answers.kernel binaries "/data/local/tmp/libgumTVM.so".toList destPath).2
  (binaries, answers.loads (binaries destPath))

/-- The call that the script makes of `gum_trace`. -/
def ScriptSettings.call (settings : ScriptSettings) (answers : LoadAnswers) : GumTraceCall where
  host := answers.host
  moduleName := settings.moduleName
  offset := settings.targetOffset
  traceFileName := settings.traceFileName
  opens := answers.opens
  attaches := answers.attaches

/-- `hook_target_module` -/
def hookTargetModule (settings : ScriptSettings) (answers : LoadAnswers) (state : Scripted) :
    Scripted × Option GumTraceCall :=
  let (binaries, loaded) := loadGum settings answers state.binaries
  if loaded then
    let call := settings.call answers
    ({ state with
        binaries
        system := { state.system with world := gumTrace state.system.world call } }, some call)
  -- `Module.load` throws
  else ({ state with binaries }, none)

/-- The test of `onLeave`; it throws where no name can be read. -/
def ScriptSettings.isTarget (settings : ScriptSettings) (name : Option Text) : Bool :=
  name.any fun name => decide (settings.moduleName <:+: name)

def Scripted.step (cs : Capstone) (settings : ScriptSettings) (state : Scripted) :
    ScriptEvent → Option (Scripted × ScriptReport)
  | .dlopenEnter tid args0 =>
      some ({ state with
        moduleNameLoad := some args0
        loading := Function.update state.loading tid (args0 :: state.loading tid) },
        .loading tid args0)
  | .dlopenLeave tid readCString answers =>
      match state.loading tid with
      | [] => none
      | name :: rest =>
          let state := { state with loading := Function.update state.loading tid rest }
          if settings.isTarget (state.moduleNameLoad.bind readCString) then
            let (next, call) := hookTargetModule settings answers state
            some (next, .loaded tid name true call)
          else some (state, .loaded tid name false none)
  -- nobody but the script calls `gum_trace`
  | .process (.gumTrace _) => none
  | .process event =>
      (state.system.recordStep cs event).map fun (system, output) =>
        ({ state with system }, .process event output)

def Scripted.initial (binaries : ByteFiles) (files : Files) : Scripted where
  system := .initial files
  binaries := binaries
  moduleNameLoad := none
  loading := fun _ => []

abbrev Scripted.run (cs : Capstone) (settings : ScriptSettings) :=
  runFrom (Scripted.step cs settings)

def ScriptReport.call : ScriptReport → Option GumTraceCall
  | .loaded _ _ _ call => call
  | _ => none

/-! ## Steps -/

variable {settings : ScriptSettings} {state next last : Scripted}

theorem isTarget_iff {name : Option Text} :
    settings.isTarget name = true ↔ ∃ text, name = some text ∧ settings.moduleName <:+: text := by
  simp [ScriptSettings.isTarget, Option.any_eq_true]

theorem hookTargetModule_call {answers : LoadAnswers} {call : GumTraceCall}
    (hcall : (hookTargetModule settings answers state).2 = some call) :
    call = settings.call answers ∧ (hookTargetModule settings answers state).1.system =
      { state.system with world := gumTrace state.system.world call } := by
  unfold hookTargetModule at hcall ⊢
  dsimp only at hcall ⊢
  split at hcall
  next hloaded =>
    obtain rfl := Option.some.inj hcall
    rw [if_pos hloaded]
    exact ⟨rfl, rfl⟩
  next => cases hcall

theorem hookTargetModule_none {answers : LoadAnswers}
    (hcall : (hookTargetModule settings answers state).2 = none) :
    (hookTargetModule settings answers state).1.system = state.system := by
  unfold hookTargetModule at hcall ⊢
  dsimp only at hcall ⊢
  split at hcall
  next => cases hcall
  next hloaded => rw [if_neg hloaded]

theorem hookTargetModule_frame (answers : LoadAnswers) :
    (hookTargetModule settings answers state).1.moduleNameLoad = state.moduleNameLoad ∧
      (hookTargetModule settings answers state).1.loading = state.loading := by
  unfold hookTargetModule
  dsimp only
  split <;> exact ⟨rfl, rfl⟩

theorem step_dlopenEnter_eq_some {tid : Nat} {args0 : BitVec 64} {report : ScriptReport}
    (hstep : state.step cs settings (.dlopenEnter tid args0) = some (next, report)) :
    next.moduleNameLoad = some args0 ∧
      next.loading = Function.update state.loading tid (args0 :: state.loading tid) ∧
      next.system = state.system ∧ report = .loading tid args0 := by
  obtain ⟨rfl, rfl⟩ := Prod.mk.inj (Option.some.inj hstep)
  exact ⟨rfl, rfl, rfl, rfl⟩

/-- A load that is left is hooked if the shared variable names the target; the
system changes only by the call that is made then. -/
theorem step_dlopenLeave_eq_some {tid : Nat} {readCString : BitVec 64 → Option Text}
    {answers : LoadAnswers} {report : ScriptReport}
    (hstep : state.step cs settings (.dlopenLeave tid readCString answers) =
      some (next, report)) :
    ∃ name rest call, state.loading tid = name :: rest ∧
      report = .loaded tid name (settings.isTarget (state.moduleNameLoad.bind readCString)) call ∧
      next.moduleNameLoad = state.moduleNameLoad ∧
      next.loading = Function.update state.loading tid rest ∧
      (call = none ∧ next.system = state.system ∨
        settings.isTarget (state.moduleNameLoad.bind readCString) = true ∧
          call = some (settings.call answers) ∧
          next.system = { state.system with
            world := gumTrace state.system.world (settings.call answers) }) := by
  simp only [Scripted.step] at hstep
  split at hstep
  next => cases hstep
  next name rest hopen =>
    by_cases hooking : settings.isTarget (state.moduleNameLoad.bind readCString) = true
    · rw [if_pos hooking] at hstep
      obtain ⟨rfl, rfl⟩ := Prod.mk.inj (Option.some.inj hstep)
      let left := { state with loading := Function.update state.loading tid rest }
      obtain ⟨hname, hloading⟩ := @hookTargetModule_frame settings left answers
      refine ⟨name, rest, (hookTargetModule settings answers left).2, hopen, ?_, hname,
        hloading, ?_⟩
      · rw [hooking]
      · cases hcall : (hookTargetModule settings answers left).2 with
        | none => exact Or.inl ⟨rfl, hookTargetModule_none hcall⟩
        | some call =>
            obtain ⟨rfl, hsystem⟩ := hookTargetModule_call hcall
            exact Or.inr ⟨hooking, rfl, hsystem⟩
    · rw [if_neg hooking] at hstep
      obtain ⟨rfl, rfl⟩ := Prod.mk.inj (Option.some.inj hstep)
      refine ⟨name, rest, none, hopen, ?_, rfl, rfl, Or.inl ⟨rfl, rfl⟩⟩
      rw [Bool.eq_false_iff.mpr hooking]

/-- An event of the process is one of the system, and no call of `gum_trace`. -/
theorem step_process_eq_some {event : Event} {report : ScriptReport}
    (hstep : state.step cs settings (.process event) = some (next, report)) :
    (∀ call, event ≠ .gumTrace call) ∧ next.moduleNameLoad = state.moduleNameLoad ∧
      next.loading = state.loading ∧ ∃ output, report = .process event output ∧
        state.system.recordStep cs event = some (next.system, output) := by
  have hother (hevent : ∀ call, event ≠ .gumTrace call)
      (hmap : (state.system.recordStep cs event).map (fun (system, output) =>
        ({ state with system }, ScriptReport.process event output)) = some (next, report)) :
      next.moduleNameLoad = state.moduleNameLoad ∧ next.loading = state.loading ∧
        ∃ output, report = .process event output ∧
          state.system.recordStep cs event = some (next.system, output) := by
    obtain ⟨⟨system, output⟩, hsystem, heq⟩ := Option.map_eq_some_iff.mp hmap
    obtain ⟨rfl, rfl⟩ := Prod.mk.inj heq
    exact ⟨rfl, rfl, output, rfl, hsystem⟩
  cases event with
  | gumTrace call => cases hstep
  | enter tid target x0 x1 x2 => exact ⟨by simp, hother (by simp) hstep⟩
  | leave tid => exact ⟨by simp, hother (by simp) hstep⟩
  | transform find block => exact ⟨by simp, hother (by simp) hstep⟩
  | callback tid input => exact ⟨by simp, hother (by simp) hstep⟩

end GumTVM
