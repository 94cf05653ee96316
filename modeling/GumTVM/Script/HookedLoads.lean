import GumTVM.Script.Loader

/-!
# Which loads are hooked

A load is judged by the name of the last load that any thread entered. Without
overlapping loads that is its own name; a load that starts while the target is
being loaded makes the script miss the target.
-/

namespace GumTVM

open Foundation

variable {cs : Capstone} {settings : ScriptSettings}

def ScriptEvent.entered : ScriptEvent → Option (BitVec 64)
  | .dlopenEnter _ args0 => some args0
  | _ => none

/-- The name of the last load that was entered. -/
def latestName (events : List ScriptEvent) : Option (BitVec 64) :=
  (events.filterMap ScriptEvent.entered).getLast?

/-- No load is entered while another one is open, nor left by another thread than
the one that entered it; at first `inside` is in a load. -/
def Sequential (inside : Option Nat) : List ScriptEvent → Prop
  | [] => True
  | .dlopenEnter tid _ :: rest => inside = none ∧ Sequential (some tid) rest
  | .dlopenLeave tid _ _ :: rest => inside = some tid ∧ Sequential none rest
  | .process _ :: rest => Sequential inside rest

/-- A load that is left is hooked exactly if its own name contains the name of
the target, and no other load makes a call. -/
def HookedByName (settings : ScriptSettings) : ScriptEvent → ScriptReport → Prop
  | .dlopenLeave tid readCString answers, report => ∃ name hooking call,
      report = .loaded tid name hooking call ∧
        (hooking = true ↔ ∃ text, readCString name = some text ∧ settings.moduleName <:+: text) ∧
        (call = none ∨ hooking = true ∧ call = some (settings.call answers))
  | _, report => report.call = none

/-! ## The shared variable -/

theorem latestName_append (first second : List ScriptEvent) :
    latestName (first ++ second) = (latestName second).or (latestName first) := by
  unfold latestName
  rw [List.filterMap_append, List.getLast?_append]

theorem step_moduleNameLoad {state next : Scripted} {event : ScriptEvent} {report : ScriptReport}
    (hstep : state.step cs settings event = some (next, report)) :
    next.moduleNameLoad = event.entered.or state.moduleNameLoad := by
  cases event with
  | dlopenEnter tid args0 => exact (step_dlopenEnter_eq_some hstep).1
  | dlopenLeave tid readCString answers =>
      obtain ⟨_, _, _, _, _, hname, _⟩ := step_dlopenLeave_eq_some hstep
      exact hname
  | process event => exact (step_process_eq_some hstep).2.1

theorem run_moduleNameLoad {state last : Scripted} {events : List ScriptEvent}
    {reports : List ScriptReport}
    (hrun : Scripted.run cs settings state events = some (last, reports)) :
    last.moduleNameLoad = (latestName events).or state.moduleNameLoad := by
  induction events generalizing state reports with
  | nil =>
      obtain ⟨rfl, -⟩ := Prod.mk.inj (Option.some.inj hrun)
      rfl
  | cons event rest ih =>
      obtain ⟨next, _, _, hstep, hrest, _⟩ := runFrom_cons_eq_some.mp hrun
      have hevent : latestName [event] = event.entered := by
        unfold latestName
        cases hentered : event.entered <;> simp [hentered]
      rw [ih hrest, step_moduleNameLoad hstep, ← List.singleton_append, latestName_append, hevent,
        Option.or_assoc]

/-! ## Loads one after the other -/

/-- With loads one after the other, the only open load is that of the thread
inside, and its name is the latest one. -/
structure OneLoad (inside : Option Nat) (state : Scripted) : Prop where
  others : ∀ tid, inside ≠ some tid → state.loading tid = []
  current : ∀ tid, inside = some tid → ∃ name,
    state.loading tid = [name] ∧ state.moduleNameLoad = some name

theorem sequential_hooked {inside : Option Nat} {state last : Scripted}
    {events : List ScriptEvent} {reports : List ScriptReport} (hone : OneLoad inside state)
    (hsequential : Sequential inside events)
    (hrun : Scripted.run cs settings state events = some (last, reports)) :
    List.Forall₂ (HookedByName settings) events reports := by
  induction events generalizing inside state reports with
  | nil =>
      obtain ⟨-, rfl⟩ := Prod.mk.inj (Option.some.inj hrun)
      exact List.Forall₂.nil
  | cons event rest ih =>
      obtain ⟨next, report, later, hstep, hrest, rfl⟩ := runFrom_cons_eq_some.mp hrun
      cases event with
      | dlopenEnter tid args0 =>
          obtain ⟨hnone, hlater⟩ := hsequential
          subst hnone
          obtain ⟨hname, hloading, -, rfl⟩ := step_dlopenEnter_eq_some hstep
          refine List.Forall₂.cons rfl (ih ⟨?_, ?_⟩ hlater hrest)
          · intro other hother
            have hne : other ≠ tid := fun heq => hother (heq ▸ rfl)
            rw [hloading, Function.update_of_ne hne]
            exact hone.others other (by simp)
          · intro other hsame
            obtain rfl := Option.some.inj hsame
            refine ⟨args0, ?_, hname⟩
            rw [hloading, Function.update_self, hone.others tid (by simp)]
      | dlopenLeave tid readCString answers =>
          obtain ⟨hinside, hlater⟩ := hsequential
          subst hinside
          obtain ⟨name, above, call, hopen, rfl, -, hloading, hcall⟩ :=
            step_dlopenLeave_eq_some hstep
          obtain ⟨own, hown, hlatest⟩ := hone.current tid rfl
          obtain ⟨rfl, rfl⟩ := List.cons.inj (hown.symm.trans hopen)
          rw [hlatest, Option.bind_some] at hcall ⊢
          refine List.Forall₂.cons ⟨own, _, call, rfl, isTarget_iff, ?_⟩
            (ih ⟨?_, by simp⟩ hlater hrest)
          · rcases hcall with ⟨hnone, -⟩ | ⟨hooking, hsome, -⟩
            · exact Or.inl hnone
            · exact Or.inr ⟨hooking, hsome⟩
          · intro other _
            rw [hloading]
            by_cases hother : other = tid
            · rw [hother, Function.update_self]
            · rw [Function.update_of_ne hother]
              exact hone.others other fun heq => hother (Option.some.inj heq).symm
      | process event =>
          obtain ⟨-, hname, hloading, _, rfl, -⟩ := step_process_eq_some hstep
          refine List.Forall₂.cons rfl (ih ⟨?_, ?_⟩ hsequential hrest)
          · rw [hloading]
            exact hone.others
          · rw [hloading, hname]
            exact hone.current

/-- In every run a load that is left is hooked by what the latest name reads as;
if loads come one after the other that is the load's own name. -/
theorem loads_hooked {binaries : ByteFiles} {files : Files} {events : List ScriptEvent}
    {last : Scripted} {reports : List ScriptReport}
    (hrun : Scripted.run cs settings (.initial binaries files) events = some (last, reports)) :
    (∀ before tid readCString answers after,
      events = before ++ .dlopenLeave tid readCString answers :: after →
      ∃ name hooking call, reports[before.length]? = some (.loaded tid name hooking call) ∧
        (hooking = true ↔ ∃ text, (latestName before).bind readCString = some text ∧
          settings.moduleName <:+: text)) ∧
    (Sequential none events → List.Forall₂ (HookedByName settings) events reports) := by
  refine ⟨?_, ?_⟩
  · rintro before tid readCString answers after rfl
    obtain ⟨middle, early, late, hbefore, hafter, rfl⟩ := runFrom_append_eq_some.mp hrun
    obtain ⟨next, report, later, hstep, -, rfl⟩ := runFrom_cons_eq_some.mp hafter
    obtain ⟨name, _, call, _, rfl, _⟩ := step_dlopenLeave_eq_some hstep
    refine ⟨name, settings.isTarget (middle.moduleNameLoad.bind readCString), call, ?_, ?_⟩
    · rw [← runFrom_length hbefore, List.getElem?_append_right (Nat.le_refl _), Nat.sub_self,
        List.getElem?_cons_zero]
    · rw [isTarget_iff, run_moduleNameLoad hbefore]
      exact iff_of_eq (by simp [Scripted.initial])
  · intro hsequential
    exact sequential_hooked ⟨fun _ _ => rfl, by simp⟩ hsequential hrun

/-- The library at one address, another one elsewhere. -/
def sampleNames (addr : BitVec 64) : Option Text :=
  if addr = 0x10 then some "/data/app/libmyapplication.so".toList
  else some "/system/lib64/libc.so".toList

def sampleAnswers : LoadAnswers where
  kernel := shortHost
  loads _ := true
  host := sampleCall.host
  opens := true
  attaches := true

/-- Thread 1 loads the target; meanwhile thread 2 enters a load of something else. -/
def overlappingLoads : List ScriptEvent :=
  [.dlopenEnter 1 0x10, .dlopenEnter 2 0x20, .dlopenLeave 1 sampleNames sampleAnswers,
    .dlopenLeave 2 sampleNames sampleAnswers]

/-- The same loads, one after the other. -/
def sequentialLoads : List ScriptEvent :=
  [.dlopenEnter 2 0x20, .dlopenLeave 2 sampleNames sampleAnswers, .dlopenEnter 1 0x10,
    .dlopenLeave 1 sampleNames sampleAnswers]

theorem loads_hooked_sample :
    (∃ last reports, Scripted.run .standard .shipped (.initial (fun _ => []) fun _ => [])
        overlappingLoads = some (last, reports) ∧
      ∃ name call, reports[2]? = some (.loaded 1 name false call)) ∧
    ∃ last reports, Scripted.run .standard .shipped (.initial (fun _ => []) fun _ => [])
        sequentialLoads = some (last, reports) ∧
      List.Forall₂ (HookedByName .shipped) sequentialLoads reports := by
  obtain ⟨last, reports, hrun⟩ : ∃ last reports, Scripted.run .standard .shipped
      (.initial (fun _ => []) fun _ => []) overlappingLoads = some (last, reports) := ⟨_, _, rfl⟩
  obtain ⟨final, others, hother⟩ : ∃ last reports, Scripted.run .standard .shipped
      (.initial (fun _ => []) fun _ => []) sequentialLoads = some (last, reports) := ⟨_, _, rfl⟩
  refine ⟨⟨last, reports, hrun, ?_⟩, final, others, hother,
    (loads_hooked hother).2 (by simp [Sequential, sequentialLoads])⟩
  obtain ⟨name, hooking, call, hreport, hiff⟩ :=
    (loads_hooked hrun).1 (overlappingLoads.take 2) 1 sampleNames sampleAnswers _ rfl
  have hmissed : hooking = false := by
    rw [← Bool.not_eq_true, hiff]
    rintro ⟨text, htext, hinfix⟩
    obtain rfl := Option.some.inj htext
    exact absurd hinfix (by decide)
  exact ⟨name, call, hmissed ▸ hreport⟩

end GumTVM
