import GumTVM.Selection.Ranges
import GumTVM.Session.Path

/-!
# Callouts of compiled blocks

The stalker runs a callout only for an instruction that `transform_callback` put
one in front of when its block was compiled, maybe long before, and hands it the
address of that instruction. Ranges only grow, so such an instruction still lies
in a traced module, and every location in the trace file is one inside a module.
-/

namespace GumTVM

open Foundation

variable {cs : Capstone}

/-- The system with the callouts that compiled blocks hold. -/
structure Stalked where
  system : System
  callouts : List InstructionInfo

/-- The callouts that the transformer puts into a block. -/
def putCallouts (self : InstructionTracerManager) (find : Text → Option GumMemoryRange)
    (block : List CsInsn) : List InstructionInfo :=
  (delivered [] (transformCallback self find block).2).flatMap Prod.fst

/-- A step with what it reports and the callouts it adds. -/
def Stalked.advance (cs : Capstone) (state : Stalked) (event : Event)
    (added : List InstructionInfo) : Option (Stalked × (Report × Option RecordSummary)) :=
  (state.system.recordStep cs event).map fun (system, output) =>
    (⟨system, state.callouts ++ added⟩, output)

def Stalked.step (cs : Capstone) (state : Stalked) (event : Event) :
    Option (Stalked × (Report × Option RecordSummary)) :=
  match event with
  | .transform find block =>
      state.advance cs event (putCallouts state.system.world.manager find block)
  | .callback _ input =>
      if input.info ∈ state.callouts ∧ input.ctx.pc = input.info.insnCopy.address then
        state.advance cs event []
      else none
  | .gumTrace _ | .enter _ _ _ _ _ | .leave _ => state.advance cs event []

/-- Nothing has been compiled when `gum_trace` returns. -/
def Stalked.start (files : Files) (call : GumTraceCall) : Stalked where
  system := .start files call
  callouts := []

/-- The location lies in the main module or in one of the others; the main module
includes its end, the others leave out their first byte. -/
def Location.Within (range : GumMemoryRange) (others : List (BitVec 64 × BitVec 64)) :
    Location → Prop
  | .main offset => offset ≤ range.size
  | .other pc offset => ∃ other ∈ others, pc - offset = other.1 ∧ other.1 < pc ∧ pc < other.2

/-! ## Selected instructions -/

theorem mem_putCallouts {self : InstructionTracerManager} {find : Text → Option GumMemoryRange}
    {block : List CsInsn} {info : InstructionInfo} (hinfo : info ∈ putCallouts self find block) :
    info.insnCopy ∈ block ∧ (transformCallback self find block).1.selects info.insnCopy = true := by
  unfold putCallouts at hinfo
  obtain ⟨⟨callouts, insn⟩, hentry, hput⟩ := List.mem_flatMap.mp hinfo
  obtain ⟨hinsn, hshape, hselected⟩ := delivered_cases hentry
  have hselects := hselected.mp (List.ne_nil_of_mem hput)
  rcases hshape with rfl | rfl
  · cases hput
  · obtain rfl := List.mem_singleton.mp hput
    exact ⟨hinsn, hselects⟩

/-- What was selected once stays selected. -/
theorem RangesGrow.selects {manager next : InstructionTracerManager}
    (hgrow : RangesGrow manager next) {insn : CsInsn} (hselects : manager.selects insn = true) :
    next.selects insn = true := by
  rw [InstructionTracerManager.selects_iff, Bool.or_eq_true] at hselects ⊢
  refine ⟨hselects.1, ?_⟩
  rcases hselects.2 with hmain | hother
  · left
    rw [InstructionTracerManager.isAddressInModuleRange_iff] at hmain ⊢
    rw [hgrow.moduleRange]
    exact hmain
  · right
    rw [InstructionTracerManager.isAddressInOtherModuleRange_iff] at hother ⊢
    obtain ⟨range, hrange, hinside⟩ := hother
    exact ⟨range, hgrow.otherRanges hrange, hinside⟩

/-- A selected address is located in the module whose test it passes. -/
theorem locate_within {self : InstructionTracerManager} {range : GumMemoryRange}
    (hrange : self.moduleRange = range.moduleRange) {insn : CsInsn}
    (hselects : self.selects insn = true) :
    (self.locate insn.address).Within range self.otherRanges := by
  rw [InstructionTracerManager.selects_iff, Bool.or_eq_true] at hselects
  unfold InstructionTracerManager.locate currentInsBase
  by_cases hmain : self.isAddressInModuleRange insn.address = true
  · rw [if_pos hmain, if_pos hmain]
    rw [InstructionTracerManager.isAddressInModuleRange_iff, hrange] at hmain
    rw [hrange]
    unfold Location.Within GumMemoryRange.moduleRange at *
    dsimp only at hmain ⊢
    bv_omega
  · have hother := hselects.2.resolve_left hmain
    rw [if_neg hmain, if_neg hmain]
    obtain ⟨other, hmem, hinside⟩ :=
      InstructionTracerManager.isAddressInOtherModuleRange_iff.mp hother
    obtain ⟨found, hfound, hmatch, hbase⟩ := exists_lastMatch
      (fun range => insn.address > range.1 ∧ insn.address < range.2) Prod.fst
      self.moduleRange.base hmem hinside
    unfold lastMatch at hbase
    rw [hbase]
    refine ⟨found, hfound, ?_, hmatch⟩
    bv_omega

theorem Location.Within.mono {range : GumMemoryRange} {others later : List (BitVec 64 × BitVec 64)}
    (hsubset : others ⊆ later) {location : Location} (hwithin : location.Within range others) :
    location.Within range later := by
  cases location with
  | main offset => exact hwithin
  | other pc offset =>
      obtain ⟨other, hother, hinside⟩ := hwithin
      exact ⟨other, hsubset hother, hinside⟩

/-! ## Runs -/

theorem advance_eq_some {state next : Stalked} {event : Event} {added : List InstructionInfo}
    {output : Report × Option RecordSummary}
    (hstep : state.advance cs event added = some (next, output)) :
    state.system.recordStep cs event = some (next.system, output) ∧
      next.callouts = state.callouts ++ added := by
  obtain ⟨⟨system, reported⟩, hsystem, heq⟩ := Option.map_eq_some_iff.mp hstep
  obtain ⟨rfl, rfl⟩ := Prod.mk.inj heq
  exact ⟨hsystem, rfl⟩

theorem stalked_callback_eq_some {state next : Stalked} {tid : Nat} {input : CallbackInput}
    {output : Report × Option RecordSummary}
    (hstep : state.step cs (.callback tid input) = some (next, output)) :
    input.info ∈ state.callouts ∧ input.ctx.pc = input.info.insnCopy.address ∧
      state.advance cs (.callback tid input) [] = some (next, output) := by
  simp only [Stalked.step] at hstep
  split at hstep
  next hput => exact ⟨hput.1, hput.2, hstep⟩
  next => cases hstep

/-- The stalker delivers a part of what the system accepts. -/
theorem stalked_step {state next : Stalked} {event : Event}
    {output : Report × Option RecordSummary}
    (hstep : state.step cs event = some (next, output)) :
    state.system.recordStep cs event = some (next.system, output) := by
  cases event with
  | callback tid input =>
      obtain ⟨-, -, hadvance⟩ := stalked_callback_eq_some hstep
      exact (advance_eq_some hadvance).1
  | transform find block | gumTrace call | enter tid target x0 x1 x2 | leave tid =>
      exact (advance_eq_some hstep).1

/-- Callouts are held for selected instructions only, and what has been recorded
lies in the modules known by now. -/
structure StalkInvariant (range : GumMemoryRange)
    (outputs : List (Report × Option RecordSummary)) (state : Stalked) : Prop where
  moduleRange : state.system.world.manager.moduleRange = range.moduleRange
  selected : ∀ info ∈ state.callouts, state.system.world.manager.selects info.insnCopy = true
  located : ∀ record ∈ records outputs, ∃ location,
    readLocation record.instruction = some location ∧
      location.Within range state.system.world.manager.otherRanges

namespace StalkInvariant

variable {range : GumMemoryRange} {outputs : List (Report × Option RecordSummary)}
variable {state next : Stalked} {event : Event} {output : Report × Option RecordSummary}

/-- What a step has to show: its callouts are selected and its record is located. -/
theorem extend (hcall : ∀ call, event ≠ .gumTrace call)
    (hinv : StalkInvariant range outputs state) (hstep : state.step cs event = some (next, output))
    (hadded : ∀ info ∈ next.callouts, info ∈ state.callouts ∨
      next.system.world.manager.selects info.insnCopy = true)
    (hrecord : ∀ record, output.2 = some record → ∃ location,
      readLocation record.instruction = some location ∧
        location.Within range state.system.world.manager.otherRanges) :
    StalkInvariant range (outputs ++ [output]) next := by
  have hgrow := step_rangesGrow hcall (recordStep_eq_some.mp (stalked_step hstep)).1
  refine ⟨hgrow.moduleRange.trans hinv.moduleRange, ?_, ?_⟩
  · intro info hinfo
    rcases hadded info hinfo with hold | hnew
    · exact hgrow.selects (hinv.selected info hold)
    · exact hnew
  · intro record hmem
    have hlocated : ∃ location, readLocation record.instruction = some location ∧
        location.Within range state.system.world.manager.otherRanges := by
      rw [records_append, List.mem_append] at hmem
      rcases hmem with hold | hnew
      · exact hinv.located record hold
      · refine hrecord record ?_
        simpa [records] using hnew
    obtain ⟨location, hread, hwithin⟩ := hlocated
    exact ⟨location, hread, hwithin.mono hgrow.otherRanges⟩

theorem step (hcall : ∀ call, event ≠ .gumTrace call)
    (hinv : StalkInvariant range outputs state)
    (hstep : state.step cs event = some (next, output)) :
    StalkInvariant range (outputs ++ [output]) next := by
  have hsystem := stalked_step hstep
  have hsilent (hother : ∀ tid input, event ≠ .callback tid input)
      (record : RecordSummary) (hsome : output.2 = some record) : False := by
    obtain ⟨hplain, hrecord⟩ := recordStep_eq_some.mp hsystem
    obtain ⟨-, -, hnone⟩ := step_unrecorded hother hcall hplain
    rw [hrecord, hnone] at hsome
    cases hsome
  cases event with
  | gumTrace call => exact absurd rfl (hcall call)
  | enter tid target x0 x1 x2 | leave tid =>
      obtain ⟨-, hcallouts⟩ := advance_eq_some hstep
      refine hinv.extend hcall hstep ?_ fun record hsome => (hsilent (by simp) record hsome).elim
      intro info hinfo
      rw [hcallouts, List.append_nil] at hinfo
      exact Or.inl hinfo
  | transform find block =>
      obtain ⟨-, hcallouts⟩ := advance_eq_some hstep
      refine hinv.extend hcall hstep ?_ fun record hsome => (hsilent (by simp) record hsome).elim
      intro info hinfo
      rw [hcallouts] at hinfo
      rcases List.mem_append.mp hinfo with hold | hput
      · exact Or.inl hold
      · obtain ⟨hnext, -⟩ := Prod.mk.inj (Option.some.inj (recordStep_eq_some.mp hsystem).1)
        rw [← hnext]
        exact Or.inr (mem_putCallouts hput).2
  | callback tid input =>
      obtain ⟨hput, haddress, hadvance⟩ := stalked_callback_eq_some hstep
      obtain ⟨-, hcallouts⟩ := advance_eq_some hadvance
      refine hinv.extend hcall hstep ?_ ?_
      · intro info hinfo
        rw [hcallouts, List.append_nil] at hinfo
        exact Or.inl hinfo
      · intro record hsome
        obtain ⟨_, hsame, hlocation⟩ := recordStep_location hsystem
        obtain rfl := Option.some.inj (hsame.symm.trans hsome)
        refine ⟨_, hlocation, ?_⟩
        rw [haddress]
        exact locate_within hinv.moduleRange (hinv.selected _ hput)

end StalkInvariant

/-- When callouts come from compiled blocks, every record that the trace file
decodes to is located in the main module or in another one known at the end. -/
theorem session_located (hnames : cs.WordNames) (files : Files) {call : GumTraceCall}
    (hcall : call.Succeeds) {range : GumMemoryRange}
    (hrange : call.host.findModuleByName call.moduleName = some range) {events : List Event}
    (honce : ∀ event ∈ events, ∀ call, event ≠ .gumTrace call)
    (hclean : ∀ tid input, Event.callback tid input ∈ events → input.Clean) {last : Stalked}
    {outputs : List (Report × Option RecordSummary)}
    (hrun : runFrom (Stalked.step cs) (Stalked.start files call) events = some (last, outputs)) :
    ∀ record ∈ decodeTrace (last.system.world.files call.traceFile), ∃ location,
      readLocation record.instruction = some location ∧
        location.Within range last.system.world.manager.otherRanges := by
  have hplain : runFrom (System.recordStep cs) (System.start files call) events =
      some (last.system, outputs) := by
    have hrefined := runFrom_refines Stalked.system id
      (fun _ _ _ _ hstep => stalked_step hstep) hrun
    rwa [List.map_id] at hrefined
  have htrace := TraceInvariant.of_run hnames files hcall honce hclean hplain
  have hinv : StalkInvariant range outputs last :=
    runFrom_history_invariant (fun event => ∀ call, event ≠ Event.gumTrace call)
      (StalkInvariant range)
      (fun _ _ _ _ _ hevent hstate hstep => hstate.step hevent hstep) honce
      ⟨start_moduleRange files hcall hrange, by simp [Stalked.start], by simp [records]⟩ hrun
  rw [htrace.file.decodeTrace.1]
  exact hinv.located

/-- Where the second of the other modules is found. -/
def findMiddleTier (name : Text) : Option GumMemoryRange :=
  if name = "libsgmiddletierso-6.6.230703.so".toList then some ⟨0x5000, 0x1000⟩ else none

/-- A block of the main module and one of another module are compiled, and one
instruction of each is executed. -/
def stalkedSession : List Event :=
  [.enter 1 0x1010 7 1 2, .transform findMiddleTier [moveStep.callback.info.insnCopy],
    .callback 1 moveStep.callback,
    .transform findMiddleTier [(nopStep (stateAt 0x5004 1)).info.insnCopy],
    .callback 1 (nopStep (stateAt 0x5004 1)).callback, .leave 1]

theorem stalkedSession_clean {tid : Nat} {input : CallbackInput}
    (hmem : Event.callback tid input ∈ stalkedSession) : input.Clean := by
  have hinput : input = moveStep.callback ∨ input = (nopStep (stateAt 0x5004 1)).callback := by
    simp only [stalkedSession, List.mem_cons, Event.callback.injEq, List.not_mem_nil] at hmem
    tauto
  rcases hinput with rfl | rfl <;> exact clean_of_empty rfl (by decide) (by decide)

theorem session_located_stalked :
    ∃ last outputs,
      runFrom (Stalked.step .standard) (Stalked.start (fun _ => []) sampleCall) stalkedSession =
        some (last, outputs) ∧
      (records outputs).map (fun record => readLocation record.instruction) =
        [some (.main 0), some (.other 0x5004 4)] ∧
      ∀ record ∈ decodeTrace (last.system.world.files sampleCall.traceFile), ∃ location,
        readLocation record.instruction = some location ∧
          location.Within ⟨0x1000, 0x2000⟩ last.system.world.manager.otherRanges := by
  obtain ⟨last, outputs, hrun, hlocations⟩ : ∃ last outputs,
      runFrom (Stalked.step .standard) (Stalked.start (fun _ => []) sampleCall) stalkedSession =
        some (last, outputs) ∧
      (records outputs).map (fun record => readLocation record.instruction) =
        [some (.main 0), some (.other 0x5004 4)] := ⟨_, _, rfl, rfl⟩
  have hcall : sampleCall.Succeeds := ⟨⟨_, rfl, by decide⟩, rfl, rfl⟩
  exact ⟨last, outputs, hrun, hlocations, session_located Capstone.standard_wordNames _ hcall rfl
    (by simp [stalkedSession]) (fun _ _ hmem => stalkedSession_clean hmem) hrun⟩

end GumTVM
