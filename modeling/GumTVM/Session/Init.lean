import GumTVM.Session.Protocol

/-!
# Initialisation of the manager

`init` updates the manager as it goes: the thread and the name before the module
is looked up, the range before the offset is tested. A refused call therefore
leaves the manager as it was only if it already held what was written, and the
test lets the end of the module pass.
-/

namespace GumTVM

open Foundation

variable {cs : Capstone} {self : InstructionTracerManager} {host : Host} {name : Text}
variable {offset : BitVec 64} {range : GumMemoryRange}

/-! ## What a call should do -/

/-- The module is found and the target lies in it, the end excluded. -/
def ValidTarget (host : Host) (name : Text) (offset : BitVec 64) : Prop :=
  ∃ range, host.findModuleByName name = some range ∧
    range.baseAddress.toNat + offset.toNat < range.baseAddress.toNat + range.size.toNat

/-- The bounds the manager keeps of a module. -/
def GumMemoryRange.moduleRange (range : GumMemoryRange) : ModuleRange :=
  ⟨range.baseAddress, range.baseAddress + range.size⟩

/-- The manager is set up for a target in a module. -/
structure TracesModule (manager : InstructionTracerManager) (host : Host) (name : Text)
    (offset : BitVec 64) (range : GumMemoryRange) : Prop where
  target : manager.targetTraceAddress = range.baseAddress + offset
  moduleRange : manager.moduleRange = range.moduleRange
  plt : manager.pltRange = getPltRange host (host.dladdr range.baseAddress)
  logger : manager.logger = some (LoggerManager.create name range.moduleRange)

/-- A running session sees no difference: its thread, module and logger are the
same, and so is the base of every address. -/
structure SameSession (manager next : InstructionTracerManager) : Prop where
  traceTid : next.traceTid = manager.traceTid
  moduleName : next.moduleName = manager.moduleName
  moduleRange : next.moduleRange = manager.moduleRange
  target : next.targetTraceAddress = manager.targetTraceAddress
  plt : next.pltRange = manager.pltRange
  logger : next.logger = manager.logger
  attribution : ∀ pc, currentInsBase next pc = currentInsBase manager pc

/-- `init` accepts the valid targets, and fails without effect. -/
structure InitIsAtomic (manager : InstructionTracerManager) (host : Host) (name : Text)
    (offset : BitVec 64) : Prop where
  accepts : (manager.init host name offset).1 = true ↔ ValidTarget host name offset
  applied : (manager.init host name offset).1 = true → ∃ range,
    host.findModuleByName name = some range ∧
      TracesModule (manager.init host name offset).2 host name offset range
  refused : (manager.init host name offset).1 = false →
    SameSession manager (manager.init host name offset).2

/-- When a call is atomic: the offset is inside a module that is found; or what
the failing call writes before it fails is there already, and the offset is not
the end of the module. -/
def WritesNothingNew (self : InstructionTracerManager) (host : Host) (name : Text)
    (offset : BitVec 64) : Prop :=
  match host.findModuleByName name with
  | none => self.traceTid = 0 ∧ self.moduleName = name
  | some range =>
      offset < range.size ∨
        range.size < offset ∧ self.traceTid = 0 ∧ self.moduleName = name ∧
          self.moduleRange = range.moduleRange

/-! ## The three outcomes -/

theorem init_not_found (hfind : host.findModuleByName name = none) :
    self.init host name offset = (false, { self with traceTid := 0, moduleName := name }) := by
  unfold InstructionTracerManager.init
  rw [hfind]

theorem init_out_of_range (hfind : host.findModuleByName name = some range)
    (hoffset : range.size < offset) :
    self.init host name offset =
      (false, { self with
        traceTid := 0, moduleName := name, moduleRange := range.moduleRange }) := by
  unfold InstructionTracerManager.init
  rw [hfind]
  exact if_pos hoffset

theorem init_accepted (hfind : host.findModuleByName name = some range)
    (hoffset : offset ≤ range.size) :
    self.init host name offset =
      (true, { self with
        traceTid := 0
        moduleName := name
        moduleRange := range.moduleRange
        targetTraceAddress := range.baseAddress + offset
        pltRange := getPltRange host (host.dladdr range.baseAddress)
        logger := some (LoggerManager.create name range.moduleRange) }) := by
  unfold InstructionTracerManager.init
  rw [hfind]
  exact if_neg (BitVec.not_lt.mpr hoffset)

theorem validTarget_iff (hfind : host.findModuleByName name = some range) :
    ValidTarget host name offset ↔ offset < range.size := by
  unfold ValidTarget
  rw [hfind, BitVec.lt_def]
  constructor
  · rintro ⟨_, hsome, hlt⟩
    obtain rfl := Option.some.inj hsome
    omega
  · intro hlt
    exact ⟨range, rfl, by omega⟩

theorem not_validTarget (hfind : host.findModuleByName name = none) :
    ¬ ValidTarget host name offset := by
  rintro ⟨range, hsome, _⟩
  rw [hfind] at hsome
  cases hsome

/-! ## Atomic calls -/

/-- What a refused call may write is invisible only if it was there already. -/
theorem sameSession_iff {moduleRange : ModuleRange} :
    SameSession self { self with traceTid := 0, moduleName := name, moduleRange } ↔
      self.traceTid = 0 ∧ self.moduleName = name ∧ self.moduleRange = moduleRange := by
  constructor
  · intro hsame
    exact ⟨hsame.traceTid.symm, hsame.moduleName.symm, hsame.moduleRange.symm⟩
  · rintro ⟨htid, hname, hrange⟩
    rw [← htid, ← hname, ← hrange]
    exact ⟨rfl, rfl, rfl, rfl, rfl, rfl, fun _ => rfl⟩

theorem initIsAtomic_of_refused {next : InstructionTracerManager}
    (hinit : self.init host name offset = (false, next))
    (hinvalid : ¬ ValidTarget host name offset) :
    InitIsAtomic self host name offset ↔ SameSession self next := by
  constructor
  · intro hatomic
    have hsame := hatomic.refused (by rw [hinit])
    rwa [hinit] at hsame
  · intro hsame
    refine ⟨?_, ?_, ?_⟩
    · simp [hinit, hinvalid]
    · simp [hinit]
    · intro _
      rwa [hinit]

theorem initIsAtomic_of_accepted (hfind : host.findModuleByName name = some range)
    (hoffset : offset ≤ range.size) :
    InitIsAtomic self host name offset ↔ offset < range.size := by
  have hinit : self.init host name offset = _ := init_accepted hfind hoffset
  constructor
  · intro hatomic
    exact (validTarget_iff hfind).mp (hatomic.accepts.mp (by rw [hinit]))
  · intro hlt
    refine ⟨?_, ?_, ?_⟩
    · simp [hinit, validTarget_iff hfind, hlt]
    · intro _
      rw [hinit]
      exact ⟨range, hfind, rfl, rfl, rfl, rfl⟩
    · simp [hinit]

theorem initIsAtomic_iff (self : InstructionTracerManager) (host : Host) (name : Text)
    (offset : BitVec 64) :
    InitIsAtomic self host name offset ↔ WritesNothingNew self host name offset := by
  unfold WritesNothingNew
  cases hfind : host.findModuleByName name with
  | none =>
      have hinit : self.init host name offset = _ := init_not_found hfind
      have hsame : SameSession self { self with traceTid := 0, moduleName := name } ↔ _ :=
        sameSession_iff
      rw [initIsAtomic_of_refused hinit (not_validTarget hfind), hsame]
      simp
  | some range =>
      dsimp only
      by_cases hout : range.size < offset
      · have hinside : ¬ offset < range.size := by bv_omega
        have hinit : self.init host name offset = _ := init_out_of_range hfind hout
        rw [initIsAtomic_of_refused hinit (fun hvalid => hinside ((validTarget_iff hfind).mp hvalid)),
          sameSession_iff]
        simp only [hinside, hout, true_and, false_or]
      · rw [initIsAtomic_of_accepted hfind (BitVec.not_lt.mp hout)]
        simp only [hout, false_and, or_false]

/-! ## Calls in a run -/

/-- Every call of `gum_trace` in a run has a property of the manager it meets. -/
def EveryInit (cs : Capstone) (files : Files) (events : List Event)
    (property : InstructionTracerManager → Host → Text → BitVec 64 → Prop) : Prop :=
  ∀ before call after system reports, events = before ++ .gumTrace call :: after →
    System.run cs (.initial files) before = some (system, reports) →
    property system.world.manager call.host call.moduleName call.offset

/-- Whatever the state, a call accepts exactly the valid targets and fails
without effect if and only if it writes nothing new where it fails and the
offset is not the end; so in a run of such calls every one is atomic. -/
theorem init_atomic_iff (cs : Capstone) (files : Files) (events : List Event) :
    (∀ (self : InstructionTracerManager) (host : Host) (name : Text) (offset : BitVec 64),
      InitIsAtomic self host name offset ↔ WritesNothingNew self host name offset) ∧
    (EveryInit cs files events WritesNothingNew → EveryInit cs files events InitIsAtomic) := by
  refine ⟨initIsAtomic_iff, ?_⟩
  intro hevery before call after system reports hsplit hrun
  rw [initIsAtomic_iff]
  exact hevery before call after system reports hsplit hrun

/-- An environment in which no module is found. -/
def emptyHost : Host where
  findModuleByName _ := none
  dladdr _ := []
  loadElf _ := none

/-- While a session runs, a call for an unknown module clears the traced thread,
and a call with the end of a module as its target is accepted. -/
theorem init_not_atomic :
    ∃ system reports,
      System.run .standard (.initial fun _ => [])
        [.gumTrace sampleCall, .enter 1 0x1010 7 1 2] = some (system, reports) ∧
      ¬ InitIsAtomic system.world.manager emptyHost "libother.so".toList 0 ∧
      ¬ InitIsAtomic system.world.manager sampleCall.host "libtarget.so".toList 0x2000 := by
  refine ⟨_, _, rfl, ?_, ?_⟩
  · intro hatomic
    exact absurd (hatomic.refused rfl).traceTid (by decide)
  · intro hatomic
    obtain ⟨range, hfind, hlt⟩ := hatomic.accepts.mp rfl
    obtain rfl := Option.some.inj hfind
    exact absurd hlt (by decide)

end GumTVM
