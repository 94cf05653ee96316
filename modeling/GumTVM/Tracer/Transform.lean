import GumTVM.Tracer.Manager

/-!
# The block transformer

For every basic block that is compiled, `transform_callback` first records the
ranges of registered modules that have been loaded meanwhile, then keeps every
instruction of the block and puts a callout before the selected ones.
-/

namespace GumTVM

open Foundation

def isLse (id : Arm64Ins) : Bool :=
  match id with
  | .ldaxr | .ldaxp | .ldaxrb | .ldaxrh | .ldxr | .ldxp | .ldxrb | .ldxrh
  | .stxr | .stxp | .stxrb | .stxrh | .stlxr | .stlxp | .stlxrb | .stlxrh => true
  | _ => false

/-- The calls the transformer makes on its iterator. -/
inductive IteratorCall where
  | putCallout (info : InstructionInfo)
  | keep (insn : CsInsn)

/-- The instructions kept, in order, each with the callouts put since the
previous one. -/
def delivered : List InstructionInfo → List IteratorCall → List (List InstructionInfo × CsInsn)
  | _, [] => []
  | pending, .putCallout info :: rest => delivered (pending ++ [info]) rest
  | pending, .keep insn :: rest => (pending, insn) :: delivered [] rest

namespace InstructionTracerManager

/-- One iteration of the loop over the registered modules. -/
def registerOtherModule (find : Text → Option GumMemoryRange) (self : InstructionTracerManager)
    (entry : Text × Bool) : InstructionTracerManager :=
  if entry.2 then self
  else
    match find entry.1 with
    -- not loaded yet, tried again with the next block
    | none => self
    | some range =>
        let self := (self.addTraceOtherModuleRangeEntry entry.1 range.bounds).2
        { self with traceOtherModules := self.traceOtherModules.insert entry.1 true }

def registerOtherModules (self : InstructionTracerManager)
    (find : Text → Option GumMemoryRange) : InstructionTracerManager :=
  self.traceOtherModules.toList.foldl (registerOtherModule find) self

/-- The condition under which an instruction gets a callout. -/
def selects (self : InstructionTracerManager) (insn : CsInsn) : Bool :=
  isLse insn.id == false &&
    (self.isAddressInModuleRange insn.address || self.isAddressInOtherModuleRange insn.address)

/-- The loop over the instructions of a block. -/
def instrument (self : InstructionTracerManager) : List CsInsn → List IteratorCall
  | [] => []
  | insn :: rest =>
      (if self.selects insn then [.putCallout ⟨insn⟩] else []) ++
        .keep insn :: self.instrument rest

end InstructionTracerManager

def transformCallback (self : InstructionTracerManager) (find : Text → Option GumMemoryRange)
    (block : List CsInsn) : InstructionTracerManager × List IteratorCall :=
  let self := self.registerOtherModules find
  (self, self.instrument block)

/-! ## Laws -/

namespace InstructionTracerManager

variable {self : InstructionTracerManager} {find : Text → Option GumMemoryRange}

theorem registerOtherModule_frame (entry : Text × Bool) :
    self.registerOtherModule find entry = { self with
      traceOtherModules := (self.registerOtherModule find entry).traceOtherModules
      traceOtherModulesRange :=
        (self.registerOtherModule find entry).traceOtherModulesRange } := by
  unfold registerOtherModule addTraceOtherModuleRangeEntry
  split
  · rfl
  · split
    · rfl
    · dsimp only
      split <;> rfl

/-- Registration touches only the two module tables. -/
theorem registerOtherModules_frame :
    self.registerOtherModules find = { self with
      traceOtherModules := (self.registerOtherModules find).traceOtherModules
      traceOtherModulesRange := (self.registerOtherModules find).traceOtherModulesRange } := by
  unfold registerOtherModules
  have hfold (entries : List (Text × Bool)) (current : InstructionTracerManager) :
      entries.foldl (registerOtherModule find) current = { current with
        traceOtherModules :=
          (entries.foldl (registerOtherModule find) current).traceOtherModules
        traceOtherModulesRange :=
          (entries.foldl (registerOtherModule find) current).traceOtherModulesRange } := by
    induction entries generalizing current with
    | nil => rfl
    | cons entry rest ih =>
        rw [List.foldl_cons, ih, registerOtherModule_frame]
  exact hfold _ _

theorem addTraceOtherModuleRangeEntry_range (key name : Text) (range : BitVec 64 × BitVec 64) :
    (self.addTraceOtherModuleRangeEntry key range).2.traceOtherModulesRange[name]? =
      self.traceOtherModulesRange[name]?.or (if key = name then some range else none) := by
  have hmap : (self.addTraceOtherModuleRangeEntry key range).2.traceOtherModulesRange =
      if self.traceOtherModulesRange.contains key then self.traceOtherModulesRange
      else self.traceOtherModulesRange.insertIfNew key range := by
    unfold addTraceOtherModuleRangeEntry
    split <;> rfl
  rw [hmap, getElem?_addEntry]

theorem registerOtherModule_range (entry : Text × Bool) (name : Text) :
    (self.registerOtherModule find entry).traceOtherModulesRange[name]? =
      self.traceOtherModulesRange[name]?.or
        (if entry = (name, false) then (find name).map GumMemoryRange.bounds else none) := by
  obtain ⟨key, status⟩ := entry
  unfold registerOtherModule
  by_cases hkey : key = name
  · subst hkey
    cases status with
    | true => simp
    | false =>
        cases hfind : find key with
        | none => simp
        | some range =>
            simpa [hfind] using addTraceOtherModuleRangeEntry_range key key range.bounds
  · have hentry : (key, status) ≠ (name, false) := fun heq => hkey (congrArg Prod.fst heq)
    rw [if_neg hentry, Option.or_none]
    split
    · rfl
    · split
      · rfl
      next range _ =>
        let next := (self.addTraceOtherModuleRangeEntry key range.bounds).2
        have hother : next.traceOtherModulesRange[name]? = self.traceOtherModulesRange[name]?.or
            (if key = name then some range.bounds else none) :=
          addTraceOtherModuleRangeEntry_range key name range.bounds
        simpa [hkey, next] using hother

/-- The range of an other module for a block: the recorded one, or for a module
that is still waiting the one it is found at. -/
def rangeInForce (self : InstructionTracerManager) (find : Text → Option GumMemoryRange)
    (name : Text) : Option (BitVec 64 × BitVec 64) :=
  self.traceOtherModulesRange[name]?.or
    (if self.traceOtherModules[name]? = some false then
      (find name).map fun found => (found.baseAddress, found.baseAddress + found.size)
    else none)

/-- After registration the table holds the ranges in force. -/
theorem registerOtherModules_range (name : Text) :
    (self.registerOtherModules find).traceOtherModulesRange[name]? =
      self.rangeInForce find name := by
  have hfold (entries : List (Text × Bool)) (current : InstructionTracerManager) :
      (entries.foldl (registerOtherModule find) current).traceOtherModulesRange[name]? =
        current.traceOtherModulesRange[name]?.or
          (if (name, false) ∈ entries then (find name).map GumMemoryRange.bounds else none) := by
    induction entries generalizing current with
    | nil => simp
    | cons entry rest ih =>
        rw [List.foldl_cons, ih, registerOtherModule_range, Option.or_assoc]
        congr 1
        by_cases hentry : entry = (name, false)
        · have hmem : (name, false) ∈ entry :: rest := List.mem_cons.mpr (Or.inl hentry.symm)
          rw [if_pos hentry, if_pos hmem]
          split
          · exact Option.or_self
          · exact Option.or_none
        · rw [if_neg hentry, Option.none_or]
          simp only [List.mem_cons, Ne.symm hentry, false_or]
  unfold registerOtherModules rangeInForce
  rw [hfold]
  simp only [Std.TreeMap.mem_toList_iff_getElem?_eq_some]
  rfl

/-- The closed range of the main module and the open ranges of the others. -/
def InTracedRange (self : InstructionTracerManager) (find : Text → Option GumMemoryRange)
    (addr : BitVec 64) : Prop :=
  self.isAddressInModuleRange addr = true ∨
    ∃ name range, self.rangeInForce find name = some range ∧ range.1 < addr ∧ addr < range.2

theorem selects_iff {insn : CsInsn} :
    self.selects insn = true ↔ isLse insn.id = false ∧
      (self.isAddressInModuleRange insn.address ||
        self.isAddressInOtherModuleRange insn.address) = true := by
  rw [selects, Bool.and_eq_true, beq_iff_eq]

/-- A block's callouts go to its instructions in a traced range, exclusives apart. -/
theorem registerOtherModules_selects_iff {insn : CsInsn} :
    (self.registerOtherModules find).selects insn = true ↔
      isLse insn.id = false ∧ self.InTracedRange find insn.address := by
  have hmain : (self.registerOtherModules find).isAddressInModuleRange insn.address =
      self.isAddressInModuleRange insn.address := by
    rw [registerOtherModules_frame]
    rfl
  have hother : (self.registerOtherModules find).isAddressInOtherModuleRange insn.address = true ↔
      ∃ name range, self.rangeInForce find name = some range ∧
        range.1 < insn.address ∧ insn.address < range.2 := by
    simp only [isAddressInOtherModuleRange_iff, mem_otherRanges, registerOtherModules_range]
    constructor
    · intro hexists
      obtain ⟨range, ⟨name, hrange⟩, hinside⟩ := hexists
      exact ⟨name, range, hrange, hinside⟩
    · intro hexists
      obtain ⟨name, range, hrange, hinside⟩ := hexists
      exact ⟨range, ⟨name, hrange⟩, hinside⟩
  rw [selects_iff, Bool.or_eq_true, hmain, hother]
  rfl

/-- Every instruction of a block is kept once and in order, with one callout in
front of it if it is selected. -/
theorem delivered_instrument (block : List CsInsn) :
    delivered [] (self.instrument block) =
      block.map fun insn => (if self.selects insn then [⟨insn⟩] else [], insn) := by
  induction block with
  | nil => rfl
  | cons insn rest ih =>
      by_cases hselects : self.selects insn = true
      · simp [instrument, delivered, hselects, ih]
      · simp [instrument, delivered, hselects, ih]

end InstructionTracerManager

end GumTVM
