import GumTVM.Arm64.Context
import GumTVM.Logger.Manager

/-!
# The tracer manager

`InstructionTracerManager`: which module is traced, which further modules are
waiting or traced, and the state that instruction callbacks hand on to later
callbacks. `std::map` is an ordered map, iterated in key order.
-/

namespace GumTVM

open Foundation

/-- `InstructionTracerManager`. The list `writeRegList` is the used part of
`write_reg_list.regs`; its length is `write_reg_list.num`. -/
structure InstructionTracerManager where
  writeRegList : List Arm64Reg
  isPltJmp : Bool
  commonInvocationListener : Option Nat
  logger : Option LoggerManager
  targetTraceAddress : BitVec 64
  traceTid : Nat
  moduleName : Text
  moduleRange : ModuleRange
  pltRange : BitVec 64 × BitVec 64
  traceOtherModules : Std.TreeMap Text Bool
  traceOtherModulesRange : Std.TreeMap Text (BitVec 64 × BitVec 64)

namespace InstructionTracerManager

/-- The static instance before any call. -/
def initial : InstructionTracerManager where
  writeRegList := []
  isPltJmp := false
  commonInvocationListener := none
  logger := none
  targetTraceAddress := 0
  traceTid := 0
  moduleName := []
  moduleRange := ⟨0, 0⟩
  pltRange := (0, 0)
  traceOtherModules := ∅
  traceOtherModulesRange := ∅

/-- A manager that traces one module and nothing else. -/
def ofModule (base endAddr : BitVec 64) : InstructionTracerManager :=
  { initial with moduleRange := ⟨base, endAddr⟩ }

/-- `init`. Replacing the logger destroys the previous one, which closes its
file. -/
def init (self : InstructionTracerManager) (host : Host) (moduleName : Text)
    (offset : BitVec 64) : Bool × InstructionTracerManager :=
  let self := { self with traceTid := 0, moduleName }
  match host.findModuleByName moduleName with
  | none => (false, self)
  | some targetRange =>
      let self := { self with
        moduleRange := ⟨targetRange.baseAddress, targetRange.baseAddress + targetRange.size⟩ }
      if offset > targetRange.size then (false, self)
      else
        (true, { self with
          targetTraceAddress := targetRange.baseAddress + offset
          pltRange := getPltRange host (host.dladdr self.moduleRange.base)
          logger := some (LoggerManager.create moduleName self.moduleRange) })

def isAddressInModuleRange (self : InstructionTracerManager) (addr : BitVec 64) : Bool :=
  if addr < self.moduleRange.base then false
  -- the end address itself passes
  else if addr > self.moduleRange.endAddr then false
  else true

/-- The recorded ranges of other modules in iteration order. -/
def otherRanges (self : InstructionTracerManager) : List (BitVec 64 × BitVec 64) :=
  self.traceOtherModulesRange.toList.map Prod.snd

def isAddressInOtherModuleRange (self : InstructionTracerManager) (addr : BitVec 64) : Bool :=
  self.otherRanges.any fun range => addr > range.1 && addr < range.2

def addTraceOtherModuleEntry (self : InstructionTracerManager) (name : Text) (status : Bool) :
    Bool × InstructionTracerManager :=
  if self.traceOtherModules.contains name then (false, self)
  else (true, { self with
    traceOtherModules := self.traceOtherModules.insertIfNew name status })

def addTraceOtherModuleRangeEntry (self : InstructionTracerManager) (name : Text)
    (range : BitVec 64 × BitVec 64) : Bool × InstructionTracerManager :=
  if self.traceOtherModulesRange.contains name then (false, self)
  else (true, { self with
    traceOtherModulesRange := self.traceOtherModulesRange.insertIfNew name range })

/-- An entry is added under a new key only. -/
theorem getElem?_addEntry {β : Type*} (map : Std.TreeMap Text β) (key name : Text) (value : β) :
    (if map.contains key then map else map.insertIfNew key value)[name]? =
      map[name]?.or (if key = name then some value else none) := by
  by_cases hcontains : map.contains key = true
  · rw [if_pos hcontains]
    by_cases hkey : key = name
    · subst hkey
      rw [← Std.TreeMap.isSome_getElem?_eq_contains] at hcontains
      obtain ⟨prior, hprior⟩ := Option.isSome_iff_exists.mp hcontains
      rw [hprior, Option.some_or]
    · rw [if_neg hkey, Option.or_none]
  · rw [if_neg hcontains]
    rw [← Std.TreeMap.mem_iff_contains] at hcontains
    simp only [Std.TreeMap.getElem?_insertIfNew, Std.LawfulEqCmp.compare_eq_iff_eq]
    by_cases hkey : key = name
    · subst hkey
      rw [if_pos ⟨rfl, hcontains⟩, if_pos rfl, Std.TreeMap.getElem?_eq_none hcontains,
        Option.none_or]
    · rw [if_neg (fun hboth => hkey hboth.1), if_neg hkey, Option.or_none]

theorem isAddressInModuleRange_iff {self : InstructionTracerManager} {addr : BitVec 64} :
    self.isAddressInModuleRange addr = true ↔
      self.moduleRange.base ≤ addr ∧ addr ≤ self.moduleRange.endAddr := by
  unfold isAddressInModuleRange
  split
  next hlow =>
    simp only [Bool.false_eq_true, false_iff, not_and]
    intro hbase
    exact absurd hlow (BitVec.not_lt.mpr hbase)
  next hlow =>
    split
    next hhigh =>
      simp only [Bool.false_eq_true, false_iff, not_and]
      intro _ hend
      exact absurd hhigh (BitVec.not_lt.mpr hend)
    next hhigh =>
      simp only [true_iff]
      exact ⟨BitVec.not_lt.mp hlow, BitVec.not_lt.mp hhigh⟩

theorem mem_otherRanges {self : InstructionTracerManager} {range : BitVec 64 × BitVec 64} :
    range ∈ self.otherRanges ↔ ∃ name : Text, self.traceOtherModulesRange[name]? = some range := by
  simp only [otherRanges, List.mem_map, Prod.exists, Std.TreeMap.mem_toList_iff_getElem?_eq_some,
    exists_eq_right]

theorem isAddressInOtherModuleRange_iff {self : InstructionTracerManager} {addr : BitVec 64} :
    self.isAddressInOtherModuleRange addr = true ↔
      ∃ range ∈ self.otherRanges, range.1 < addr ∧ addr < range.2 := by
  simp [isAddressInOtherModuleRange, List.any_eq_true]

end InstructionTracerManager

end GumTVM
