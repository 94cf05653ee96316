import GumTVM.Tracer.Transform
import Mathlib.Data.List.Induction
import Mathlib.Data.List.TakeWhile

/-!
# The table of other modules

Modules are registered by name at any time and located when a block is compiled.
The manager keeps a status and a range in two maps. Abstractly a name is unknown,
waits, or is traced at a range that never changes; the maps represent that table,
and its entries are given by the events alone: a module's range is the first one
reported from its registration on.
-/

namespace GumTVM

open Foundation

/-! ## Events -/

/-- What happens to the table: `add_trace_other_module_entry(name, false)`, or a
run of `transform_callback` with the answers of the module lookup in it. -/
inductive TableEvent where
  | register (name : Text)
  | transform (find : Text → Option GumMemoryRange) (block : List CsInsn)

namespace TableEvent

def registers (name : Text) : TableEvent → Bool
  | register other => other = name
  | transform _ _ => false

/-- The range reported for a module. -/
def answer (name : Text) : TableEvent → Option GumMemoryRange
  | register _ => none
  | transform find _ => find name

end TableEvent

/-- The first range reported for a module from its registration on. -/
def firstFound (events : List TableEvent) (name : Text) : Option GumMemoryRange :=
  (events.dropWhile fun event => !event.registers name).findSome? (·.answer name)

namespace InstructionTracerManager

def applyTableEvent (self : InstructionTracerManager) : TableEvent → InstructionTracerManager
  | .register name => (self.addTraceOtherModuleEntry name false).2
  | .transform find block => (transformCallback self find block).1

def applyTableEvents (self : InstructionTracerManager) (events : List TableEvent) :
    InstructionTracerManager :=
  events.foldl applyTableEvent self

end InstructionTracerManager

/-! ## The abstract table -/

/-- The state of each name: unknown, waiting, or traced at a range. -/
abbrev ModuleTable := Text → Option (Option (BitVec 64 × BitVec 64))

namespace ModuleTable

/-- A new name waits; a waiting one takes the range it is found at. -/
def step (table : ModuleTable) : TableEvent → ModuleTable
  | .register name => fun key => (table key).or (if name = key then some none else none)
  | .transform find _ => fun key =>
      (table key).map fun range => range.or ((find key).map fun found =>
        (found.baseAddress, found.baseAddress + found.size))

def after (events : List TableEvent) : ModuleTable := events.foldl step fun _ => none

theorem after_snoc (events : List TableEvent) (event : TableEvent) :
    after (events ++ [event]) = (after events).step event := by
  rw [after, List.foldl_append]
  rfl

end ModuleTable

/-! ## First answers -/

theorem dropWhile_registers_eq_nil_iff {events : List TableEvent} {name : Text} :
    (events.dropWhile fun event => !event.registers name) = [] ↔
      ∀ event ∈ events, event.registers name = false := by
  simp [List.dropWhile_eq_nil_iff]

/-- What the next event adds to the first answer. -/
theorem firstFound_snoc (events : List TableEvent) (event : TableEvent) (name : Text) :
    firstFound (events ++ [event]) name =
      (firstFound events name).or
        (if ∀ prior ∈ events, prior.registers name = false then none
          else event.answer name) := by
  unfold firstFound
  rw [List.dropWhile_append]
  by_cases hnone : ∀ prior ∈ events, prior.registers name = false
  · have hnil := dropWhile_registers_eq_nil_iff.mpr hnone
    rw [if_pos hnone, hnil]
    cases event with
    | register other =>
        by_cases hother : other = name
        · simp [TableEvent.registers, TableEvent.answer, hother]
        · simp [TableEvent.registers, hother]
    | transform find block => simp [TableEvent.registers]
  · have hne := fun hnil => hnone (dropWhile_registers_eq_nil_iff.mp hnil)
    rw [if_neg hnone, List.isEmpty_eq_false_iff.mpr hne, if_neg Bool.false_ne_true,
      List.findSome?_append]
    simp

theorem firstFound_eq_none {events : List TableEvent} {name : Text}
    (hnone : ∀ event ∈ events, event.registers name = false) : firstFound events name = none := by
  unfold firstFound
  rw [dropWhile_registers_eq_nil_iff.mpr hnone]
  rfl

/-- A found module keeps its first answer whatever happens later. -/
theorem firstFound_append {events : List TableEvent} {name : Text} {range : GumMemoryRange}
    (hfound : firstFound events name = some range) (later : List TableEvent) :
    firstFound (events ++ later) name = some range := by
  induction later using List.reverseRecOn with
  | nil => rw [List.append_nil, hfound]
  | append_singleton later event ih =>
      rw [← List.append_assoc, firstFound_snoc, ih, Option.some_or]

/-- The abstract table after a list of events. -/
theorem ModuleTable.after_eq (events : List TableEvent) (name : Text) :
    after events name =
      if ∀ event ∈ events, event.registers name = false then none
      else some ((firstFound events name).map fun found =>
        (found.baseAddress, found.baseAddress + found.size)) := by
  induction events using List.reverseRecOn with
  | nil => rfl
  | append_singleton events event ih =>
      have hevery : (∀ other ∈ events ++ [event], other.registers name = false) ↔
          (∀ other ∈ events, other.registers name = false) ∧ event.registers name = false := by
        simp [or_imp, forall_and]
      rw [after_snoc, firstFound_snoc]
      by_cases hnone : ∀ other ∈ events, other.registers name = false
      · rw [if_pos hnone] at ih
        simp only [hevery, eq_true hnone, if_true, true_and, Option.or_none,
          firstFound_eq_none hnone, Option.map_none]
        cases event with
        | register other => simp [step, ih, TableEvent.registers]
        | transform find block => simp [step, ih, TableEvent.registers]
      · rw [if_neg hnone] at ih
        simp only [hevery, eq_false hnone, if_false, false_and]
        cases event with
        | register other => simp [step, ih, TableEvent.answer]
        | transform find block => simp [step, ih, TableEvent.answer, Option.map_or]

/-! ## The maps represent the table -/

namespace InstructionTracerManager

variable {self : InstructionTracerManager} {find : Text → Option GumMemoryRange}

theorem addTraceOtherModuleEntry_status (name key : Text) :
    (self.addTraceOtherModuleEntry name false).2.traceOtherModules[key]? =
      self.traceOtherModules[key]?.or (if name = key then some false else none) := by
  have hmap : (self.addTraceOtherModuleEntry name false).2.traceOtherModules =
      if self.traceOtherModules.contains name then self.traceOtherModules
      else self.traceOtherModules.insertIfNew name false := by
    unfold addTraceOtherModuleEntry
    split <;> rfl
  rw [hmap, getElem?_addEntry]

theorem addTraceOtherModuleEntry_ranges (name : Text) :
    (self.addTraceOtherModuleEntry name false).2.traceOtherModulesRange =
      self.traceOtherModulesRange := by
  unfold addTraceOtherModuleEntry
  split <;> rfl

theorem registerOtherModule_status (entry : Text × Bool) (name : Text) :
    (self.registerOtherModule find entry).traceOtherModules[name]? =
      if entry = (name, false) ∧ (find name).isSome then some true
      else self.traceOtherModules[name]? := by
  obtain ⟨key, status⟩ := entry
  unfold registerOtherModule
  cases status with
  | true => simp
  | false =>
      have hframe (range : BitVec 64 × BitVec 64) :
          (self.addTraceOtherModuleRangeEntry key range).2.traceOtherModules =
            self.traceOtherModules := by
        unfold addTraceOtherModuleRangeEntry
        split <;> rfl
      cases hfind : find key with
      | none =>
          by_cases hkey : key = name
          · subst hkey
            simp [hfind]
          · simp [hkey]
      | some range =>
          by_cases hkey : key = name
          · subst hkey
            simp [hfind]
          · simp [hkey, hframe, Std.TreeMap.getElem?_insert]

/-- After a transform every waiting module that was found is marked. -/
theorem registerOtherModules_status (name : Text) :
    (self.registerOtherModules find).traceOtherModules[name]? =
      if self.traceOtherModules[name]? = some false ∧ (find name).isSome then some true
      else self.traceOtherModules[name]? := by
  have hfold (entries : List (Text × Bool)) (current : InstructionTracerManager) :
      (entries.foldl (registerOtherModule find) current).traceOtherModules[name]? =
        if (name, false) ∈ entries ∧ (find name).isSome then some true
        else current.traceOtherModules[name]? := by
    induction entries generalizing current with
    | nil => simp
    | cons entry rest ih =>
        rw [List.foldl_cons, ih, registerOtherModule_status]
        by_cases hentry : entry = (name, false)
        · subst hentry
          by_cases hfound : (find name).isSome = true
          · simp [hfound]
          · simp [hfound]
        · simp [hentry, Ne.symm hentry]
  unfold registerOtherModules
  rw [hfold]
  simp only [Std.TreeMap.mem_toList_iff_getElem?_eq_some]

end InstructionTracerManager

/-- The two maps of the manager hold a table: the status tells whether a known
name has its range. -/
structure Represents (manager : InstructionTracerManager) (table : ModuleTable) : Prop where
  status : ∀ name : Text, manager.traceOtherModules[name]? = (table name).map Option.isSome
  ranges : ∀ name : Text, manager.traceOtherModulesRange[name]? = (table name).join

/-- Each event does to the maps what it does to the table. -/
theorem Represents.applyTableEvent {self : InstructionTracerManager} {table : ModuleTable}
    (hself : Represents self table) (event : TableEvent) :
    Represents (self.applyTableEvent event) (table.step event) := by
  cases event with
  | register name =>
      refine ⟨?_, ?_⟩
      · intro key
        rw [InstructionTracerManager.applyTableEvent,
          InstructionTracerManager.addTraceOtherModuleEntry_status, hself.status]
        by_cases hkey : name = key
        · cases htable : table key <;> simp [ModuleTable.step, htable, hkey]
        · simp [ModuleTable.step, hkey]
      · intro key
        rw [InstructionTracerManager.applyTableEvent,
          InstructionTracerManager.addTraceOtherModuleEntry_ranges, hself.ranges]
        by_cases hkey : name = key
        · cases htable : table key <;> simp [ModuleTable.step, htable, hkey]
        · simp [ModuleTable.step, hkey]
  | transform find block =>
      refine ⟨?_, ?_⟩
      · intro key
        rw [InstructionTracerManager.applyTableEvent, transformCallback,
          InstructionTracerManager.registerOtherModules_status, hself.status]
        cases htable : table key with
        | none => simp [ModuleTable.step, htable]
        | some range =>
            cases range with
            | none => cases hfind : find key <;> simp [ModuleTable.step, htable, hfind]
            | some range => simp [ModuleTable.step, htable]
      · intro key
        rw [InstructionTracerManager.applyTableEvent, transformCallback,
          InstructionTracerManager.registerOtherModules_range,
          InstructionTracerManager.rangeInForce, hself.ranges, hself.status]
        cases htable : table key with
        | none => simp [ModuleTable.step, htable]
        | some range =>
            cases range with
            | none => cases hfind : find key <;> simp [ModuleTable.step, htable, hfind]
            | some range => simp [ModuleTable.step, htable]

/-- A manager with empty tables of other modules, as after loading. -/
def InstructionTracerManager.withoutOthers (self : InstructionTracerManager) :
    InstructionTracerManager :=
  { self with traceOtherModules := ∅, traceOtherModulesRange := ∅ }

theorem represents_after (self : InstructionTracerManager) (events : List TableEvent) :
    Represents (self.withoutOthers.applyTableEvents events) (ModuleTable.after events) := by
  induction events using List.reverseRecOn with
  | nil =>
      refine ⟨?_, ?_⟩
      · intro name
        exact Std.TreeMap.getElem?_emptyc
      · intro name
        exact Std.TreeMap.getElem?_emptyc
  | append_singleton events event ih =>
      rw [InstructionTracerManager.applyTableEvents, List.foldl_append, ModuleTable.after_snoc]
      exact ih.applyTableEvent event

/-! ## The invariant -/

/-- The tables of a manager after some events. -/
structure TableInvariant (events : List TableEvent) (manager : InstructionTracerManager) :
    Prop where
  /-- A name has status true exactly when it has a range. -/
  traced_iff : ∀ name : Text,
    manager.traceOtherModules[name]? = some true ↔ name ∈ manager.traceOtherModulesRange
  /-- The range is the first one reported from the registration on. -/
  range_eq : ∀ name : Text, manager.traceOtherModulesRange[name]? =
    (firstFound events name).map fun found =>
      (found.baseAddress, found.baseAddress + found.size)
  /-- A recorded range stays, whatever happens later. -/
  range_kept : ∀ (later : List TableEvent) (name : Text) (range : BitVec 64 × BitVec 64),
    manager.traceOtherModulesRange[name]? = some range →
    (manager.applyTableEvents later).traceOtherModulesRange[name]? = some range
  /-- The known names are those that were registered. -/
  registered_iff : ∀ name : Text, name ∈ manager.traceOtherModules ↔ .register name ∈ events
  /-- A repeated registration is refused and changes nothing. -/
  repeated : ∀ name : Text, .register name ∈ events →
    manager.addTraceOtherModuleEntry name false = (false, manager)
  /-- After a transform every registered module found in it has a range. -/
  located : ∀ (find : Text → Option GumMemoryRange) (block : List CsInsn) (name : Text),
    .register name ∈ events → (find name).isSome →
    name ∈ (transformCallback manager find block).1.traceOtherModulesRange

theorem registers_eq_true_iff {name : Text} {event : TableEvent} :
    event.registers name = true ↔ event = .register name := by
  cases event <;> simp [TableEvent.registers]

theorem not_registered_iff {events : List TableEvent} {name : Text} :
    (∀ event ∈ events, event.registers name = false) ↔ .register name ∉ events := by
  constructor
  · intro hnone hmem
    have htrue : (TableEvent.register name).registers name = true :=
      registers_eq_true_iff.mpr rfl
    rw [hnone _ hmem] at htrue
    cases htrue
  · intro hnot event hmem
    rw [← Bool.not_eq_true, registers_eq_true_iff]
    rintro rfl
    exact hnot hmem

theorem applyTableEvents_append (self : InstructionTracerManager)
    (first second : List TableEvent) :
    self.applyTableEvents (first ++ second) =
      (self.applyTableEvents first).applyTableEvents second := List.foldl_append

/-- What the maps hold, read off the events. -/
theorem tables_eq (self : InstructionTracerManager) (events : List TableEvent) (name : Text) :
    (self.withoutOthers.applyTableEvents events).traceOtherModules[name]? =
        (if ∀ event ∈ events, event.registers name = false then none
          else some (firstFound events name).isSome) ∧
      (self.withoutOthers.applyTableEvents events).traceOtherModulesRange[name]? =
        (firstFound events name).map fun found =>
          (found.baseAddress, found.baseAddress + found.size) := by
  have hrepresents := represents_after self events
  rw [hrepresents.status, hrepresents.ranges, ModuleTable.after_eq]
  by_cases hnone : ∀ event ∈ events, event.registers name = false
  · rw [if_pos hnone, if_pos hnone, firstFound_eq_none hnone]
    exact ⟨rfl, rfl⟩
  · rw [if_neg hnone, if_neg hnone]
    cases firstFound events name <;> exact ⟨rfl, rfl⟩

/-- After any registrations and transforms, in any order and with any answers,
the tables satisfy the invariant. -/
theorem table_invariant (self : InstructionTracerManager) (events : List TableEvent) :
    TableInvariant events (self.withoutOthers.applyTableEvents events) := by
  have htables := tables_eq self events
  have hregistered (name : Text) :
      name ∈ (self.withoutOthers.applyTableEvents events).traceOtherModules ↔
        .register name ∈ events := by
    rw [← Std.TreeMap.isSome_getElem?_iff_mem, (htables name).1, ← not_iff_not,
      ← not_registered_iff]
    by_cases hnone : ∀ event ∈ events, event.registers name = false
    · simp [eq_true hnone]
    · simp [eq_false hnone]
  refine ⟨?_, fun name => (htables name).2, ?_, hregistered, ?_, ?_⟩
  · intro name
    rw [← Std.TreeMap.isSome_getElem?_iff_mem, (htables name).1, (htables name).2]
    by_cases hnone : ∀ event ∈ events, event.registers name = false
    · simp [if_pos hnone, firstFound_eq_none hnone]
    · simp [if_neg hnone]
  · intro later name range hrange
    rw [(htables name).2] at hrange
    obtain ⟨found, hfound, rfl⟩ := Option.map_eq_some_iff.mp hrange
    rw [← applyTableEvents_append, (tables_eq self (events ++ later) name).2,
      firstFound_append hfound, Option.map_some]
  · intro name hmem
    have hcontains := Std.TreeMap.mem_iff_contains.mp ((hregistered name).mpr hmem)
    unfold InstructionTracerManager.addTraceOtherModuleEntry
    rw [if_pos hcontains]
  · intro find block name hmem hfound
    -- the transform is one more event
    have hnext := (tables_eq self (events ++ [.transform find block]) name).2
    have hregisters : ¬ ∀ event ∈ events, event.registers name = false := fun hnone =>
      not_registered_iff.mp hnone hmem
    rw [applyTableEvents_append, firstFound_snoc, if_neg hregisters] at hnext
    have hsome : (((firstFound events name).or (find name)).map fun found =>
        (found.baseAddress, found.baseAddress + found.size)).isSome = true := by
      rw [Option.isSome_map, Option.isSome_or, hfound, Bool.or_true]
    rw [← Std.TreeMap.isSome_getElem?_iff_mem]
    exact (congrArg Option.isSome hnext).trans hsome

/-- A module that is registered before it is loaded, found once, and reported
elsewhere later on. -/
def lateModule (name : Text) : List TableEvent :=
  [.register name, .transform (fun _ => none) [],
    .transform (fun key => if key = name then some ⟨0x7000, 0x2000⟩ else none) [],
    .register name, .transform (fun _ => some ⟨0x20000, 0x1000⟩) []]

theorem table_invariant_lateModule :
    (InstructionTracerManager.initial.withoutOthers.applyTableEvents
      (lateModule "libssl.so".toList)).traceOtherModulesRange["libssl.so".toList]? =
        some (0x7000, 0x9000) := by
  rw [(table_invariant .initial (lateModule "libssl.so".toList)).range_eq]
  decide

end GumTVM
