import GumTVM.Foundation.Span
import GumTVM.Tracer.CallbackLaws
import GumTVM.Tracer.Transform

/-!
# Selection and attribution over module ranges

The main module is tested as a closed interval, the other modules as open ones,
and the base of the printed offset is found by a second scan. On disjoint
half-open modules the three agree everywhere except at the end of the main
module and at the first byte of another module.
-/

namespace GumTVM

open Foundation

/-- The address range of a loaded module. -/
abbrev ModuleSpan := Span (BitVec 64)

/-- The manager's ranges are those of the modules `main` and `others`, which
do not overlap. -/
structure Layout (manager : InstructionTracerManager) (main : ModuleSpan)
    (others : List ModuleSpan) : Prop where
  main_eq : manager.moduleRange = ⟨main.lower, main.upper⟩
  others_eq : manager.otherRanges = others.map fun span => (span.lower, span.upper)
  disjoint : (main :: others).Pairwise Span.Disjoint

/-- The end of the main module, or the first byte of another one. -/
def AtEdge (main : ModuleSpan) (others : List ModuleSpan) (addr : BitVec 64) : Prop :=
  addr = main.upper ∨ ∃ span ∈ others, addr = span.lower

namespace Layout

variable {self : InstructionTracerManager} {main : ModuleSpan} {others : List ModuleSpan}
variable {addr : BitVec 64}

theorem main_test_iff (hlayout : Layout self main others) :
    self.isAddressInModuleRange addr = true ↔ main.Contains addr ∨ addr = main.upper := by
  have hnonempty := main.nonempty
  rw [InstructionTracerManager.isAddressInModuleRange_iff, hlayout.main_eq]
  unfold Span.Contains
  bv_omega

theorem other_test_iff (hlayout : Layout self main others) :
    self.isAddressInOtherModuleRange addr = true ↔
      ∃ span ∈ others, span.lower < addr ∧ addr < span.upper := by
  rw [InstructionTracerManager.isAddressInOtherModuleRange_iff, hlayout.others_eq]
  simp

/-- Away from the edges the two tests together are membership in a module. -/
theorem tests_iff (hlayout : Layout self main others) (hedge : ¬ AtEdge main others addr) :
    (self.isAddressInModuleRange addr || self.isAddressInOtherModuleRange addr) = true ↔
      ∃ span ∈ main :: others, span.Contains addr := by
  obtain ⟨hupper, hlower⟩ := not_or.mp hedge
  rw [Bool.or_eq_true, hlayout.main_test_iff, hlayout.other_test_iff, or_iff_left hupper]
  constructor
  · rintro (hmain | ⟨span, hspan, hinside⟩)
    · exact ⟨main, List.mem_cons_self, hmain⟩
    · exact ⟨span, List.mem_cons_of_mem _ hspan, (span.contains_iff addr).mpr (Or.inr hinside)⟩
  · intro hexists
    obtain ⟨span, hspan, hcontains⟩ := hexists
    rcases List.mem_cons.mp hspan with rfl | hspan
    · exact Or.inl hcontains
    · have hne : addr ≠ span.lower := fun heq => hlower ⟨span, hspan, heq⟩
      exact Or.inr ⟨span, hspan, ((span.contains_iff addr).mp hcontains).resolve_left hne⟩

/-- Away from the edges the scan finds the base of the module that contains the
address. -/
theorem currentInsBase_eq (hlayout : Layout self main others) {span : ModuleSpan}
    (hspan : span ∈ main :: others) (hcontains : span.Contains addr)
    (hupper : addr ≠ main.upper) (hlower : span ∈ others → addr ≠ span.lower) :
    currentInsBase self addr = span.lower := by
  unfold currentInsBase
  by_cases hmain : main.Contains addr
  · have heq : main = span :=
      Span.eq_of_contains hlayout.disjoint List.mem_cons_self hspan hmain hcontains
    rw [if_pos (hlayout.main_test_iff.mpr (Or.inl hmain)), hlayout.main_eq, heq]
  · have htest : ¬ self.isAddressInModuleRange addr = true := by
      rw [hlayout.main_test_iff]
      exact not_or.mpr ⟨hmain, hupper⟩
    have hother : span ∈ others := by
      rcases List.mem_cons.mp hspan with rfl | hother
      · exact absurd hcontains hmain
      · exact hother
    have hinside := ((span.contains_iff addr).mp hcontains).resolve_left (hlower hother)
    rw [if_neg htest, hlayout.others_eq]
    have hrange : (span.lower, span.upper) ∈ others.map fun span => (span.lower, span.upper) :=
      List.mem_map.mpr ⟨span, hother, rfl⟩
    refine lastMatch_of_unique (fun range => addr > range.1 ∧ addr < range.2) Prod.fst _
      hrange hinside ?_
    intro range hrange hmatch
    obtain ⟨found, hfound, rfl⟩ := List.mem_map.mp hrange
    have hfoundContains := (found.contains_iff addr).mpr (Or.inr hmatch)
    rw [Span.eq_of_contains hlayout.disjoint (List.mem_cons_of_mem _ hfound) hspan
      hfoundContains hcontains]

/-- A selected instruction at an edge is attributed to the wrong module, and the
first byte of another module is not selected at all. -/
theorem edge_cases (hlayout : Layout self main others) (hedge : AtEdge main others addr) :
    (self.isAddressInModuleRange addr || self.isAddressInOtherModuleRange addr) = false ∧
        (∃ span ∈ main :: others, span.Contains addr) ∨
      (self.isAddressInModuleRange addr || self.isAddressInOtherModuleRange addr) = true ∧
        ∀ span ∈ main :: others, span.Contains addr → currentInsBase self addr ≠ span.lower := by
  have hnotMain : ¬ main.Contains main.upper := fun hcontains => BitVec.lt_irrefl _ hcontains.2
  by_cases hupper : addr = main.upper
  · -- the first test puts the address in the main module
    right
    have htest : self.isAddressInModuleRange addr = true :=
      hlayout.main_test_iff.mpr (Or.inr hupper)
    refine ⟨by rw [htest, Bool.true_or], ?_⟩
    intro span hspan hcontains
    have hother : span ∈ others := by
      rcases List.mem_cons.mp hspan with rfl | hother
      · exact absurd (hupper ▸ hcontains) hnotMain
      · exact hother
    intro heq
    rw [currentInsBase, if_pos htest, hlayout.main_eq] at heq
    change main.lower = span.lower at heq
    have hlower : span.Contains main.lower := heq ▸ span.contains_lower
    exact (List.pairwise_cons.mp hlayout.disjoint).1 span hother main.lower
      main.contains_lower hlower
  · -- disjointness leaves the first byte of a module to no other test
    left
    obtain ⟨span, hspan, rfl⟩ := hedge.resolve_left hupper
    refine ⟨?_, span, List.mem_cons_of_mem _ hspan, span.contains_lower⟩
    rw [← Bool.not_eq_true, Bool.or_eq_true, hlayout.main_test_iff, hlayout.other_test_iff]
    rintro ((hmain | hend) | ⟨found, hfound, hinside⟩)
    · exact (List.pairwise_cons.mp hlayout.disjoint).1 span hspan _ hmain span.contains_lower
    · exact hupper hend
    · have hcontains := (found.contains_iff span.lower).mpr (Or.inr hinside)
      have heq := Span.eq_of_contains hlayout.disjoint (List.mem_cons_of_mem _ hfound)
        (List.mem_cons_of_mem _ hspan) hcontains span.contains_lower
      rw [heq] at hinside
      exact BitVec.lt_irrefl _ hinside.1

end Layout

/-! ## Blocks -/

/-- What half-open modules ask of a block: every instruction is kept once and in
order, a callout stands exactly in front of those that lie in a module and are
not exclusive, and whenever it runs, with further modules registered or not, the
printed offset is the one into the module that contains the instruction. -/
structure SelectionAgrees (manager : InstructionTracerManager)
    (find : Text → Option GumMemoryRange) (main : ModuleSpan) (others : List ModuleSpan)
    (block : List CsInsn) : Prop where
  keeps : (delivered [] (transformCallback manager find block).2).map Prod.snd = block
  selects : ∀ callouts insn,
    (callouts, insn) ∈ delivered [] (transformCallback manager find block).2 →
      (callouts = [] ∨ callouts = [⟨insn⟩]) ∧
        (callouts ≠ [] ↔
          isLse insn.id = false ∧ ∃ span ∈ main :: others, span.Contains insn.address)
  attributes : ∀ callouts insn,
    (callouts, insn) ∈ delivered [] (transformCallback manager find block).2 → callouts ≠ [] →
      ∀ later others', Layout later main others' → others ⊆ others' →
        ∃ span ∈ main :: others', span.Contains insn.address ∧
          (∀ other ∈ main :: others', other.Contains insn.address → other = span) ∧
          currentInsBase later insn.address = span.lower ∧
          insn.address - currentInsBase later insn.address < span.upper - span.lower

section

variable {self : InstructionTracerManager} {find : Text → Option GumMemoryRange}
variable {main : ModuleSpan} {others : List ModuleSpan} {block : List CsInsn}

theorem delivered_transformCallback :
    delivered [] (transformCallback self find block).2 = block.map fun insn =>
      (if (self.registerOtherModules find).selects insn then [⟨insn⟩] else [], insn) :=
  InstructionTracerManager.delivered_instrument block

/-- A delivered instruction is one of the block, with at most one callout. -/
theorem delivered_cases {callouts : List InstructionInfo} {insn : CsInsn}
    (hentry : (callouts, insn) ∈ delivered [] (transformCallback self find block).2) :
    insn ∈ block ∧ (callouts = [] ∨ callouts = [⟨insn⟩]) ∧
      (callouts ≠ [] ↔ (self.registerOtherModules find).selects insn = true) := by
  rw [delivered_transformCallback, List.mem_map] at hentry
  obtain ⟨found, hfound, heq⟩ := hentry
  obtain ⟨rfl, rfl⟩ := Prod.mk.inj heq
  refine ⟨hfound, ?_⟩
  split
  next hselects => simp [hselects]
  next hselects => simp [hselects]

theorem exists_delivered (self : InstructionTracerManager) (find : Text → Option GumMemoryRange)
    {insn : CsInsn} (hinsn : insn ∈ block) :
    ∃ callouts, (callouts, insn) ∈ delivered [] (transformCallback self find block).2 := by
  rw [delivered_transformCallback]
  exact ⟨_, List.mem_map.mpr ⟨insn, hinsn, rfl⟩⟩

/-- The three tests agree on a block exactly when no instruction that could be
selected lies at an edge. -/
theorem selection_agrees_iff (hlayout : Layout (self.registerOtherModules find) main others) :
    SelectionAgrees self find main others block ↔
      ∀ insn ∈ block, isLse insn.id = false → ¬ AtEdge main others insn.address := by
  constructor
  · intro hagrees insn hinsn hlse hedge
    obtain ⟨callouts, hentry⟩ := exists_delivered self find hinsn
    obtain ⟨_, _, hselected⟩ := delivered_cases hentry
    obtain ⟨_, hselects⟩ := hagrees.selects _ _ hentry
    rw [hselected, InstructionTracerManager.selects_iff] at hselects
    rcases hlayout.edge_cases hedge with ⟨htest, hmodule⟩ | ⟨htest, hbase⟩
    · have hboth := hselects.mpr ⟨hlse, hmodule⟩
      rw [htest] at hboth
      exact absurd hboth.2 Bool.false_ne_true
    · have hcallouts := hselected.mpr (InstructionTracerManager.selects_iff.mpr ⟨hlse, htest⟩)
      obtain ⟨span, hspan, hcontains, _, heq, _⟩ := hagrees.attributes _ _ hentry hcallouts _ _
        hlayout (List.Subset.refl _)
      exact hbase span hspan hcontains heq
  · intro hedges
    refine ⟨?_, ?_, ?_⟩
    · rw [delivered_transformCallback, List.map_map]
      exact List.map_id block
    · intro callouts insn hentry
      obtain ⟨hinsn, hshape, hselected⟩ := delivered_cases hentry
      refine ⟨hshape, ?_⟩
      rw [hselected, InstructionTracerManager.selects_iff]
      apply and_congr_right
      intro hlse
      exact hlayout.tests_iff (hedges insn hinsn hlse)
    · intro callouts insn hentry hcallouts later others' hlater hsubset
      obtain ⟨hinsn, _, hselected⟩ := delivered_cases hentry
      obtain ⟨hlse, htests⟩ := InstructionTracerManager.selects_iff.mp (hselected.mp hcallouts)
      have hedge := hedges insn hinsn hlse
      obtain ⟨span, hspan, hcontains⟩ := (hlayout.tests_iff hedge).mp htests
      obtain ⟨hupper, hlower⟩ := not_or.mp hedge
      have hspan' : span ∈ main :: others' := List.cons_subset_cons main hsubset hspan
      have hbase : currentInsBase later insn.address = span.lower := by
        apply hlater.currentInsBase_eq hspan' hcontains hupper
        intro hlaterSpan heq
        rcases List.mem_cons.mp hspan with rfl | hother
        · exact (List.pairwise_cons.mp hlater.disjoint).1 span hlaterSpan _ hcontains hcontains
        · exact hlower ⟨span, hother, heq⟩
      refine ⟨span, hspan', hcontains, ?_, hbase, ?_⟩
      · intro other hother hotherContains
        exact Span.eq_of_contains hlater.disjoint hother hspan' hotherContains hcontains
      · rw [hbase]
        obtain ⟨hle, hlt⟩ := hcontains
        bv_omega

end

/-! ## Two adjacent modules -/

def lowModule : ModuleSpan := ⟨0x1000, 0x2000, by decide⟩

def highModule : ModuleSpan := ⟨0x2000, 0x3000, by decide⟩

/-- A manager that traces `lowModule` and has found `highModule`. -/
def adjacentManager : InstructionTracerManager :=
  { InstructionTracerManager.ofModule 0x1000 0x2000 with
    traceOtherModulesRange := Std.TreeMap.empty.insert "libhigh.so".toList (0x2000, 0x3000) }

theorem adjacentManager_layout :
    Layout (adjacentManager.registerOtherModules fun _ => none) lowModule [highModule] := by
  refine ⟨rfl, rfl, ?_⟩
  rw [List.pairwise_pair]
  rintro addr ⟨_, hlow⟩ ⟨hhigh, _⟩
  exact BitVec.not_lt.mpr hhigh hlow

/-- `nop` at an address -/
def nopAt (addr : BitVec 64) : CsInsn := .ofOperands (.other 0) addr "nop".toList [] []

theorem selection_agrees_inside :
    SelectionAgrees adjacentManager (fun _ => none) lowModule [highModule]
      [nopAt 0x1000, nopAt 0x1ffc, nopAt 0x2004] := by
  apply (selection_agrees_iff adjacentManager_layout).mpr
  simp only [AtEdge, List.mem_cons, List.not_mem_nil, or_false, forall_eq_or_imp, forall_eq,
    exists_eq_left]
  decide

/-- The first byte of `highModule` is printed as an offset into `lowModule`. -/
theorem selection_disagrees_between :
    Layout (adjacentManager.registerOtherModules fun _ => none) lowModule [highModule] ∧
      ¬ SelectionAgrees adjacentManager (fun _ => none) lowModule [highModule]
        [nopAt 0x2000] := by
  refine ⟨adjacentManager_layout, ?_⟩
  intro hagrees
  have hentry : ([⟨nopAt 0x2000⟩], nopAt 0x2000) ∈
      delivered [] (transformCallback adjacentManager (fun _ => none) [nopAt 0x2000]).2 :=
    List.mem_singleton.mpr rfl
  obtain ⟨span, hspan, hcontains, _, hbase, _⟩ := hagrees.attributes _ _ hentry
    (List.cons_ne_nil _ _) _ _ adjacentManager_layout (List.Subset.refl _)
  rw [List.mem_cons, List.mem_singleton] at hspan
  rcases hspan with rfl | rfl
  · exact absurd hcontains (by decide)
  · exact absurd hbase (by decide)

end GumTVM
