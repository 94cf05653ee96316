import GumTVM.Selection.Ranges

/-!
# Exclusive sequences

An exclusive sequence of a block runs from a load-exclusive to the next
store-exclusive. The filter looks at one instruction at a time: it spares the
two ends and puts callouts in front of what lies between them.
-/

namespace GumTVM

open Foundation

/-- `LDXR`, `LDAXR` and their `B`, `H` and pair forms. -/
def isLoadExclusive (id : Arm64Ins) : Bool :=
  match id with
  | .ldxr | .ldxrb | .ldxrh | .ldxp | .ldaxr | .ldaxrb | .ldaxrh | .ldaxp => true
  | _ => false

/-- `STXR`, `STLXR` and their `B`, `H` and pair forms. -/
def isStoreExclusive (id : Arm64Ins) : Bool :=
  match id with
  | .stxr | .stxrb | .stxrh | .stxp | .stlxr | .stlxrb | .stlxrh | .stlxp => true
  | _ => false

theorem isLse_eq (id : Arm64Ins) : isLse id = (isLoadExclusive id || isStoreExclusive id) := by
  cases id <;> rfl

/-- Position `i` lies strictly between a load-exclusive of the block and the
next store-exclusive after it. -/
def InExclusiveSequence (block : List CsInsn) (i : Nat) : Prop :=
  ∃ j k load store, j < i ∧ i < k ∧
    block[j]? = some load ∧ isLoadExclusive load.id = true ∧
    block[k]? = some store ∧ isStoreExclusive store.id = true ∧
    ∀ m insn, j < m → m < k → block[m]? = some insn → isStoreExclusive insn.id = false

/-- No callout stands in front of an exclusive instruction or of one inside an
exclusive sequence. -/
def SparesExclusives (block : List CsInsn) (calls : List IteratorCall) : Prop :=
  ∀ i callouts insn, (delivered [] calls)[i]? = some (callouts, insn) →
    InExclusiveSequence block i ∨ isLoadExclusive insn.id = true ∨
        isStoreExclusive insn.id = true →
      callouts = []

section

variable {self : InstructionTracerManager} {find : Text → Option GumMemoryRange}
variable {block : List CsInsn}

theorem getElem?_delivered (self : InstructionTracerManager)
    (find : Text → Option GumMemoryRange) (block : List CsInsn) (i : Nat) :
    (delivered [] (transformCallback self find block).2)[i]? =
      block[i]?.map fun insn =>
        (if (self.registerOtherModules find).selects insn then [⟨insn⟩] else [], insn) := by
  rw [delivered_transformCallback, List.getElem?_map]

/-- Exclusive sequences are spared exactly when their ordinary instructions lie
outside the traced ranges. -/
theorem spares_exclusives_iff (self : InstructionTracerManager)
    (find : Text → Option GumMemoryRange) (block : List CsInsn) :
    SparesExclusives block (transformCallback self find block).2 ↔
      ∀ i insn, block[i]? = some insn → InExclusiveSequence block i → isLse insn.id = false →
        ¬ self.InTracedRange find insn.address := by
  constructor
  · intro hspares i insn hinsn hsequence hlse hrange
    have hentry := getElem?_delivered self find block i
    rw [hinsn, Option.map_some] at hentry
    have hnone := hspares i _ insn hentry (Or.inl hsequence)
    rw [if_pos (InstructionTracerManager.registerOtherModules_selects_iff.mpr
      ⟨hlse, hrange⟩)] at hnone
    cases hnone
  · intro hoff i callouts insn hentry hexclusive
    rw [getElem?_delivered, Option.map_eq_some_iff] at hentry
    obtain ⟨found, hfound, heq⟩ := hentry
    obtain ⟨rfl, rfl⟩ := Prod.mk.inj heq
    rw [if_neg]
    intro hselected
    obtain ⟨hlse, hrange⟩ :=
      InstructionTracerManager.registerOtherModules_selects_iff.mp hselected
    rcases hexclusive with hsequence | hself
    · exact hoff i found hfound hsequence hlse hrange
    · rw [isLse_eq, Bool.or_eq_false_iff] at hlse
      rw [hlse.1, hlse.2] at hself
      simp at hself

end

/-- `ldxr w1, [x0]`, `add w1, w1, #1`, `stxr w2, w1, [x0]` -/
def incrementBlock : List CsInsn :=
  [.ofOperands .ldxr 0x1000 "ldxr".toList "w1, [x0]".toList
      [.plain (.reg (.w 1)) ⟨false, true⟩, .plain (.mem ⟨.x 0, .invalid, 0⟩) ⟨true, false⟩],
    .ofOperands (.other 0) 0x1004 "add".toList "w1, w1, #1".toList
      [.plain (.reg (.w 1)) ⟨false, true⟩, .plain (.reg (.w 1)) ⟨true, false⟩,
        .plain (.imm 1) ⟨true, false⟩],
    .ofOperands .stxr 0x1008 "stxr".toList "w2, w1, [x0]".toList
      [.plain (.reg (.w 2)) ⟨false, true⟩, .plain (.reg (.w 1)) ⟨true, false⟩,
        .plain (.mem ⟨.x 0, .invalid, 0⟩) ⟨false, true⟩]]

theorem incrementBlock_not_spared :
    ¬ SparesExclusives incrementBlock
      (transformCallback adjacentManager (fun _ => none) incrementBlock).2 := by
  intro hspares
  have hsequence : InExclusiveSequence incrementBlock 1 := by
    refine ⟨0, 2, _, _, by decide, by decide, rfl, rfl, rfl, rfl, ?_⟩
    intro m insn hlow hhigh hinsn
    obtain rfl : m = 1 := by omega
    cases hinsn
    rfl
  exact List.cons_ne_nil _ _ (hspares 1 _ _ rfl (Or.inl hsequence))

end GumTVM
