import GumTVM.Selection.Ranges

/-!
# Annotated branch targets

The target of an immediate branch is the first operand of `B`, `B.cond` and
`BL`, the second of `CBZ` and `CBNZ`, and the third of `TBZ` and `TBNZ`. The
callback tests the groups of the instruction and annotates an immediate that
stands first, with the base it chose for the line.
-/

namespace GumTVM

open Foundation

variable {cs : Capstone} {proc : Process} {self : InstructionTracerManager}
variable {ctx : GumCpuContext} {info : InstructionInfo}

/-! ## Immediate branches -/

inductive BranchForm where
  | b | bCond | bl
  | cbz | cbnz
  | tbz | tbnz
deriving DecidableEq

/-- The identifier of a form; `B` and `B.cond` share one. -/
def BranchForm.id : BranchForm → Arm64Ins
  | .b | .bCond => .b
  | .bl => .bl
  | .cbz => .cbz
  | .cbnz => .cbnz
  | .tbz => .tbz
  | .tbnz => .tbnz

/-- The position of the target among the operands. -/
def BranchForm.targetIndex : BranchForm → Nat
  | .b | .bCond | .bl => 0
  | .cbz | .cbnz => 1
  | .tbz | .tbnz => 2

/-- An immediate branch with its target where the form has it. The compare and
test forms start with the register tested and end with the target. -/
structure ImmediateBranch (info : InstructionInfo) (form : BranchForm) (target : BitVec 64) :
    Prop where
  id : info.insnCopy.id = form.id
  operand : (info.operands[form.targetIndex]?).map CsArm64Op.value = some (.imm target)
  tested : form.targetIndex ≠ 0 → (∃ reg, info.operand0 = .reg reg) ∧
    info.operands.length = form.targetIndex + 1

/-- How the disassembler groups an instruction: the immediate branches are jumps
or calls, and of all jumps, calls and returns only `B` and `BL` start with an
immediate. -/
structure BranchGroups (info : InstructionInfo) : Prop where
  branch : ∀ form : BranchForm, info.insnCopy.id = form.id → isBranch info.insnCopy = true
  immediate : isBranch info.insnCopy = true → ∀ imm, info.operand0 = .imm imm →
    info.insnCopy.id = .b ∨ info.insnCopy.id = .bl

theorem operand0_eq {value : Arm64OpValue} (hvalue : value ≠ .invalid) :
    info.operand0 = value ↔ (info.operands[0]?).map CsArm64Op.value = some value := by
  unfold InstructionInfo.operand0
  cases info.operands with
  | nil => simp [Ne.symm hvalue]
  | cons op rest => simp

/-- The immediate is the first operand exactly in the forms that have nothing
before it. -/
theorem ImmediateBranch.operand0_imm_iff {form : BranchForm} {target imm : BitVec 64}
    (hbranch : ImmediateBranch info form target) :
    info.operand0 = .imm imm ↔ form.targetIndex = 0 ∧ imm = target := by
  by_cases hindex : form.targetIndex = 0
  · have hoperand := hbranch.operand
    rw [hindex, ← operand0_eq (by simp)] at hoperand
    rw [hoperand]
    simp [hindex, eq_comm]
  · obtain ⟨⟨reg, hreg⟩, _⟩ := hbranch.tested hindex
    rw [hreg]
    simp [hindex]

theorem immediateBranch_of_operand0 {form : BranchForm} {target : BitVec 64}
    (hid : info.insnCopy.id = form.id) (hindex : form.targetIndex = 0)
    (hoperand : info.operand0 = .imm target) : ImmediateBranch info form target where
  id := hid
  operand := hindex ▸ (operand0_eq (by simp)).mp hoperand
  tested hlater := absurd hindex hlater

/-- In the groups, an immediate in front is the target of a branch. -/
theorem BranchGroups.exists_form (hgroups : BranchGroups info) {imm : BitVec 64}
    (hgroup : isBranch info.insnCopy = true) (hoperand : info.operand0 = .imm imm) :
    ∃ form, ImmediateBranch info form imm := by
  rcases hgroups.immediate hgroup imm hoperand with hid | hid
  · exact ⟨.b, immediateBranch_of_operand0 hid rfl hoperand⟩
  · exact ⟨.bl, immediateBranch_of_operand0 hid rfl hoperand⟩

/-! ## The printed line -/

/-- The disassembly of a line without annotation. -/
def disasmText (self : InstructionTracerManager) (ctx : GumCpuContext) (info : InstructionInfo) :
    Text :=
  let base := currentInsBase self ctx.pc
  let text := info.insnCopy.mnemonic ++ ['\t'] ++ info.insnCopy.opStr
  if self.isAddressInModuleRange ctx.pc then
    "0x".toList ++ (hex (ctx.pc - base).toNat).rightpad 8 ' ' ++ "   ".toList ++ text
  else
    "0x".toList ++ (hex ctx.pc.toNat).rightpad 8 ' ' ++ "(".toList ++ hex (ctx.pc - base).toNat ++
      ")    ".toList ++ text

theorem disasmInfo_starts_text (self : InstructionTracerManager) (ctx : GumCpuContext)
    (info : InstructionInfo) :
    disasmText self ctx info <+: disasmInfo self ctx info := by
  unfold disasmText disasmInfo
  exact List.prefix_append _ _

/-- `(0x` and the offset of a target into a module, and `)` -/
def targetText (target base : BitVec 64) : Text :=
  "(0x".toList ++ hex (target - base).toNat ++ ")".toList

theorem targetText_ne_nil (target base : BitVec 64) : targetText target base ≠ [] := by
  simp [targetText]

theorem targetText_inj {target base other : BitVec 64}
    (heq : targetText target base = targetText target other) : base = other := by
  unfold targetText at heq
  have hhex := List.append_cancel_left (List.append_cancel_right heq)
  have hread := congrArg readHex hhex
  rw [readHex_hex, readHex_hex, Option.some.injEq] at hread
  have hsub := BitVec.eq_of_toNat_eq hread
  bv_omega

theorem disasmInfo_of_imm {target : BitVec 64} (hgroup : isBranch info.insnCopy = true)
    (hoperand : info.operand0 = .imm target) :
    disasmInfo self ctx info =
      disasmText self ctx info ++ targetText target (currentInsBase self ctx.pc) := by
  unfold disasmInfo disasmText targetText
  simp only [hgroup, if_true, hoperand]

theorem disasmInfo_of_not_imm
    (hoperand : isBranch info.insnCopy = true → ∀ imm, info.operand0 ≠ .imm imm) :
    disasmInfo self ctx info = disasmText self ctx info := by
  unfold disasmInfo disasmText
  by_cases hgroup : isBranch info.insnCopy = true
  · have hother := hoperand hgroup
    simp only [hgroup, if_true]
    cases hvalue : info.operand0 with
    | imm imm => exact absurd hvalue (hother imm)
    | _ => exact List.append_nil _
  · simp only [hgroup]
    exact List.append_nil _

/-! ## The base of a traced line -/

/-- A traced address of a module is printed relative to that module unless it is
the end of the main one. -/
theorem Layout.currentInsBase_eq_iff {main span : ModuleSpan} {others : List ModuleSpan}
    {addr : BitVec 64} (hlayout : Layout self main others) (hspan : span ∈ main :: others)
    (hcontains : span.Contains addr)
    (htraced : (self.isAddressInModuleRange addr || self.isAddressInOtherModuleRange addr) =
      true) : currentInsBase self addr = span.lower ↔ addr ≠ main.upper := by
  constructor
  · rintro hbase rfl
    rcases hlayout.edge_cases (Or.inl rfl) with ⟨huntraced, _⟩ | ⟨_, hwrong⟩
    · rw [htraced] at huntraced
      cases huntraced
    · exact hwrong span hspan hcontains hbase
  · intro hupper
    apply hlayout.currentInsBase_eq hspan hcontains hupper
    rintro hother rfl
    rw [Bool.or_eq_true, hlayout.main_test_iff, hlayout.other_test_iff] at htraced
    rcases htraced with (hmain | hend) | ⟨found, hfound, hinside⟩
    · exact (List.pairwise_cons.mp hlayout.disjoint).1 span hother _ hmain hcontains
    · exact hupper hend
    · -- disjointness leaves only the span itself, whose lower end is not inside
      have hfoundContains := (found.contains_iff span.lower).mpr (Or.inr hinside)
      have heq := Span.eq_of_contains hlayout.disjoint (List.mem_cons_of_mem _ hfound) hspan
        hfoundContains hcontains
      rw [heq] at hinside
      exact BitVec.lt_irrefl _ hinside.1

/-! ## Annotations -/

/-- The disassembly of a line ends with the offset of the target into a module
if the instruction is an immediate branch, and has no annotation otherwise. -/
structure AnnotatesTarget (info : InstructionInfo) (base : BitVec 64) (text printed : Text) :
    Prop where
  branch : ∀ form target, ImmediateBranch info form target →
    printed = text ++ targetText target base
  other : (∀ form target, ¬ ImmediateBranch info form target) → printed = text

theorem annotatesTarget_iff {base : BitVec 64} (hgroups : BranchGroups info) :
    AnnotatesTarget info base (disasmText self ctx info) (disasmInfo self ctx info) ↔
      ∀ form target, ImmediateBranch info form target →
        form.targetIndex = 0 ∧ currentInsBase self ctx.pc = base := by
  constructor
  · intro hannotates form target hbranch
    have hprinted := hannotates.branch form target hbranch
    by_cases hindex : form.targetIndex = 0
    · have hoperand := hbranch.operand0_imm_iff.mpr ⟨hindex, rfl⟩
      rw [disasmInfo_of_imm (hgroups.branch form hbranch.id) hoperand] at hprinted
      exact ⟨hindex, targetText_inj (List.append_cancel_left hprinted)⟩
    · -- nothing is printed for a target further on
      have hsilent : disasmInfo self ctx info = disasmText self ctx info :=
        disasmInfo_of_not_imm fun _ imm hoperand =>
          hindex (hbranch.operand0_imm_iff.mp hoperand).1
      rw [hsilent] at hprinted
      exact absurd (List.self_eq_append_right.mp hprinted) (targetText_ne_nil target base)
  · intro hbranches
    refine ⟨?_, ?_⟩
    · intro form target hbranch
      obtain ⟨hindex, hbase⟩ := hbranches form target hbranch
      have hoperand := hbranch.operand0_imm_iff.mpr ⟨hindex, rfl⟩
      rw [disasmInfo_of_imm (hgroups.branch form hbranch.id) hoperand, hbase]
    · intro hnone
      apply disasmInfo_of_not_imm
      intro hgroup imm hoperand
      obtain ⟨form, hbranch⟩ := hgroups.exists_form hgroup hoperand
      exact hnone form imm hbranch

/-- The line of a traced instruction in a module is annotated as it should be
exactly when, if it is an immediate branch, its target is the first operand and
it does not stand at the end of the main module. -/
theorem branch_annotated_iff (hgroups : BranchGroups info) {main span : ModuleSpan}
    {others : List ModuleSpan} (hlayout : Layout self main others)
    (hspan : span ∈ main :: others) (hcontains : span.Contains ctx.pc)
    (htraced : (self.isAddressInModuleRange ctx.pc ||
      self.isAddressInOtherModuleRange ctx.pc) = true)
    {result : CallbackResult}
    (hcall : instructionCallback cs proc self ctx info = some result) :
    AnnotatesTarget info span.lower (disasmText self ctx info) result.record.disasmInfo ↔
      ∀ form target, ImmediateBranch info form target →
        form.targetIndex = 0 ∧ ctx.pc ≠ main.upper := by
  obtain ⟨_, _, _, rfl⟩ := instructionCallback_eq_some.mp hcall
  rw [← hlayout.currentInsBase_eq_iff hspan hcontains htraced]
  exact annotatesTarget_iff hgroups

/-! ## A compare and a plain branch -/

/-- An instruction in the jump group. -/
def jumpInsn (id : Arm64Ins) (mnemonic opStr : Text) (operands : List CsArm64Op)
    (hcount : operands.length ≤ 8) : CsInsn where
  id := id
  address := 0x1000
  mnemonic := mnemonic
  opStr := opStr
  detail := ⟨[], [.jump], ⟨operands, hcount, false⟩⟩

/-- `b #0x1100` -/
def plainBranch : InstructionInfo :=
  ⟨jumpInsn .b "b".toList "#0x1100".toList [.plain (.imm 0x1100) ⟨true, false⟩] (by decide)⟩

/-- `cbz x0, #0x1100` -/
def compareBranch : InstructionInfo :=
  ⟨jumpInsn .cbz "cbz".toList "x0, #0x1100".toList
    [.plain (.reg (.x 0)) ⟨true, false⟩, .plain (.imm 0x1100) ⟨true, false⟩] (by decide)⟩

theorem ofModule_layout :
    Layout (.ofModule lowModule.lower lowModule.upper) lowModule [] :=
  ⟨rfl, rfl, List.pairwise_singleton _ _⟩

def branchContext : GumCpuContext := { GumCpuContext.zero with pc := 0x1000 }

theorem plainBranch_groups : BranchGroups plainBranch :=
  ⟨fun _ _ => rfl, fun _ _ _ => Or.inl rfl⟩

theorem compareBranch_groups : BranchGroups compareBranch :=
  ⟨fun _ _ => rfl, fun _ _ hoperand => by cases hoperand⟩

theorem plainBranch_annotated :
    ∃ result, instructionCallback .standard .empty (.ofModule 0x1000 0x2000) branchContext
        plainBranch = some result ∧
      result.record.disasmInfo = "0x0          b\t#0x1100(0x100)".toList := by
  obtain ⟨result, hcall⟩ : ∃ result, instructionCallback .standard .empty
      (.ofModule 0x1000 0x2000) branchContext plainBranch = some result := ⟨_, rfl⟩
  have hannotates : AnnotatesTarget plainBranch 0x1000
      (disasmText (.ofModule 0x1000 0x2000) branchContext plainBranch)
      result.record.disasmInfo := by
    apply (branch_annotated_iff plainBranch_groups ofModule_layout List.mem_cons_self (by decide)
      (by decide) hcall).mpr
    intro form target hbranch
    refine ⟨?_, by decide⟩
    by_contra hindex
    obtain ⟨reg, hreg⟩ := (hbranch.tested hindex).1
    cases hreg
  refine ⟨result, hcall, ?_⟩
  rw [hannotates.branch .b 0x1100 ⟨rfl, rfl, fun hindex => absurd rfl hindex⟩]
  decide

/-- The target of a compare and branch is not annotated. -/
theorem compareBranch_unannotated :
    ¬ ∀ (cs : Capstone) (proc : Process) (self : InstructionTracerManager) (ctx : GumCpuContext)
      (info : InstructionInfo) (main span : ModuleSpan) (others : List ModuleSpan)
      (result : CallbackResult), BranchGroups info → Layout self main others →
      span ∈ main :: others → span.Contains ctx.pc →
      (self.isAddressInModuleRange ctx.pc || self.isAddressInOtherModuleRange ctx.pc) = true →
      instructionCallback cs proc self ctx info = some result →
      AnnotatesTarget info span.lower (disasmText self ctx info) result.record.disasmInfo := by
  intro hclaim
  obtain ⟨result, hcall⟩ : ∃ result, instructionCallback .standard .empty
      (.ofModule 0x1000 0x2000) branchContext compareBranch = some result := ⟨_, rfl⟩
  have hannotates := hclaim _ _ _ _ _ _ _ _ _ compareBranch_groups ofModule_layout
    List.mem_cons_self (by decide) (by decide) hcall
  have hbranch : ImmediateBranch compareBranch .cbz 0x1100 :=
    ⟨rfl, rfl, fun _ => ⟨⟨.x 0, rfl⟩, rfl⟩⟩
  obtain ⟨_, _, _, rfl⟩ := instructionCallback_eq_some.mp hcall
  exact absurd ((annotatesTarget_iff compareBranch_groups).mp hannotates .cbz 0x1100 hbranch).1
    (by decide)

end GumTVM
