import GumTVM.Tracer.CallbackLaws

/-!
# Reads into the value buffer

Every memory operand that is read fills a local variable of eight bytes. The
length passed to the read is the inferred access size, which is sixteen for a
pair whose first register operand of a known class is a `Q` register.
-/

namespace GumTVM

open Foundation

variable {cs : Capstone} {proc : Process} {ctx : GumCpuContext} {info : InstructionInfo}

/-! ## Which operands are read -/

/-- A memory operand that is read and not written, with its address computed. -/
def ReadsMemory (cs : Capstone) (ctx : GumCpuContext) (op : CsArm64Op)
    (address : MemoryAddressInfo) : Prop :=
  op.access.read = true ∧ op.access.write = false ∧
    ∃ mem, op.value = .mem mem ∧ getMemoryAddressInfo cs mem ctx = some address

/-- The calls one iteration of the operand loop adds. -/
def operandReads (cs : Capstone) (proc : Process) (ctx : GumCpuContext) (info : InstructionInfo)
    (op : CsArm64Op) : List ReadCall :=
  (memoryStep cs proc ctx info
    { preInfo := [], memoryAccessInfo := [], writeRegList := [], reads := [] } op).reads

theorem memoryStep_reads (state : OperandState) (op : CsArm64Op) :
    (memoryStep cs proc ctx info state op).reads =
      state.reads ++ operandReads cs proc ctx info op := by
  unfold operandReads memoryStep
  split
  next mem _ =>
    cases getMemoryAddressInfo cs mem ctx with
    | none => simp
    | some address =>
        by_cases hwrite : op.access.write = true
        · simp [hwrite]
        · by_cases hread : op.access.read = true
          · simp [hwrite, hread]
          · simp [hwrite, hread]
  next => simp

theorem operandLoop_reads :
    (operandLoop cs proc ctx info).reads =
      info.operands.flatMap (operandReads cs proc ctx info) := by
  have hfold (ops : List CsArm64Op) (state : OperandState) :
      (ops.foldl (operandStep cs proc ctx info) state).reads =
        state.reads ++ ops.flatMap (operandReads cs proc ctx info) := by
    induction ops generalizing state with
    | nil => simp
    | cons op rest ih =>
        rw [List.foldl_cons, ih, operandStep, memoryStep_reads]
        simp
  exact hfold info.operands _

/-- Every call of one operand is for the same access, and there is one. -/
theorem memoryReadInfo_calls (proc : Process) (info : InstructionInfo) (addr : BitVec 64) :
    (memoryReadInfo proc info addr).2 ≠ [] ∧
      ∀ call ∈ (memoryReadInfo proc info addr).2, call = ⟨addr, getMemoryAccessSize info⟩ := by
  unfold memoryReadInfo
  dsimp only
  split
  · simp
  · split
    · split <;> simp
    · simp

theorem mem_operandReads_iff {op : CsArm64Op} {call : ReadCall} :
    call ∈ operandReads cs proc ctx info op ↔
      ∃ address, ReadsMemory cs ctx op address ∧
        call = ⟨address.addr, getMemoryAccessSize info⟩ := by
  constructor
  · intro hcall
    unfold operandReads memoryStep at hcall
    split at hcall
    next mem hvalue =>
      split at hcall
      next => cases hcall
      next address haddress =>
        dsimp only at hcall
        split at hcall
        next => cases hcall
        next hwrite =>
          split at hcall
          next hread =>
            refine ⟨address, ⟨hread, by simpa using hwrite, mem, hvalue, haddress⟩, ?_⟩
            exact (memoryReadInfo_calls proc info address.addr).2 call hcall
          next => cases hcall
    next => cases hcall
  · intro hexists
    obtain ⟨address, ⟨hread, hwrite, mem, hvalue, haddress⟩, rfl⟩ := hexists
    obtain ⟨hsome, hall⟩ := memoryReadInfo_calls proc info address.addr
    obtain ⟨call, hcall⟩ := List.exists_mem_of_ne_nil _ hsome
    have hsame := hall call hcall
    unfold operandReads memoryStep
    simp only [hvalue, haddress, hwrite, hread]
    simpa [hsame] using hcall

/-! ## The access size -/

/-- The instructions whose size comes from their register operands. -/
def IsSizedPair (id : Arm64Ins) : Prop := id = .stp ∨ id = .stnp ∨ id = .ldp ∨ id = .ldnp

/-- The first register operand of one of the classes `Q D S H B W` is a `Q`
register. -/
def FirstClassIsQ (ops : List CsArm64Op) : Prop :=
  ∃ before op after n, ops = before ++ op :: after ∧ op.value = .reg (.q n) ∧
    ∀ prior ∈ before, ∀ reg, prior.value = .reg reg → pairRegisterSize reg = none

theorem pairOperandSize_eq_16_iff {op : CsArm64Op} :
    pairOperandSize op = some 16 ↔ ∃ n, op.value = .reg (.q n) := by
  unfold pairOperandSize
  split
  next reg hvalue => cases reg <;> simp [hvalue, pairRegisterSize]
  next hvalue =>
    have hnot (n : Fin 32) : op.value ≠ .reg (.q n) := hvalue _
    simp [hnot]

theorem pairOperandSize_eq_none_iff {op : CsArm64Op} :
    pairOperandSize op = none ↔ ∀ reg, op.value = .reg reg → pairRegisterSize reg = none := by
  unfold pairOperandSize
  split
  next reg hvalue => simp [hvalue]
  next hvalue =>
    simp only [true_iff]
    exact fun reg heq => absurd heq (hvalue reg)

theorem pairOperandSize_le {op : CsArm64Op} {size : Nat} (hsize : pairOperandSize op = some size)
    (hq : size ≠ 16) : size ≤ 8 := by
  unfold pairOperandSize at hsize
  split at hsize
  next reg _ => cases reg <;> simp [pairRegisterSize] at hsize <;> omega
  next => cases hsize

theorem firstClassIsQ_iff {ops : List CsArm64Op} :
    FirstClassIsQ ops ↔ ops.findSome? pairOperandSize = some 16 := by
  simp only [List.findSome?_eq_some_iff, pairOperandSize_eq_16_iff, pairOperandSize_eq_none_iff]
  constructor
  · intro hfirst
    obtain ⟨before, op, after, n, hops, hvalue, hbefore⟩ := hfirst
    exact ⟨before, op, after, hops, ⟨n, hvalue⟩, hbefore⟩
  · intro hfirst
    obtain ⟨before, op, after, hops, ⟨n, hvalue⟩, hbefore⟩ := hfirst
    exact ⟨before, op, after, n, hops, hvalue, hbefore⟩

theorem getStpLdpAccessSize_le_iff :
    getStpLdpAccessSize info ≤ 8 ↔ ¬ FirstClassIsQ info.operands := by
  rw [firstClassIsQ_iff, getStpLdpAccessSize]
  cases hfind : info.operands.findSome? pairOperandSize with
  | none => simp
  | some size =>
      obtain ⟨_, op, _, _, hsize, _⟩ := List.findSome?_eq_some_iff.mp hfind
      by_cases hq : size = 16
      · simp [hq]
      · have hle := pairOperandSize_le hsize hq
        simp [hle, hq]

theorem getMemoryAccessSize_pair (hpair : IsSizedPair info.insnCopy.id) :
    getMemoryAccessSize info = getStpLdpAccessSize info := by
  unfold getMemoryAccessSize
  rcases hpair with hid | hid | hid | hid <;> rw [hid]

theorem getMemoryAccessSize_le_of_not_pair (hpair : ¬ IsSizedPair info.insnCopy.id) :
    getMemoryAccessSize info ≤ 8 := by
  unfold getMemoryAccessSize
  unfold IsSizedPair at hpair
  generalize info.insnCopy.id = id at hpair ⊢
  cases id with
  | stp | stnp | ldp | ldnp => simp at hpair
  | _ => dsimp only; first | decide | (split <;> decide)

/-- Sizes above eight come from the pairs alone. -/
theorem getMemoryAccessSize_le_iff :
    getMemoryAccessSize info ≤ 8 ↔
      ¬ (IsSizedPair info.insnCopy.id ∧ FirstClassIsQ info.operands) := by
  by_cases hpair : IsSizedPair info.insnCopy.id
  · rw [getMemoryAccessSize_pair hpair, getStpLdpAccessSize_le_iff]
    simp [hpair]
  · have hle := getMemoryAccessSize_le_of_not_pair hpair
    simp [hle, hpair]

/-! ## The buffer -/

/-- The bytes of `mem_value` and of `mem_value2`. -/
def valueBufferSize : Nat := 8

/-- Every read of a callback stays within the buffer exactly when the
instruction is no `Q` pair that reads memory at an address it can compute. -/
theorem reads_fit_buffer_iff (cs : Capstone) (proc : Process) (ctx : GumCpuContext)
    (info : InstructionInfo) :
    (∀ call ∈ (operandLoop cs proc ctx info).reads, call.length ≤ valueBufferSize) ↔
      ¬ ((IsSizedPair info.insnCopy.id ∧ FirstClassIsQ info.operands) ∧
        ∃ op ∈ info.operands, ∃ address, ReadsMemory cs ctx op address) := by
  have hreads (call : ReadCall) : call ∈ (operandLoop cs proc ctx info).reads ↔
      ∃ op ∈ info.operands, ∃ address, ReadsMemory cs ctx op address ∧
        call = ⟨address.addr, getMemoryAccessSize info⟩ := by
    rw [operandLoop_reads, List.mem_flatMap]
    simp only [mem_operandReads_iff]
  rw [← not_iff_not, not_not]
  constructor
  · intro hoverflow
    push Not at hoverflow
    obtain ⟨call, hcall, hlength⟩ := hoverflow
    obtain ⟨op, hop, address, hread, rfl⟩ := (hreads call).mp hcall
    refine ⟨?_, op, hop, address, hread⟩
    by_contra hsmall
    exact absurd (getMemoryAccessSize_le_iff.mpr hsmall) (Nat.not_le.mpr hlength)
  · rintro ⟨hpair, op, hop, address, hread⟩ hfits
    have hle := hfits _ ((hreads _).mpr ⟨op, hop, address, hread, rfl⟩)
    exact getMemoryAccessSize_le_iff.mp hle hpair

/-- `ldp q0, q1, [x0]` -/
def loadQPair : InstructionInfo :=
  ⟨.ofOperands .ldp 0x1000 "ldp".toList "q0, q1, [x0]".toList
    [.plain (.reg (.q 0)) ⟨false, true⟩, .plain (.reg (.q 1)) ⟨false, true⟩,
      .plain (.mem ⟨.x 0, .invalid, 0⟩) ⟨true, false⟩]⟩

theorem loadQPair_overflows :
    ¬ ∀ call ∈ (operandLoop .standard .empty .zero loadQPair).reads,
      call.length ≤ valueBufferSize := by
  decide

end GumTVM
