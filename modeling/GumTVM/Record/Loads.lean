import GumTVM.Memory.ProcessMemory
import GumTVM.Memory.ReadBuffer
import GumTVM.Record.Accesses

/-!
# Reported loads

A load reports the little-endian value at the computed address; a pair load has
a second location one access size further on. The callback reads the first
location twice and knows one of the two pair mnemonics only.
-/

namespace GumTVM

open Foundation

variable {cs : Capstone} {proc : Process} {self : InstructionTracerManager}
variable {ctx : GumCpuContext} {info : InstructionInfo} {memory : Memory}

/-! ## Instructions with one memory operand -/

def isMemoryOperand (op : CsArm64Op) : Bool :=
  match op.value with
  | .mem _ => true
  | _ => false

def memoryOperands (info : InstructionInfo) : List CsArm64Op :=
  info.operands.filter isMemoryOperand

theorem operandAccesses_eq_nil {op : CsArm64Op} (hop : isMemoryOperand op = false) :
    operandAccesses cs proc ctx info op = [] := by
  unfold operandAccesses
  unfold isMemoryOperand at hop
  split
  next mem hvalue =>
    rw [hvalue] at hop
    cases hop
  next => rfl

theorem flatMap_operandAccesses :
    info.operands.flatMap (operandAccesses cs proc ctx info) =
      (memoryOperands info).flatMap (operandAccesses cs proc ctx info) := by
  unfold memoryOperands
  generalize info.operands = ops
  induction ops with
  | nil => rfl
  | cons op rest ih =>
      rw [List.flatMap_cons, ih]
      by_cases hop : isMemoryOperand op = true
      · rw [List.filter_cons_of_pos hop, List.flatMap_cons]
      · rw [List.filter_cons_of_neg hop, operandAccesses_eq_nil (Bool.not_eq_true _ ▸ hop),
          List.nil_append]

/-- With one memory operand the accesses of a record are those of that operand. -/
theorem accesses_of_memoryOperand {op : CsArm64Op} {mem : Arm64OpMem}
    {address : MemoryAddressInfo} (hops : memoryOperands info = [op]) (hvalue : op.value = .mem mem)
    (haddress : getMemoryAddressInfo cs mem ctx = some address) {result : CallbackResult}
    (hcall : instructionCallback cs proc self ctx info = some result) :
    result.record.accesses =
      if op.access.write then storeAccesses info ctx address.addr
      else if op.access.read then loadAccesses proc info address.addr
      else [] := by
  rw [instructionCallback_accesses hcall, flatMap_operandAccesses, hops, List.flatMap_singleton,
    operandAccesses, hvalue]
  simp only [haddress]

/-- Only the branch instructions can make a callback fail. -/
theorem exists_instructionCallback (hbl : info.insnCopy.id ≠ .bl) (hblr : info.insnCopy.id ≠ .blr)
    (hbr : info.insnCopy.id ≠ .br) :
    ∃ result, instructionCallback cs proc self ctx info = some result := by
  have hjmp (current : InstructionTracerManager) :
      jmpAddr current ctx info = (current, 0) := by
    unfold jmpAddr
    split <;> simp_all
  have hstep (current : InstructionTracerManager) :
      callStep proc current ctx info = some (current, []) := by
    unfold callStep
    rw [hjmp]
    rfl
  exact ⟨_, instructionCallback_eq_some.mpr ⟨_, [], hstep _, rfl⟩⟩

/-! ## Loads -/

/-- The loads of one register, and those of two. -/
def singleLoads : List Arm64Ins :=
  [.ldr, .ldrb, .ldrh, .ldrsb, .ldrsh, .ldrsw,
    .ldur, .ldurb, .ldurh, .ldursb, .ldursh, .ldursw,
    .ldar, .ldarb, .ldarh, .ldapr, .ldaprb, .ldaprh,
    .ldapur, .ldapurb, .ldapurh, .ldapursb, .ldapursh, .ldapursw]

def pairLoads : List Arm64Ins := [.ldp, .ldnp]

/-- A load whose only memory operand is `mem`. -/
structure LoadsFrom (info : InstructionInfo) (mem : Arm64OpMem) : Prop where
  family : info.insnCopy.id ∈ singleLoads ++ pairLoads
  operand : ∃ op, memoryOperands info = [op] ∧ op.value = .mem mem ∧
    op.access.read = true ∧ op.access.write = false

/-- The locations a load reads. -/
def loadSlots (id : Arm64Ins) (addr : BitVec 64) (size : Nat) : List (BitVec 64) :=
  if id ∈ pairLoads then [addr, addr + BitVec.ofNat 64 size] else [addr]

/-- The read entries of a record are true of a memory, name locations of the
load in order, and name each that can be read when the ones before it can. -/
structure ReportsReads (memory : Memory) (slots : List (BitVec 64)) (size : Nat)
    (accesses : List MemoryAccess) : Prop where
  sound : ∀ access ∈ accesses, access.kind = .read → access.size = size ∧
    ∃ bytes, memory.load access.addr size = some bytes ∧
      access.value.toNat = littleEndian bytes
  addresses : ((accesses.filter (·.kind = .read)).map MemoryAccess.addr).Sublist slots
  complete : ∀ slot ∈ slots.takeWhile fun slot => (memory.load slot size).isSome,
    ∃ access ∈ accesses, access.kind = .read ∧ access.addr = slot

/-- When the entries of a load are right: always for one register. For a pair
whose first location can be read, `LDP` needs equal bytes in the second and
`LDNP` a second that cannot be read. -/
def LoadReported (memory : Memory) (id : Arm64Ins) (addr : BitVec 64) (size : Nat) : Prop :=
  match id with
  | .ldp => memory.load addr size = none ∨
      memory.load (addr + BitVec.ofNat 64 size) size = memory.load addr size
  | .ldnp => memory.load addr size = none ∨
      memory.load (addr + BitVec.ofNat 64 size) size = none
  | _ => True

theorem LoadsFrom.accesses {mem : Arm64OpMem} {address : MemoryAddressInfo}
    (hload : LoadsFrom info mem) (haddress : getMemoryAddressInfo cs mem ctx = some address)
    {result : CallbackResult}
    (hcall : instructionCallback cs proc self ctx info = some result) :
    result.record.accesses = loadAccesses proc info address.addr := by
  obtain ⟨op, hops, hvalue, hread, hwrite⟩ := hload.operand
  rw [accesses_of_memoryOperand hops hvalue haddress hcall, hwrite, hread,
    if_neg Bool.false_ne_true, if_pos rfl]

/-! ## The entries of one load -/

theorem reportsReads_nil {addr : BitVec 64} {size : Nat} (rest : List (BitVec 64))
    (hnone : memory.load addr size = none) : ReportsReads memory (addr :: rest) size [] where
  sound := by simp
  addresses := by simp
  complete := by simp [hnone]

theorem reportsReads_single {addr : BitVec 64} {size : Nat} {bytes : List Byte}
    (hload : memory.load addr size = some bytes) (hsize : size ≤ 8) :
    ReportsReads memory [addr] size [⟨.read, addr, size, loadValue bytes⟩] where
  sound := by
    have hlength : bytes.length ≤ 8 := by rw [ByteMemory.load_length hload]; exact hsize
    simp [hload, loadValue_toNat hlength]
  addresses := by simp
  complete := by simp [hload]

/-- Two entries with one value: the second location must hold the same bytes. -/
theorem reportsReads_twice_iff {addr next : BitVec 64} {size : Nat} {bytes : List Byte}
    (hload : memory.load addr size = some bytes) (hsize : size ≤ 8) :
    ReportsReads memory [addr, next] size
        [⟨.read, addr, size, loadValue bytes⟩, ⟨.read, next, size, loadValue bytes⟩] ↔
      memory.load next size = some bytes := by
  have hlength := ByteMemory.load_length hload
  have hvalue : (loadValue bytes).toNat = littleEndian bytes := loadValue_toNat (by omega)
  constructor
  · intro hreports
    obtain ⟨_, bytes2, hload2, hvalue2⟩ := hreports.sound ⟨.read, next, size, loadValue bytes⟩
      (by simp) rfl
    have hsame : bytes2 = bytes := by
      apply littleEndian_inj
      · rw [hlength, ByteMemory.load_length hload2]
      · rw [← hvalue2, hvalue]
    rw [hload2, hsame]
  · intro hload2
    refine ⟨?_, ?_, ?_⟩
    · simp [hload, hload2, hvalue]
    · simp
    · simp [hload, hload2]

/-- One entry for two locations: the second must be unreadable. -/
theorem reportsReads_once_iff {addr next : BitVec 64} {size : Nat} {bytes : List Byte}
    (hload : memory.load addr size = some bytes) (hsize : size ≤ 8) (hnext : addr ≠ next) :
    ReportsReads memory [addr, next] size [⟨.read, addr, size, loadValue bytes⟩] ↔
      memory.load next size = none := by
  have hsingle := reportsReads_single hload hsize
  constructor
  · intro hreports
    by_contra hsome
    have hslot : next ∈ [addr, next].takeWhile fun slot => (memory.load slot size).isSome := by
      simp [hload, Option.isSome_iff_ne_none.mpr hsome]
    obtain ⟨access, haccess, _, haddr⟩ := hreports.complete next hslot
    obtain rfl := List.mem_singleton.mp haccess
    exact hnext haddr
  · intro hnone
    refine ⟨hsingle.sound, ?_, ?_⟩
    · simp
    · simp [hload, hnone]

/-! ## Loads of a callback -/

theorem add_size_ne {addr : BitVec 64} {size : Nat} (hpos : 0 < size) (hsize : size ≤ 8) :
    addr ≠ addr + BitVec.ofNat 64 size := by
  intro heq
  bv_omega

theorem reportsReads_loadAccesses_iff {addr : BitVec 64} (hproc : proc.ReadsFrom memory)
    (hfamily : info.insnCopy.id ∈ singleLoads ++ pairLoads)
    (hpos : 0 < getMemoryAccessSize info) (hsize : getMemoryAccessSize info ≤ 8) :
    ReportsReads memory (loadSlots info.insnCopy.id addr (getMemoryAccessSize info))
        (getMemoryAccessSize info) (loadAccesses proc info addr) ↔
      LoadReported memory info.insnCopy.id addr (getMemoryAccessSize info) := by
  unfold loadAccesses
  dsimp only
  rw [safeReadMemory_eq_load hproc]
  cases hload : memory.load addr (getMemoryAccessSize info) with
  | none =>
      have hempty (rest : List (BitVec 64)) := reportsReads_nil rest hload
      have hreported : LoadReported memory info.insnCopy.id addr (getMemoryAccessSize info) := by
        unfold LoadReported
        split <;> simp [hload]
      unfold loadSlots
      split
      · simp [hempty, hreported]
      · simp [hempty, hreported]
  | some bytes =>
      by_cases hpair : info.insnCopy.id ∈ pairLoads
      · simp only [loadSlots, if_pos hpair]
        simp only [pairLoads, List.mem_cons, List.not_mem_nil, or_false] at hpair
        rcases hpair with hid | hid
        · simp only [isPairInstruction, LoadReported, hid, hload]
          simpa using reportsReads_twice_iff hload hsize
        · simp only [isPairInstruction, LoadReported, hid, hload]
          simpa using reportsReads_once_iff hload hsize (add_size_ne hpos hsize)
      · have hsingle : info.insnCopy.id ∈ singleLoads :=
          (List.mem_append.mp hfamily).resolve_right hpair
        have hnotPair : isPairInstruction info = false := by
          have hother : ∀ id ∈ singleLoads, id ≠ .stp ∧ id ≠ .ldp := by decide
          simp [isPairInstruction, hother _ hsingle]
        have hreported : LoadReported memory info.insnCopy.id addr (getMemoryAccessSize info) := by
          unfold LoadReported
          unfold pairLoads at hpair
          split <;> simp_all
        simp only [loadSlots, if_neg hpair, hnotPair, hreported, iff_true]
        exact reportsReads_single hload hsize

/-- The entries of a load are true and complete except on a pair whose first
location can be read: `LDP` repeats the first value at the second location, and
`LDNP` leaves the second location out. -/
theorem load_reported_iff {mem : Arm64OpMem} {address : MemoryAddressInfo}
    (hproc : proc.ReadsFrom memory) (hload : LoadsFrom info mem)
    (haddress : getMemoryAddressInfo cs mem ctx = some address)
    (hsize : getMemoryAccessSize info ∈ [1, 2, 4, 8]) :
    ∃ result, instructionCallback cs proc self ctx info = some result ∧
      (ReportsReads memory
          (loadSlots info.insnCopy.id address.addr (getMemoryAccessSize info))
          (getMemoryAccessSize info) result.record.accesses ↔
        LoadReported memory info.insnCopy.id address.addr (getMemoryAccessSize info)) := by
  have hbranch : ∀ id ∈ singleLoads ++ pairLoads, id ≠ .bl ∧ id ≠ .blr ∧ id ≠ .br := by decide
  obtain ⟨hbl, hblr, hbr⟩ := hbranch _ hload.family
  obtain ⟨result, hcall⟩ : ∃ result, instructionCallback cs proc self ctx info = some result :=
    exists_instructionCallback hbl hblr hbr
  have hbounds : 0 < getMemoryAccessSize info ∧ getMemoryAccessSize info ≤ 8 := by
    simp only [List.mem_cons, List.not_mem_nil, or_false] at hsize
    omega
  refine ⟨result, hcall, ?_⟩
  rw [hload.accesses haddress hcall]
  exact reportsReads_loadAccesses_iff hproc hload.family hbounds.1 hbounds.2

/-- `ldp x0, x1, [x2]` -/
def loadPair : InstructionInfo :=
  ⟨.ofOperands .ldp 0x1000 "ldp".toList "x0, x1, [x2]".toList
    [.plain (.reg (.x 0)) ⟨false, true⟩, .plain (.reg (.x 1)) ⟨false, true⟩,
      .plain (.mem ⟨.x 2, .invalid, 0⟩) ⟨true, false⟩]⟩

theorem loadPair_loadsFrom : LoadsFrom loadPair ⟨.x 2, .invalid, 0⟩ :=
  ⟨by decide, _, rfl, rfl, rfl, rfl⟩

theorem loadPair_address (ctx : GumCpuContext) :
    getMemoryAddressInfo .standard ⟨.x 2, .invalid, 0⟩ ctx =
      some ⟨ctx.x 2 + 0 + 0, ctx.x 2, 0, "x2".toList, [], true, false⟩ := rfl

/-- Every address holds its distance from the last multiple of eight. -/
def periodicMemory : Memory := fun address => some ((address &&& 7).setWidth 8)

/-- `x2` holds `0x4000`. -/
def loadContext : GumCpuContext := { GumCpuContext.zero with x := fun _ => 0x4000 }

theorem loadPair_reported_periodic :
    ∃ result, instructionCallback .standard (.ofMemory periodicMemory) (.ofModule 0x1000 0x2000)
        loadContext loadPair = some result ∧
      ReportsReads periodicMemory [0x4000, 0x4008] 8 result.record.accesses ∧
      result.record.accesses = [⟨.read, 0x4000, 8, 0x0706050403020100⟩,
        ⟨.read, 0x4008, 8, 0x0706050403020100⟩] := by
  have hproc := Process.ofMemory_readsFrom periodicMemory
  obtain ⟨result, hcall, hiff⟩ : ∃ result, instructionCallback .standard
      (.ofMemory periodicMemory) (.ofModule 0x1000 0x2000) loadContext loadPair = some result ∧
        (ReportsReads periodicMemory [0x4000, 0x4008] 8 result.record.accesses ↔
          LoadReported periodicMemory .ldp 0x4000 8) :=
    load_reported_iff hproc loadPair_loadsFrom (loadPair_address loadContext) (by decide)
  refine ⟨result, hcall, hiff.mpr (Or.inr rfl), ?_⟩
  rw [loadPair_loadsFrom.accesses (loadPair_address loadContext) hcall]
  decide

/-- Every address holds its own low byte, so the two slots differ. -/
def lowByteMemory : Memory := fun address => some (address.setWidth 8)

theorem loadPair_repeats :
    ¬ ∀ (cs : Capstone) (proc : Process) (self : InstructionTracerManager) (ctx : GumCpuContext)
      (info : InstructionInfo) (memory : Memory) (mem : Arm64OpMem) (address : MemoryAddressInfo)
      (result : CallbackResult), proc.ReadsFrom memory → LoadsFrom info mem →
      getMemoryAddressInfo cs mem ctx = some address →
      getMemoryAccessSize info ∈ [1, 2, 4, 8] →
      instructionCallback cs proc self ctx info = some result →
      ReportsReads memory (loadSlots info.insnCopy.id address.addr (getMemoryAccessSize info))
        (getMemoryAccessSize info) result.record.accesses := by
  intro hclaim
  obtain ⟨result, hcall⟩ : ∃ result, instructionCallback .standard (.ofMemory lowByteMemory)
      (.ofModule 0x1000 0x2000) .zero loadPair = some result := ⟨_, rfl⟩
  have hproc := Process.ofMemory_readsFrom lowByteMemory
  have haddress := loadPair_address .zero
  have hreports := hclaim _ _ _ _ _ _ _ _ _ hproc loadPair_loadsFrom haddress (by decide) hcall
  rw [loadPair_loadsFrom.accesses haddress hcall, reportsReads_loadAccesses_iff hproc
    loadPair_loadsFrom.family (by decide) (by decide)] at hreports
  rcases hreports with hnone | hsame
  · exact absurd hnone (by decide)
  · exact absurd hsame (by decide)

end GumTVM
