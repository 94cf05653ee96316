import GumTVM.Memory.AccessSize
import GumTVM.Record.Loads

/-!
# Reported stores

A store puts the low bytes of each data register at the computed address, one
access size after the other. The callback prints the whole register, and both
registers for one of the two pair mnemonics only.
-/

namespace GumTVM

open Foundation

variable {cs : Capstone} {proc : Process} {self : InstructionTracerManager}
variable {ctx : GumCpuContext} {info : InstructionInfo}

/-! ## Stores -/

/-- The stores of one register, and those of two. -/
def singleStores : List Arm64Ins :=
  [.str, .strb, .strh, .stur, .sturb, .sturh, .stlr, .stlrb, .stlrh]

def pairStores : List Arm64Ins := [.stp, .stnp]

/-- `W0` to `W30`, `X0` to `X30` and the zero registers. -/
def isStoreRegister : Arm64Reg → Bool
  | .w _ | .x _ | .fp | .lr | .wzr | .xzr => true
  | _ => false

/-- A store of general-purpose registers whose only memory operand is `mem`;
its register operands are the data, and they are read. -/
structure StoresTo (info : InstructionInfo) (mem : Arm64OpMem) : Prop where
  family : info.insnCopy.id ∈ singleStores ++ pairStores
  count : (dataRegisters info).length = if info.insnCopy.id ∈ pairStores then 2 else 1
  general : ∀ reg ∈ dataRegisters info, isStoreRegister reg = true
  read : ∀ op ∈ info.operands, ∀ reg, op.value = .reg reg → op.access.read = true
  operand : ∃ op, memoryOperands info = [op] ∧ op.value = .mem mem ∧ op.access.write = true

/-- The values of the data registers, in order. -/
def storedValues (info : InstructionInfo) (ctx : GumCpuContext) : List (BitVec 64) :=
  (dataRegisters info).filterMap fun reg => archValue reg ctx

theorem exists_archValue {reg : Arm64Reg} (hreg : isStoreRegister reg = true)
    (ctx : GumCpuContext) : ∃ value, archValue reg ctx = some value := by
  cases reg with
  | w _ | x _ | fp | lr | wzr | xzr => exact ⟨_, rfl⟩
  | _ => cases hreg

theorem StoresTo.values_length {mem : Arm64OpMem} (hstore : StoresTo info mem)
    (ctx : GumCpuContext) :
    (storedValues info ctx).length = (dataRegisters info).length := by
  have hgeneral := hstore.general
  unfold storedValues
  generalize dataRegisters info = data at hgeneral
  induction data with
  | nil => rfl
  | cons reg rest ih =>
      have hrest := ih fun other hother => hgeneral other (List.mem_cons_of_mem _ hother)
      obtain ⟨value, hvalue⟩ := exists_archValue (hgeneral reg List.mem_cons_self) ctx
      simp only [List.filterMap_cons, hvalue, List.length_cons, hrest]

/-- The callback collects the values of the data registers. -/
theorem StoresTo.getStoreRegisterValues {mem : Arm64OpMem} (hstore : StoresTo info mem) :
    getStoreRegisterValues info ctx = storedValues info ctx := by
  have hread := hstore.read
  have hgeneral := hstore.general
  unfold GumTVM.getStoreRegisterValues storedValues dataRegisters at *
  rw [List.filterMap_filterMap]
  apply List.filterMap_congr
  intro op hop
  cases hvalue : op.value with
  | reg reg =>
      have hreg : isStoreRegister reg = true :=
        hgeneral reg (List.mem_filterMap.mpr ⟨op, hop, by rw [hvalue]⟩)
      have hne : reg ≠ .wsp := by
        rintro rfl
        cases hreg
      simp only [hread op hop reg hvalue, if_true, Option.bind_some]
      exact getRegisterValue_eq_archValue hne ctx
  | _ => rfl

/-! ## The stored bytes -/

/-- The entries of a store: the low bytes of each value in turn. -/
def expectedWrites (addr : BitVec 64) (size : Nat) (values : List (BitVec 64)) :
    List MemoryAccess :=
  values.zipIdx.map fun (value, i) =>
    ⟨.write, addr + BitVec.ofNat 64 (i * size), size,
      BitVec.ofNat 64 (value.toNat % 2 ^ (8 * size))⟩

/-- What the instruction does to memory. -/
def storeValues (memory : Memory) (addr : BitVec 64) (size : Nat) (values : List (BitVec 64)) :
    Memory :=
  values.zipIdx.foldl
    (fun memory (value, i) =>
      memory.store (addr + BitVec.ofNat 64 (i * size)) (littleEndianBytes size value.toNat))
    memory

/-- Replay one entry; a read changes nothing. -/
def applyAccess (memory : Memory) (access : MemoryAccess) : Memory :=
  match access.kind with
  | .read => memory
  | .write => memory.store access.addr (littleEndianBytes access.size access.value.toNat)

def applyAccesses (memory : Memory) (accesses : List MemoryAccess) : Memory :=
  accesses.foldl applyAccess memory

theorem applyAccesses_filter (memory : Memory) (accesses : List MemoryAccess) :
    applyAccesses memory (accesses.filter (·.kind = .write)) = applyAccesses memory accesses := by
  induction accesses generalizing memory with
  | nil => rfl
  | cons access rest ih =>
      have hstep : applyAccesses memory (access :: rest) =
          applyAccesses (applyAccess memory access) rest := rfl
      rw [hstep]
      cases hkind : access.kind with
      | write =>
          rw [List.filter_cons_of_pos (by simp [hkind])]
          exact ih _
      | read =>
          rw [List.filter_cons_of_neg (by simp [hkind]), ih, applyAccess, hkind]

/-- Only the low bytes of a value are stored. -/
theorem littleEndianBytes_ofNat_mod (size : Nat) (value : BitVec 64) :
    littleEndianBytes size (BitVec.ofNat 64 (value.toNat % 2 ^ (8 * size))).toNat =
      littleEndianBytes size value.toNat := by
  have hlt : value.toNat % 2 ^ (8 * size) < 2 ^ 64 :=
    Nat.lt_of_le_of_lt (Nat.mod_le _ _) value.isLt
  rw [BitVec.toNat_ofNat, Nat.mod_eq_of_lt hlt, Nat.pow_mul]
  exact littleEndianBytes_mod size value.toNat

theorem applyAccesses_expectedWrites (memory : Memory) (addr : BitVec 64) (size : Nat)
    (values : List (BitVec 64)) :
    applyAccesses memory (expectedWrites addr size values) =
      storeValues memory addr size values := by
  unfold applyAccesses expectedWrites storeValues
  rw [List.foldl_map]
  congr 1
  funext memory item
  simp only [applyAccess, littleEndianBytes_ofNat_mod]

/-! ## Reported stores -/

/-- The write entries of a record are those of the store, so replaying them
gives the memory after the instruction. -/
structure ReportsWrites (addr : BitVec 64) (size : Nat) (values : List (BitVec 64))
    (accesses : List MemoryAccess) : Prop where
  entries : accesses.filter (·.kind = .write) = expectedWrites addr size values
  replay : ∀ memory, applyAccesses memory accesses = storeValues memory addr size values

theorem reportsWrites_iff {addr : BitVec 64} {size : Nat} {values : List (BitVec 64)}
    {accesses : List MemoryAccess} :
    ReportsWrites addr size values accesses ↔
      accesses.filter (·.kind = .write) = expectedWrites addr size values := by
  constructor
  · exact ReportsWrites.entries
  · intro hentries
    refine ⟨hentries, ?_⟩
    intro memory
    rw [← applyAccesses_filter, hentries, applyAccesses_expectedWrites]

/-- When the entries of a store are right: no bit above the stored bytes is set,
and the instruction is not the pair mnemonic the callback does not know. -/
def StoreReported (id : Arm64Ins) (size : Nat) (values : List (BitVec 64)) : Prop :=
  id ≠ .stnp ∧ ∀ value ∈ values, value.toNat < 2 ^ (8 * size)

theorem ofNat_mod_eq_iff {value : BitVec 64} {size : Nat} :
    value = BitVec.ofNat 64 (value.toNat % 2 ^ (8 * size)) ↔ value.toNat < 2 ^ (8 * size) := by
  have hlt : value.toNat % 2 ^ (8 * size) < 2 ^ 64 :=
    Nat.lt_of_le_of_lt (Nat.mod_le _ _) value.isLt
  constructor
  · intro heq
    have hnat := congrArg BitVec.toNat heq
    rw [BitVec.toNat_ofNat, Nat.mod_eq_of_lt hlt] at hnat
    rw [hnat]
    exact Nat.mod_lt _ (Nat.two_pow_pos _)
  · intro hsmall
    rw [Nat.mod_eq_of_lt hsmall, BitVec.ofNat_toNat, BitVec.setWidth_eq]

theorem expectedWrites_one (addr : BitVec 64) (size : Nat) (value : BitVec 64) :
    expectedWrites addr size [value] =
      [⟨.write, addr, size, BitVec.ofNat 64 (value.toNat % 2 ^ (8 * size))⟩] := by
  simp [expectedWrites]

theorem expectedWrites_two (addr : BitVec 64) (size : Nat) (first second : BitVec 64) :
    expectedWrites addr size [first, second] =
      [⟨.write, addr, size, BitVec.ofNat 64 (first.toNat % 2 ^ (8 * size))⟩,
        ⟨.write, addr + BitVec.ofNat 64 size, size,
          BitVec.ofNat 64 (second.toNat % 2 ^ (8 * size))⟩] := by
  simp [expectedWrites]

/-- Every entry of a store is a write. -/
theorem filter_storeAccesses (addr : BitVec 64) :
    (storeAccesses info ctx addr).filter (·.kind = .write) = storeAccesses info ctx addr := by
  rw [List.filter_eq_self]
  intro access haccess
  unfold storeAccesses at haccess
  dsimp only at haccess
  split at haccess
  · simp only [List.mem_cons, List.not_mem_nil, or_false] at haccess
    rcases haccess with rfl | rfl <;> rfl
  · cases haccess
  · obtain rfl := List.mem_singleton.mp haccess
    rfl
  · cases haccess

theorem StoresTo.storeAccesses_iff {mem : Arm64OpMem} (hstore : StoresTo info mem)
    (addr : BitVec 64) :
    storeAccesses info ctx addr =
        expectedWrites addr (getMemoryAccessSize info) (storedValues info ctx) ↔
      StoreReported info.insnCopy.id (getMemoryAccessSize info) (storedValues info ctx) := by
  have hcount := (hstore.values_length ctx).trans hstore.count
  unfold storeAccesses
  rw [hstore.getStoreRegisterValues]
  dsimp only
  generalize getMemoryAccessSize info = size
  generalize storedValues info ctx = values at hcount
  by_cases hpair : info.insnCopy.id ∈ pairStores
  · rw [if_pos hpair] at hcount
    obtain ⟨first, second, rfl⟩ := List.length_eq_two.mp hcount
    simp only [pairStores, List.mem_cons, List.not_mem_nil, or_false] at hpair
    rw [expectedWrites_two]
    rcases hpair with hid | hid
    · simp [isPairInstruction, StoreReported, hid, ofNat_mod_eq_iff]
    · -- one entry for two registers
      simp [isPairInstruction, StoreReported, hid]
  · rw [if_neg hpair] at hcount
    obtain ⟨value, rfl⟩ := List.length_eq_one_iff.mp hcount
    have hsingle : info.insnCopy.id ∈ singleStores :=
      (List.mem_append.mp hstore.family).resolve_right hpair
    have hother : ∀ id ∈ singleStores, id ≠ .stp ∧ id ≠ .ldp ∧ id ≠ .stnp := by decide
    obtain ⟨hstp, hldp, hstnp⟩ := hother _ hsingle
    rw [expectedWrites_one]
    simp [isPairInstruction, StoreReported, hstp, hldp, hstnp, ofNat_mod_eq_iff]

theorem StoresTo.accesses {mem : Arm64OpMem} {address : MemoryAddressInfo}
    (hstore : StoresTo info mem) (haddress : getMemoryAddressInfo cs mem ctx = some address)
    {result : CallbackResult}
    (hcall : instructionCallback cs proc self ctx info = some result) :
    result.record.accesses = storeAccesses info ctx address.addr := by
  obtain ⟨op, hops, hvalue, hwrite⟩ := hstore.operand
  rw [accesses_of_memoryOperand hops hvalue haddress hcall, hwrite, if_pos rfl]

/-- The entries of a store describe what it writes exactly when it is no `STNP`
and no data register has a bit set above the bytes stored. -/
theorem store_reported_iff {mem : Arm64OpMem} {address : MemoryAddressInfo}
    (hstore : StoresTo info mem) (haddress : getMemoryAddressInfo cs mem ctx = some address) :
    ∃ result, instructionCallback cs proc self ctx info = some result ∧
      (ReportsWrites address.addr (getMemoryAccessSize info) (storedValues info ctx)
          result.record.accesses ↔
        StoreReported info.insnCopy.id (getMemoryAccessSize info) (storedValues info ctx)) := by
  have hbranch : ∀ id ∈ singleStores ++ pairStores, id ≠ .bl ∧ id ≠ .blr ∧ id ≠ .br := by decide
  obtain ⟨hbl, hblr, hbr⟩ := hbranch _ hstore.family
  obtain ⟨result, hcall⟩ : ∃ result, instructionCallback cs proc self ctx info = some result :=
    exists_instructionCallback hbl hblr hbr
  refine ⟨result, hcall, ?_⟩
  rw [reportsWrites_iff, hstore.accesses haddress hcall, filter_storeAccesses,
    hstore.storeAccesses_iff]

/-- `strb w0, [x1]` -/
def storeByte : InstructionInfo :=
  ⟨.ofOperands .strb 0x1000 "strb".toList "w0, [x1]".toList
    [.plain (.reg (.w 0)) ⟨true, false⟩, .plain (.mem ⟨.x 1, .invalid, 0⟩) ⟨false, true⟩]⟩

theorem storeByte_storesTo : StoresTo storeByte ⟨.x 1, .invalid, 0⟩ where
  family := by decide
  count := rfl
  general := by decide
  read := by
    intro op hop reg hvalue
    rcases List.mem_pair.mp hop with rfl | rfl
    · rfl
    · cases hvalue
  operand := ⟨_, rfl, rfl, rfl⟩

theorem storeByte_address (ctx : GumCpuContext) :
    getMemoryAddressInfo .standard ⟨.x 1, .invalid, 0⟩ ctx =
      some ⟨ctx.x 1 + 0 + 0, ctx.x 1, 0, "x1".toList, [], true, false⟩ := rfl

/-- `w0` holds `0x7F` and `x1` the address `0x4000`. -/
def narrowByteContext : GumCpuContext :=
  { GumCpuContext.zero with x := fun n => if n = 0 then 0x7F else 0x4000 }

theorem storeByte_reported_narrow :
    ∃ result, instructionCallback .standard .empty (.ofModule 0x1000 0x2000) narrowByteContext
        storeByte = some result ∧
      ReportsWrites 0x4000 1 [0x7F] result.record.accesses ∧
      result.record.accesses = [⟨.write, 0x4000, 1, 0x7F⟩] := by
  have hsize : getMemoryAccessSize storeByte = 1 := by decide
  have hvalues : storedValues storeByte narrowByteContext = [0x7F] := by decide
  have haddr : narrowByteContext.x 1 + 0 + 0 = 0x4000 := by decide
  have haddress := storeByte_address narrowByteContext
  obtain ⟨result, hcall, hiff⟩ : ∃ result, instructionCallback .standard .empty
      (.ofModule 0x1000 0x2000) narrowByteContext storeByte = some result ∧ _ :=
    store_reported_iff storeByte_storesTo haddress
  rw [hsize, hvalues, haddr] at hiff
  refine ⟨result, hcall, hiff.mpr ⟨by decide, by simp⟩, ?_⟩
  rw [storeByte_storesTo.accesses haddress hcall]
  decide

/-- `w0` holds `0x1FF`. -/
def wideByteContext : GumCpuContext := { GumCpuContext.zero with x := fun _ => 0x1FF }

theorem storeByte_prints_register :
    ¬ ∀ (cs : Capstone) (proc : Process) (self : InstructionTracerManager) (ctx : GumCpuContext)
      (info : InstructionInfo) (mem : Arm64OpMem) (address : MemoryAddressInfo)
      (result : CallbackResult), StoresTo info mem →
      getMemoryAddressInfo cs mem ctx = some address →
      instructionCallback cs proc self ctx info = some result →
      ReportsWrites address.addr (getMemoryAccessSize info) (storedValues info ctx)
        result.record.accesses := by
  intro hclaim
  obtain ⟨result, hcall⟩ : ∃ result, instructionCallback .standard .empty
      (.ofModule 0x1000 0x2000) wideByteContext storeByte = some result := ⟨_, rfl⟩
  have haddress := storeByte_address wideByteContext
  have hwrites := hclaim _ _ _ _ _ _ _ _ storeByte_storesTo haddress hcall
  rw [reportsWrites_iff, storeByte_storesTo.accesses haddress hcall, filter_storeAccesses,
    storeByte_storesTo.storeAccesses_iff] at hwrites
  exact absurd (hwrites.2 0x1FF (by decide)) (by decide)

end GumTVM
