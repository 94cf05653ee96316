import GumTVM.Tracer.Manager
import Mathlib.Data.List.Infix

/-!
# Sizes, addresses and stored values of memory operands

The helpers of the instruction callback that interpret a memory operand. The
size is inferred from the instruction identifier, the operand text and, for
register pairs, the class of the first register operand with a known class.
-/

namespace GumTVM

open Foundation

/-- The register classes `get_stp_ldp_access_size` tests; the others continue
its search. -/
def pairRegisterSize : Arm64Reg → Option Nat
  | .q _ => some 16
  | .d _ => some 8
  | .s _ => some 4
  | .h _ => some 2
  | .b _ => some 1
  | .w _ => some 4
  | _ => none

def pairOperandSize (op : CsArm64Op) : Option Nat :=
  match op.value with
  | .reg reg => pairRegisterSize reg
  | _ => none

def getStpLdpAccessSize (info : InstructionInfo) : Nat :=
  (info.operands.findSome? pairOperandSize).getD 8

def isMemoryAccessInstruction (id : Arm64Ins) : Bool :=
  match id with
  | .str | .strb | .strh | .stur | .sturb | .sturh | .stlr | .stlrb | .stlrh
  | .stp | .stnp | .stxp | .stlxp
  | .ldr | .ldrb | .ldrh | .ldur | .ldurb | .ldurh | .ldar | .ldarb | .ldarh
  | .ldp | .ldnp | .ldxp | .ldaxp | .ldrsw | .ldursw | .ldrsh | .ldursh
  | .ldapr | .ldaprb | .ldaprh | .ldapur | .ldapurb | .ldapurh | .ldapursw => true
  | _ => false

/-- `strstr(text, word) != nullptr` -/
def strstr (text word : Text) : Bool := decide (word <:+: text)

def getMemoryAccessSize (info : InstructionInfo) : Nat :=
  match info.insnCopy.id with
  | .strb | .sturb | .stlrb | .ldrb | .ldurb | .ldarb | .ldaprb | .ldapurb => 1
  | .strh | .sturh | .stlrh | .ldrh | .ldurh | .ldarh | .ldaprh | .ldapurh
  | .ldrsh | .ldursh => 2
  | .str | .stur | .stlr =>
      if strstr info.insnCopy.opStr "w".toList then 4 else 8
  | .ldr | .ldur | .ldar | .ldapr | .ldapur =>
      if strstr info.insnCopy.opStr "w".toList ||
          strstr info.insnCopy.mnemonic "ldrsw".toList ||
          strstr info.insnCopy.mnemonic "ldursw".toList then 4 else 8
  | .ldrsw | .ldursw | .ldapursw => 4
  | .stp | .stnp | .ldp | .ldnp => getStpLdpAccessSize info
  | .stxp | .stlxp | .ldxp | .ldaxp => 8
  -- signed byte loads and what is no memory access keep the default
  | id =>
      if isMemoryAccessInstruction id && strstr info.insnCopy.opStr "w".toList then 4 else 8

structure MemoryAddressInfo where
  addr : BitVec 64
  baseValue : BitVec 64
  indexValue : BitVec 64
  baseName : Text
  indexName : Text
  hasBase : Bool
  hasIndex : Bool

/-- `get_memory_address_info` on the memory member of an operand; `none` when
the function returns false. -/
def getMemoryAddressInfo (cs : Capstone) (mem : Arm64OpMem) (ctx : GumCpuContext) :
    Option MemoryAddressInfo :=
  let info : MemoryAddressInfo :=
    { addr := 0, baseValue := 0, indexValue := 0, baseName := [], indexName := []
      hasBase := false, hasIndex := false }
  let withBase :=
    if mem.base ≠ .invalid then
      (getRegisterValue mem.base ctx).map fun baseValue =>
        { info with baseValue, hasBase := true, baseName := cs.regName mem.base }
    else some info
  let withIndex := withBase.bind fun info =>
    if mem.index ≠ .invalid then
      (getRegisterValue mem.index ctx).map fun indexValue =>
        { info with indexValue, hasIndex := true, indexName := cs.regName mem.index }
    else some info
  withIndex.map fun info =>
    { info with addr := info.baseValue + info.indexValue + mem.disp.signExtend 64 }

/-- `get_store_register_values`; the function returns whether any was found. -/
def getStoreRegisterValues (info : InstructionInfo) (ctx : GumCpuContext) : List (BitVec 64) :=
  info.operands.filterMap fun op =>
    match op.value with
    | .reg reg => if op.access.read then getRegisterValue reg ctx else none
    | _ => none

/-! ## Address computation -/

/-- What an address register contributes; an absent register contributes zero. -/
def addressTerm (reg : Arm64Reg) (ctx : GumCpuContext) : Option (BitVec 64) :=
  if reg = .invalid then some 0 else getRegisterValue reg ctx

theorem getMemoryAddressInfo_addr (cs : Capstone) (mem : Arm64OpMem) (ctx : GumCpuContext) :
    (getMemoryAddressInfo cs mem ctx).map MemoryAddressInfo.addr =
      (addressTerm mem.base ctx).bind fun base =>
        (addressTerm mem.index ctx).map fun index => base + index + mem.disp.signExtend 64 := by
  unfold getMemoryAddressInfo addressTerm
  by_cases hbase : mem.base = .invalid <;> by_cases hindex : mem.index = .invalid
  · simp [hbase, hindex]
  · cases getRegisterValue mem.index ctx <;> simp [hbase, hindex]
  · cases getRegisterValue mem.base ctx <;> simp [hbase, hindex]
  · cases getRegisterValue mem.base ctx <;>
      cases getRegisterValue mem.index ctx <;> simp [hbase, hindex]

/-- The computation fails only on an address register that is present and not a
general-purpose register. -/
theorem getMemoryAddressInfo_eq_none_iff {cs : Capstone} {mem : Arm64OpMem}
    {ctx : GumCpuContext} :
    getMemoryAddressInfo cs mem ctx = none ↔
      (mem.base ≠ .invalid ∧ isGeneralPurpose mem.base = false) ∨
        (mem.index ≠ .invalid ∧ isGeneralPurpose mem.index = false) := by
  have hterm (reg : Arm64Reg) : addressTerm reg ctx = none ↔
      reg ≠ .invalid ∧ isGeneralPurpose reg = false := by
    unfold addressTerm
    split
    next hinvalid => simp [hinvalid]
    next hvalid => simp [hvalid, getRegisterValue_eq_none_iff]
  rw [← hterm, ← hterm, ← Option.map_eq_none_iff, getMemoryAddressInfo_addr]
  cases addressTerm mem.base ctx <;> cases addressTerm mem.index ctx <;> simp

/-- The names of an address are those of its registers, or empty. -/
theorem getMemoryAddressInfo_names {cs : Capstone} {mem : Arm64OpMem} {ctx : GumCpuContext}
    {address : MemoryAddressInfo} (haddress : getMemoryAddressInfo cs mem ctx = some address) :
    (address.baseName = [] ∨ address.baseName = cs.regName mem.base) ∧
      (address.indexName = [] ∨ address.indexName = cs.regName mem.index) := by
  unfold getMemoryAddressInfo at haddress
  obtain ⟨indexed, hindexed, rfl⟩ := Option.map_eq_some_iff.mp haddress
  obtain ⟨based, hbased, hindexed⟩ := Option.bind_eq_some_iff.mp hindexed
  have hbase : (based.baseName = [] ∨ based.baseName = cs.regName mem.base) ∧
      based.indexName = [] := by
    split at hbased
    · obtain ⟨value, _, rfl⟩ := Option.map_eq_some_iff.mp hbased
      exact ⟨Or.inr rfl, rfl⟩
    · obtain rfl := Option.some.inj hbased
      exact ⟨Or.inl rfl, rfl⟩
  split at hindexed
  · obtain ⟨value, _, rfl⟩ := Option.map_eq_some_iff.mp hindexed
    exact ⟨hbase.1, Or.inr rfl⟩
  · obtain rfl := Option.some.inj hindexed
    exact ⟨hbase.1, Or.inl hbase.2⟩

end GumTVM
