import GumTVM.Foundation.Bits
import GumTVM.Tracer.Access

/-!
# Effective addresses

The address the architecture gives a memory operand scales and extends the
index register. The tracer adds the register value as it is, so the two differ
as soon as a non-zero index is scaled or a negative one is sign-extended.
-/

namespace GumTVM

open Foundation

/-! ## The address the architecture computes -/

/-- `ExtendReg` without its shift. -/
def extendIndex (ext : Arm64Extender) (value : BitVec 64) : BitVec 64 :=
  match ext with
  | .invalid | .uxtx | .sxtx => value
  | .uxtb => (value.setWidth 8).setWidth 64
  | .uxth => (value.setWidth 16).setWidth 64
  | .uxtw => (value.setWidth 32).setWidth 64
  | .sxtb => (value.setWidth 8).signExtend 64
  | .sxth => (value.setWidth 16).signExtend 64
  | .sxtw => (value.setWidth 32).signExtend 64

/-- The value of an address register; an absent one contributes zero. -/
def addressValue (reg : Arm64Reg) (ctx : GumCpuContext) : BitVec 64 := (archValue reg ctx).getD 0

def addressShift (op : CsArm64Op) : Nat := if op.shiftType = .lsl then op.shiftValue else 0

def effectiveAddress (op : CsArm64Op) (mem : Arm64OpMem) (ctx : GumCpuContext) : BitVec 64 :=
  addressValue mem.base ctx +
    extendIndex op.ext (addressValue mem.index ctx) <<< addressShift op +
    mem.disp.signExtend 64

/-- The index forms of a load or store: a `W` index is extended, an `X` index
is taken whole, and neither stack pointer is an index. Registers that are not
general-purpose are unconstrained. -/
def LegalIndex (reg : Arm64Reg) (ext : Arm64Extender) : Prop :=
  match reg with
  | .w _ | .wzr => ext = .uxtw ∨ ext = .sxtw
  | .invalid | .x _ | .fp | .lr | .xzr => ext = .invalid ∨ ext = .uxtx ∨ ext = .sxtx
  | .sp | .wsp => False
  | _ => True

/-- A memory operand with offset or register-offset addressing. -/
structure LegalAddress (op : CsArm64Op) (mem : Arm64OpMem) : Prop where
  base_ne : mem.base ≠ .wsp
  index : LegalIndex mem.index op.ext

/-- Base or index is present and no general-purpose register. -/
def HasForeignRegister (mem : Arm64OpMem) : Prop :=
  (mem.base ≠ .invalid ∧ isGeneralPurpose mem.base = false) ∨
    (mem.index ≠ .invalid ∧ isGeneralPurpose mem.index = false)

/-- Extending and scaling leave the index as it is. -/
def IndexUnchanged (op : CsArm64Op) (mem : Arm64OpMem) (ctx : GumCpuContext) : Prop :=
  addressValue mem.index ctx = 0#64 ∨
    addressShift op = 0 ∧
      (op.ext = .sxtw → ((addressValue mem.index ctx).setWidth 32).msb = false)

variable {op : CsArm64Op} {mem : Arm64OpMem} {ctx : GumCpuContext}

theorem addressTerm_eq {reg : Arm64Reg} (ctx : GumCpuContext) (hwsp : reg ≠ .wsp)
    (hreg : reg = .invalid ∨ isGeneralPurpose reg = true) :
    addressTerm reg ctx = some (addressValue reg ctx) := by
  unfold addressTerm addressValue
  by_cases hinvalid : reg = .invalid
  · rw [if_pos hinvalid, hinvalid]
    rfl
  · obtain ⟨value, hvalue⟩ := exists_getRegisterValue (hreg.resolve_left hinvalid) ctx
    rw [if_neg hinvalid, ← getRegisterValue_eq_archValue hwsp, hvalue, Option.getD_some]

theorem extendIndex_whole_iff {ext : Arm64Extender} {value : BitVec 64} {s : Nat}
    (hext : ext = .invalid ∨ ext = .uxtx ∨ ext = .sxtx) :
    extendIndex ext value <<< s = value ↔
      value = 0#64 ∨ s = 0 ∧ (ext = .sxtw → (value.setWidth 32).msb = false) := by
  have hvalue : extendIndex ext value = value := by
    rcases hext with rfl | rfl | rfl <;> rfl
  have hplain : ext ≠ .sxtw := by
    rintro rfl
    simp at hext
  rw [hvalue, shiftLeft_eq_self_iff, or_comm]
  simp [hplain]

theorem extendIndex_word_iff {ext : Arm64Extender} (half : BitVec 32) {s : Nat}
    (hext : ext = .uxtw ∨ ext = .sxtw) :
    extendIndex ext (half.setWidth 64) <<< s = half.setWidth 64 ↔
      half.setWidth 64 = 0#64 ∨
        s = 0 ∧ (ext = .sxtw → ((half.setWidth 64).setWidth 32).msb = false) := by
  have hhalf : (half.setWidth 64).setWidth 32 = half := by simp
  rcases hext with rfl | rfl
  · have hvalue : extendIndex .uxtw (half.setWidth 64) = half.setWidth 64 := by
      simp only [extendIndex, hhalf]
    rw [hvalue, shiftLeft_eq_self_iff, or_comm]
    simp
  · have hvalue : extendIndex .sxtw (half.setWidth 64) = half.signExtend 64 := by
      simp only [extendIndex, hhalf]
    have hzero : half.setWidth 64 = 0#64 ↔ half = 0#32 := by
      constructor
      · intro heq
        rw [← hhalf, heq]
        rfl
      · rintro rfl
        rfl
    rw [hvalue, signExtend_shiftLeft_eq_setWidth_iff, hzero, hhalf, or_comm]
    simp

theorem extendIndex_legal_iff (hlegal : LegalIndex mem.index op.ext) :
    extendIndex op.ext (addressValue mem.index ctx) <<< addressShift op =
      addressValue mem.index ctx ↔ IndexUnchanged op mem ctx := by
  unfold IndexUnchanged
  cases hindex : mem.index with
  | w n =>
      rw [hindex] at hlegal
      exact extendIndex_word_iff _ hlegal
  | wzr =>
      rw [hindex] at hlegal
      exact extendIndex_word_iff 0 hlegal
  | sp | wsp =>
      rw [hindex] at hlegal
      cases hlegal
  | x _ | fp | lr | xzr | invalid =>
      rw [hindex] at hlegal
      exact extendIndex_whole_iff hlegal
  | _ =>
      have hzero : extendIndex op.ext 0#64 = 0#64 := by cases op.ext <;> rfl
      simp [addressValue, archValue, hzero]

/-- The tracer's address is the effective one exactly when the operand has a
register it refuses or an index that extending and scaling leave alone. -/
theorem address_eq_effective_iff (cs : Capstone) (hlegal : LegalAddress op mem) :
    ((∀ address, getMemoryAddressInfo cs mem ctx = some address →
        address.addr = effectiveAddress op mem ctx) ∧
      (getMemoryAddressInfo cs mem ctx = none → HasForeignRegister mem)) ↔
      HasForeignRegister mem ∨ IndexUnchanged op mem ctx := by
  have hnone : getMemoryAddressInfo cs mem ctx = none ↔ HasForeignRegister mem :=
    getMemoryAddressInfo_eq_none_iff
  by_cases hforeign : HasForeignRegister mem
  · rw [hnone.mpr hforeign]
    simp [hforeign]
  · have hgeneral (reg : Arm64Reg) (hreg : ¬ (reg ≠ .invalid ∧ isGeneralPurpose reg = false)) :
        reg = .invalid ∨ isGeneralPurpose reg = true := by
      simpa [or_iff_not_imp_left] using hreg
    have hindex : mem.index ≠ .wsp := by
      intro heq
      have hlegalIndex := hlegal.index
      rw [heq] at hlegalIndex
      cases hlegalIndex
    have hbaseTerm := addressTerm_eq ctx hlegal.base_ne
      (hgeneral mem.base fun hbase => hforeign (Or.inl hbase))
    have hindexTerm := addressTerm_eq ctx hindex
      (hgeneral mem.index fun hbase => hforeign (Or.inr hbase))
    have haddr := getMemoryAddressInfo_addr cs mem ctx
    rw [hbaseTerm, hindexTerm] at haddr
    obtain ⟨address, haddress, heq⟩ := Option.map_eq_some_iff.mp haddr
    rw [or_iff_right hforeign, ← extendIndex_legal_iff hlegal.index]
    rw [haddress]
    simp only [Option.some.injEq, forall_eq', heq, reduceCtorEq, false_imp_iff, and_true]
    unfold effectiveAddress
    rw [BitVec.add_left_inj, BitVec.add_right_inj, eq_comm]

/-- A context in which only `X2` is set. -/
def indexContext (value : BitVec 64) : GumCpuContext :=
  { GumCpuContext.zero with x := fun n => if n = 2 then value else 0 }

/-- `[x1, w2, sxtw #2]` -/
def wordElement : CsArm64Op :=
  { CsArm64Op.plain (.mem ⟨.x 1, .w 2, 0⟩) ⟨true, false⟩ with
    shiftType := .lsl, shiftValue := 2, ext := .sxtw }

theorem wordElement_zero_address :
    ∃ address, getMemoryAddressInfo .standard ⟨.x 1, .w 2, 0⟩ (indexContext 0) = some address ∧
      address.addr = effectiveAddress wordElement ⟨.x 1, .w 2, 0⟩ (indexContext 0) := by
  have hlegal : LegalAddress wordElement ⟨.x 1, .w 2, 0⟩ := ⟨by decide, Or.inr rfl⟩
  have hzero : IndexUnchanged wordElement ⟨.x 1, .w 2, 0⟩ (indexContext 0) := Or.inl rfl
  have hagree := ((address_eq_effective_iff .standard hlegal).mpr (Or.inr hzero)).1
  exact ⟨_, rfl, hagree _ rfl⟩

/-- `[x1, x2, lsl #3]` -/
def doubleElement : CsArm64Op :=
  { CsArm64Op.plain (.mem ⟨.x 1, .x 2, 0⟩) ⟨true, false⟩ with shiftType := .lsl, shiftValue := 3 }

theorem doubleElement_one_address :
    LegalAddress doubleElement ⟨.x 1, .x 2, 0⟩ ∧
      ¬ ∀ address, getMemoryAddressInfo .standard ⟨.x 1, .x 2, 0⟩ (indexContext 1) = some address →
        address.addr = effectiveAddress doubleElement ⟨.x 1, .x 2, 0⟩ (indexContext 1) := by
  refine ⟨⟨by decide, Or.inl rfl⟩, ?_⟩
  intro hall
  exact absurd (hall _ rfl) (by decide)

end GumTVM
