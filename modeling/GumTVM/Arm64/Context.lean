import GumTVM.Arm64.Capstone
import GumTVM.Foundation.Bits

/-!
# Register values of a CPU context

`getRegisterValue` is the tracer's view of a context; `archValue` is the value
the architecture gives each general-purpose register name. The two agree except
on `WSP`, which the tracer handles as a zero register.
-/

namespace GumTVM

open Foundation

/-- `GumCpuContext` for arm64, without the vector registers and flags. -/
structure GumCpuContext where
  pc : BitVec 64
  sp : BitVec 64
  x : Fin 29 → BitVec 64
  fp : BitVec 64
  lr : BitVec 64

def GumCpuContext.zero : GumCpuContext := ⟨0, 0, fun _ => 0, 0, 0⟩

/-- `ctx->x[idx]`. The array has 29 entries; the structure continues with `fp`
and `lr`, which an index of 29 or 30 reads. -/
def GumCpuContext.xAt (ctx : GumCpuContext) (idx : Nat) : BitVec 64 :=
  if h : idx < 29 then ctx.x ⟨idx, h⟩
  else if idx = 29 then ctx.fp
  else ctx.lr

/-- `get_register_value`; `none` when the function returns false. -/
def getRegisterValue (reg : Arm64Reg) (ctx : GumCpuContext) : Option (BitVec 64) :=
  match reg with
  -- the 32-bit stack pointer is answered like the zero registers
  | .wzr | .xzr | .wsp => some 0
  | .w n => some (ctx.xAt n.val &&& 0xFFFFFFFF#64)
  | .x n => some (ctx.xAt n.val)
  | .sp => some ctx.sp
  | .fp => some ctx.fp
  | .lr => some ctx.lr
  | _ => none

/-- The architectural value of a general-purpose register name: a `W` register
is the low half of its `X` register, and `WSP` the low half of `SP`. -/
def archValue (reg : Arm64Reg) (ctx : GumCpuContext) : Option (BitVec 64) :=
  match reg with
  | .wzr | .xzr => some 0
  | .w n => some ((ctx.xAt n.val).setWidth 32 |>.setWidth 64)
  | .wsp => some (ctx.sp.setWidth 32 |>.setWidth 64)
  | .x n => some (ctx.x n)
  | .sp => some ctx.sp
  | .fp => some ctx.fp
  | .lr => some ctx.lr
  | _ => none

/-- The registers `get_register_value` accepts. -/
def isGeneralPurpose (reg : Arm64Reg) : Bool :=
  match reg with
  | .wzr | .xzr | .wsp | .w _ | .x _ | .sp | .fp | .lr => true
  | _ => false

@[simp] theorem xAt_x (ctx : GumCpuContext) (n : Fin 29) : ctx.xAt n.val = ctx.x n := by
  simp [GumCpuContext.xAt, n.isLt]

theorem getRegisterValue_isSome (reg : Arm64Reg) (ctx : GumCpuContext) :
    (getRegisterValue reg ctx).isSome = isGeneralPurpose reg := by
  cases reg <;> rfl

theorem getRegisterValue_eq_none_iff {reg : Arm64Reg} {ctx : GumCpuContext} :
    getRegisterValue reg ctx = none ↔ isGeneralPurpose reg = false := by
  rw [← getRegisterValue_isSome reg ctx, Option.isSome_eq_false_iff, Option.isNone_iff_eq_none]

/-- Whether a register is supported does not depend on the context. -/
theorem exists_getRegisterValue {reg : Arm64Reg} (hreg : isGeneralPurpose reg = true)
    (ctx : GumCpuContext) : ∃ value, getRegisterValue reg ctx = some value := by
  rw [← Option.isSome_iff_exists, getRegisterValue_isSome, hreg]

theorem getRegisterValue_eq_archValue {reg : Arm64Reg} (hreg : reg ≠ .wsp)
    (ctx : GumCpuContext) : getRegisterValue reg ctx = archValue reg ctx := by
  cases reg with
  | wsp => exact absurd rfl hreg
  | w n => simp only [getRegisterValue, archValue, and_low_mask]
  | x n => simp only [getRegisterValue, archValue, xAt_x]
  | _ => rfl

end GumTVM
