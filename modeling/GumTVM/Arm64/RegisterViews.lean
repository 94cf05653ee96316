import GumTVM.Arm64.Context

/-!
# Register views

`get_register_value` tells registers apart by their numbers: three names first,
then two ranges, then the rest by name. The enumeration belongs to the
disassembler; what the ranges rely on is that registers have distinct numbers
and that each family is numbered consecutively. Each index into the array of the
context is kept, because the range of the `W` registers is longer than the array.
-/

namespace GumTVM

open Foundation

/-! ## Numbers of registers -/

/-- The numbers of `arm64_reg`. -/
structure RegNumbers where
  number : Arm64Reg → Nat
  injective : Function.Injective number
  w_number : ∀ n : Fin 31, number (.w n) = number (.w 0) + n.val
  x_number : ∀ n : Fin 29, number (.x n) = number (.x 0) + n.val

/-- The numbers between the first and the last of a consecutive family are those
of the family. -/
theorem between_iff_exists {α : Type*} {number : α → Nat} (hinj : Function.Injective number)
    {size : Nat} {family : Fin (size + 1) → α} {first : Nat}
    (hfamily : ∀ n, number (family n) = first + n.val) {item : α} :
    first ≤ number item ∧ number item ≤ first + size ↔ ∃ n, item = family n := by
  constructor
  · rintro ⟨hlower, hupper⟩
    have hlt : number item - first < size + 1 := by omega
    refine ⟨⟨number item - first, hlt⟩, hinj ?_⟩
    rw [hfamily]
    exact (Nat.add_sub_cancel' hlower).symm
  · rintro ⟨n, rfl⟩
    have hlt := n.isLt
    rw [hfamily]
    omega

namespace RegNumbers

variable (regs : RegNumbers) {reg : Arm64Reg}

@[simp] theorem number_eq_iff {other : Arm64Reg} :
    regs.number reg = regs.number other ↔ reg = other := regs.injective.eq_iff

theorem w_range_iff : regs.number (.w 0) ≤ regs.number reg ∧
    regs.number reg ≤ regs.number (.w 30) ↔ ∃ n, reg = .w n := by
  rw [regs.w_number 30]
  exact between_iff_exists regs.injective regs.w_number

theorem x_range_iff : regs.number (.x 0) ≤ regs.number reg ∧
    regs.number reg ≤ regs.number (.x 28) ↔ ∃ n, reg = .x n := by
  rw [regs.x_number 28]
  exact between_iff_exists regs.injective regs.x_number

end RegNumbers

/-! ## The dispatch -/

/-- What a call answers: the returned flag, `out_value` afterwards, and the
indices with which the array of the context was read. -/
structure RegisterAnswer where
  found : Bool
  outValue : BitVec 64
  indices : List Nat
deriving DecidableEq

/-- `get_register_value` on the number of a register. -/
def getRegisterValueOf (regs : RegNumbers) (reg : Nat) (ctx : GumCpuContext)
    (outValue : BitVec 64) : RegisterAnswer :=
  if reg = regs.number .wzr ∨ reg = regs.number .xzr ∨ reg = regs.number .wsp then
    ⟨true, 0, []⟩
  else if regs.number (.w 0) ≤ reg ∧ reg ≤ regs.number (.w 30) then
    let idx := reg - regs.number (.w 0)
    ⟨true, ctx.xAt idx &&& 0xFFFFFFFF#64, [idx]⟩
  else if regs.number (.x 0) ≤ reg ∧ reg ≤ regs.number (.x 28) then
    let idx := reg - regs.number (.x 0)
    ⟨true, ctx.xAt idx, [idx]⟩
  else if reg = regs.number .sp then ⟨true, ctx.sp, []⟩
  else if reg = regs.number .fp then ⟨true, ctx.fp, []⟩
  else if reg = regs.number .lr then ⟨true, ctx.lr, []⟩
  else ⟨false, outValue, []⟩

/-- The index a register is read with, if it is read from the array. -/
def xIndices : Arm64Reg → List Nat
  | .w n => [n.val]
  | .x n => [n.val]
  | _ => []

/-- By numbers or by names, the dispatch is the same. -/
theorem getRegisterValueOf_eq (regs : RegNumbers) (reg : Arm64Reg) (ctx : GumCpuContext)
    (outValue : BitVec 64) :
    getRegisterValueOf regs (regs.number reg) ctx outValue =
      ⟨(getRegisterValue reg ctx).isSome, (getRegisterValue reg ctx).getD outValue,
        xIndices reg⟩ := by
  unfold getRegisterValueOf
  simp only [regs.number_eq_iff, regs.w_range_iff, regs.x_range_iff]
  cases reg with
  | w n =>
      have hidx : regs.number (.w n) - regs.number (.w 0) = n.val := by
        rw [regs.w_number n, Nat.add_sub_cancel_left]
      simp [hidx, getRegisterValue, xIndices]
  | x n =>
      have hidx : regs.number (.x n) - regs.number (.x 0) = n.val := by
        rw [regs.x_number n, Nat.add_sub_cancel_left]
      simp [hidx, getRegisterValue, xIndices]
  | _ => simp [getRegisterValue, xIndices]

/-! ## The views -/

/-- `X0` to `X30`, the last two by their own names. -/
def xRegister (n : Fin 31) : Arm64Reg :=
  if h : n.val < 29 then .x ⟨n.val, h⟩ else if n.val = 29 then .fp else .lr

/-- The 64-bit register of which a 32-bit name is the low half. -/
def wideView : Arm64Reg → Option Arm64Reg
  | .w n => some (xRegister n)
  | .wsp => some .sp
  | .wzr => some .xzr
  | _ => none

/-- A call for a register answers with its architectural value, reads the array
of the context inside its bounds, and shows a 32-bit name as the low half of what
it answers for the wide one; other registers are refused. -/
structure ViewsAgree (regs : RegNumbers) (ctx : GumCpuContext) (reg : Arm64Reg)
    (outValue : BitVec 64) : Prop where
  inBounds : ∀ idx ∈ (getRegisterValueOf regs (regs.number reg) ctx outValue).indices, idx < 29
  value : ∀ value, archValue reg ctx = some value →
    (getRegisterValueOf regs (regs.number reg) ctx outValue).found = true ∧
      (getRegisterValueOf regs (regs.number reg) ctx outValue).outValue = value
  word : ∀ wide, wideView reg = some wide →
    (getRegisterValueOf regs (regs.number reg) ctx outValue).outValue.toNat =
      (getRegisterValueOf regs (regs.number wide) ctx outValue).outValue.toNat % 2 ^ 32
  refused : archValue reg ctx = none →
    (getRegisterValueOf regs (regs.number reg) ctx outValue).found = false ∧
      (getRegisterValueOf regs (regs.number reg) ctx outValue).outValue = outValue

section Views

variable {reg wide : Arm64Reg} (ctx : GumCpuContext)

/-- The frame pointer and the link register follow the array in the context. -/
theorem getRegisterValue_xRegister (n : Fin 31) :
    getRegisterValue (xRegister n) ctx = some (ctx.xAt n.val) := by
  unfold xRegister
  by_cases hlt : n.val < 29
  · rw [dif_pos hlt]
    rfl
  · rw [dif_neg hlt, GumCpuContext.xAt, dif_neg hlt]
    by_cases hfp : n.val = 29
    · rw [if_pos hfp, if_pos hfp]
      rfl
    · rw [if_neg hfp, if_neg hfp]
      rfl

/-- A 32-bit name is answered with the low half of its wide view. -/
theorem getRegisterValue_wideView (hwide : wideView reg = some wide) (hreg : reg ≠ .wsp) :
    ∃ value, getRegisterValue wide ctx = some value ∧
      getRegisterValue reg ctx = some (value &&& 0xFFFFFFFF#64) := by
  cases reg with
  | w n =>
      cases hwide
      exact ⟨ctx.xAt n.val, getRegisterValue_xRegister ctx n, rfl⟩
  | wsp => exact absurd rfl hreg
  | wzr =>
      cases hwide
      exact ⟨0, rfl, rfl⟩
  | _ => cases hwide

theorem low_half_toNat (value : BitVec 64) :
    (value &&& 0xFFFFFFFF#64).toNat = value.toNat % 2 ^ 32 := by
  have hlt : value.toNat % 2 ^ 32 < 2 ^ 64 := by omega
  rw [and_low_mask, BitVec.toNat_setWidth, BitVec.toNat_setWidth, Nat.mod_eq_of_lt hlt]

theorem index_lt_of_mem_xIndices (hw29 : reg ≠ .w 29) (hw30 : reg ≠ .w 30) :
    ∀ idx ∈ xIndices reg, idx < 29 := by
  intro idx hidx
  cases reg with
  | w n =>
      obtain rfl := List.mem_singleton.mp hidx
      have h29 : n.val ≠ 29 := fun heq => hw29 (congrArg Arm64Reg.w (Fin.ext heq))
      have h30 : n.val ≠ 30 := fun heq => hw30 (congrArg Arm64Reg.w (Fin.ext heq))
      omega
  | x n =>
      obtain rfl := List.mem_singleton.mp hidx
      exact n.isLt
  | _ => cases hidx

theorem archValue_isSome (reg : Arm64Reg) : (archValue reg ctx).isSome = isGeneralPurpose reg := by
  cases reg <;> rfl

end Views

/-- The views agree except on `W29` and `W30`, which are read behind the array,
and on `WSP` unless the low half of the stack pointer is zero. -/
theorem views_agree_iff (regs : RegNumbers) (ctx : GumCpuContext) (reg : Arm64Reg)
    (outValue : BitVec 64) :
    ViewsAgree regs ctx reg outValue ↔
      reg ≠ .w 29 ∧ reg ≠ .w 30 ∧ (reg = .wsp → ctx.sp.toNat % 2 ^ 32 = 0) := by
  constructor
  · intro hagree
    have hbounds := hagree.inBounds
    rw [getRegisterValueOf_eq] at hbounds
    refine ⟨?_, ?_, ?_⟩
    · rintro rfl
      exact absurd (hbounds 29 (List.mem_singleton_self 29)) (by decide)
    · rintro rfl
      exact absurd (hbounds 30 (List.mem_singleton_self 30)) (by decide)
    · rintro rfl
      have hword := hagree.word .sp rfl
      rw [getRegisterValueOf_eq, getRegisterValueOf_eq] at hword
      exact hword.symm
  · rintro ⟨hw29, hw30, hwsp⟩
    refine ⟨?_, ?_, ?_, ?_⟩
    · rw [getRegisterValueOf_eq]
      exact index_lt_of_mem_xIndices hw29 hw30
    · intro value hvalue
      have hsame : getRegisterValue reg ctx = some value := by
        by_cases hreg : reg = .wsp
        · subst hreg
          have hzero : (0 : BitVec 64) = value := by
            apply BitVec.eq_of_toNat_eq
            rw [← Option.some.inj hvalue, BitVec.toNat_setWidth, BitVec.toNat_setWidth, hwsp rfl]
            rfl
          rw [← hzero]
          rfl
        · rw [getRegisterValue_eq_archValue hreg, hvalue]
      rw [getRegisterValueOf_eq, hsame]
      exact ⟨rfl, rfl⟩
    · intro wide hwide
      by_cases hreg : reg = .wsp
      · subst hreg
        cases hwide
        rw [getRegisterValueOf_eq, getRegisterValueOf_eq]
        exact (hwsp rfl).symm
      · obtain ⟨value, hvalue, hlow⟩ := getRegisterValue_wideView ctx hwide hreg
        rw [getRegisterValueOf_eq, getRegisterValueOf_eq, hvalue, hlow]
        exact low_half_toNat value
    · intro hnone
      have hunknown : getRegisterValue reg ctx = none := by
        rw [getRegisterValue_eq_none_iff, ← archValue_isSome ctx, hnone]
        rfl
      rw [getRegisterValueOf_eq, hunknown]
      exact ⟨rfl, rfl⟩

/-! ## The numbers of one release -/

/-- The order of the enumeration in one release of the disassembler. -/
def standardNumber : Arm64Reg → Nat
  | .invalid => 0
  | .fp => 1
  | .lr => 2
  | .nzcv => 3
  | .sp => 4
  | .wsp => 5
  | .wzr => 6
  | .xzr => 7
  | .b n => 8 + n.val
  | .d n => 40 + n.val
  | .h n => 72 + n.val
  | .q n => 104 + n.val
  | .s n => 136 + n.val
  | .w n => 168 + n.val
  | .x n => 199 + n.val
  | .v n => 228 + n.val
  | .other id => 260 + id

/-- The register with a number of that release. -/
def registerOfNumber (number : Nat) : Arm64Reg :=
  if number < 8 then
    [.invalid, .fp, .lr, .nzcv, .sp, .wsp, .wzr, .xzr].getD number .invalid
  else if number < 40 then .b (Fin.ofNat 32 (number - 8))
  else if number < 72 then .d (Fin.ofNat 32 (number - 40))
  else if number < 104 then .h (Fin.ofNat 32 (number - 72))
  else if number < 136 then .q (Fin.ofNat 32 (number - 104))
  else if number < 168 then .s (Fin.ofNat 32 (number - 136))
  else if number < 199 then .w (Fin.ofNat 31 (number - 168))
  else if number < 228 then .x (Fin.ofNat 29 (number - 199))
  else if number < 260 then .v (Fin.ofNat 32 (number - 228))
  else .other (number - 260)

theorem registerOfNumber_standardNumber (reg : Arm64Reg) :
    registerOfNumber (standardNumber reg) = reg := by
  cases reg with
  | b n | d n | h n | q n | s n | w n | x n | v n =>
      have hlt := n.isLt
      unfold registerOfNumber standardNumber
      simp (disch := omega) only [if_neg, if_pos, Nat.add_sub_cancel_left, Fin.ofNat_val_eq_self]
  | other id =>
      unfold registerOfNumber standardNumber
      simp (disch := omega) only [if_neg, Nat.add_sub_cancel_left]
  | _ => rfl

def RegNumbers.standard : RegNumbers where
  number := standardNumber
  injective := Function.LeftInverse.injective registerOfNumber_standardNumber
  w_number _ := rfl
  x_number _ := rfl

/-- The stack pointer is not zero. -/
def stackContext : GumCpuContext := { GumCpuContext.zero with sp := 0x7000 }

/-- `WSP` is answered with zero, and `W29` is read behind the array. -/
theorem views_disagree :
    ¬ ViewsAgree .standard stackContext .wsp 0 ∧ ¬ ViewsAgree .standard stackContext (.w 29) 0 := by
  refine ⟨?_, ?_⟩
  · intro hagree
    have hvalue := (hagree.value 0x7000 (by decide)).2
    rw [getRegisterValueOf_eq] at hvalue
    exact absurd hvalue (by decide)
  · intro hagree
    have hbounds := hagree.inBounds
    rw [getRegisterValueOf_eq] at hbounds
    exact absurd (hbounds 29 (List.mem_singleton_self 29)) (by decide)

end GumTVM
