import GumTVM.Foundation.Text

/-!
# Decoded AArch64 instructions

The part of a decoded instruction that the tracer reads: identifier, address,
printed texts, operands with their access flags, groups and implicitly written
registers. Register and instruction enumerations keep one constructor for each
value the tracer tells apart; register classes that it tests by enumeration
ranges are families over the register number.
-/

namespace GumTVM

open Foundation

-- the sizes of the register families; a register is written with its number
instance neZero29 : NeZero 29 := ⟨by decide⟩
instance neZero31 : NeZero 31 := ⟨by decide⟩
instance neZero32 : NeZero 32 := ⟨by decide⟩

/-- `arm64_reg`. The frame pointer and the link register are `X29` and `X30`;
the `x` family ends at `X28`. -/
inductive Arm64Reg where
  | invalid
  | fp
  | lr
  | nzcv
  | sp
  | wsp
  | wzr
  | xzr
  | b (n : Fin 32)
  | d (n : Fin 32)
  | h (n : Fin 32)
  | q (n : Fin 32)
  | s (n : Fin 32)
  | w (n : Fin 31)
  | x (n : Fin 29)
  | v (n : Fin 32)
  | other (id : Nat)
deriving DecidableEq

/-- `arm64_insn`. The immediate branches keep their identifiers; of the others,
those that no function names are `other`. -/
inductive Arm64Ins where
  | str | strb | strh | stur | sturb | sturh | stlr | stlrb | stlrh
  | stp | stnp
  | ldr | ldrb | ldrh | ldrsb | ldrsh | ldrsw
  | ldur | ldurb | ldurh | ldursb | ldursh | ldursw
  | ldar | ldarb | ldarh
  | ldapr | ldaprb | ldaprh
  | ldapur | ldapurb | ldapurh | ldapursb | ldapursh | ldapursw
  | ldp | ldnp | ldpsw
  | ldxr | ldxrb | ldxrh | ldxp
  | ldaxr | ldaxrb | ldaxrh | ldaxp
  | stxr | stxrb | stxrh | stxp
  | stlxr | stlxrb | stlxrh | stlxp
  | b | bl | blr | br
  | cbz | cbnz | tbz | tbnz
  | other (id : Nat)
deriving DecidableEq

/-- `cs_ac_type`: the bits `CS_AC_READ` and `CS_AC_WRITE`. -/
structure CsAccess where
  read : Bool
  write : Bool
deriving DecidableEq

/-- `arm64_shifter` -/
inductive Arm64Shifter where
  | invalid | lsl | msl | lsr | asr | ror
deriving DecidableEq

/-- `arm64_extender` -/
inductive Arm64Extender where
  | invalid | uxtb | uxth | uxtw | uxtx | sxtb | sxth | sxtw | sxtx
deriving DecidableEq

/-- `arm64_op_mem`; the displacement is a signed 32-bit field. -/
structure Arm64OpMem where
  base : Arm64Reg
  index : Arm64Reg
  disp : BitVec 32
deriving DecidableEq

/-- The type tag of an operand together with the union member it selects. -/
inductive Arm64OpValue where
  | invalid
  | reg (reg : Arm64Reg)
  | imm (imm : BitVec 64)
  | mem (mem : Arm64OpMem)
  | other (type : Nat)
deriving DecidableEq

/-- `cs_arm64_op` -/
structure CsArm64Op where
  value : Arm64OpValue
  access : CsAccess
  shiftType : Arm64Shifter
  shiftValue : Nat
  ext : Arm64Extender
deriving DecidableEq

/-- `cs_arm64`. The operand array has eight entries. -/
structure CsArm64 where
  operands : List CsArm64Op
  opCount_le : operands.length ≤ 8
  writeback : Bool
deriving DecidableEq

/-- `cs_group_type` -/
inductive CsGroup where
  | jump
  | call
  | ret
  | other (id : Nat)
deriving DecidableEq

/-- `cs_detail` -/
structure CsDetail where
  regsWrite : List Arm64Reg
  groups : List CsGroup
  arm64 : CsArm64
deriving DecidableEq

/-- `cs_insn` with its detail record. -/
structure CsInsn where
  id : Arm64Ins
  address : BitVec 64
  mnemonic : Text
  opStr : Text
  detail : CsDetail
deriving DecidableEq

/-- `InstructionInfo`: the constructor copies the instruction and its detail. -/
structure InstructionInfo where
  insnCopy : CsInsn
deriving DecidableEq

namespace InstructionInfo

def detailCopy (info : InstructionInfo) : CsDetail := info.insnCopy.detail

def operands (info : InstructionInfo) : List CsArm64Op := info.detailCopy.arm64.operands

/-- `operands[0]`. The detail record is zeroed before decoding, so without
operands the entry has the invalid type. -/
def operand0 (info : InstructionInfo) : Arm64OpValue :=
  match info.operands with
  | [] => .invalid
  | op :: _ => op.value

end InstructionInfo

/-- The disassembler library as the tracer uses it while printing:
`regName` is `cs_reg_name`. -/
structure Capstone where
  regName : Arm64Reg → Text

/-- `cs_insn_group` -/
def csInsnGroup (insn : CsInsn) (group : CsGroup) : Bool := insn.detail.groups.contains group

/-- Register names are identifiers: letters and digits only. -/
def Capstone.WordNames (cs : Capstone) : Prop :=
  ∀ reg, ∀ c ∈ cs.regName reg, c.isAlphanum = true

/-! ## Concrete instructions -/

/-- An operand without shift and extension. -/
def CsArm64Op.plain (value : Arm64OpValue) (access : CsAccess) : CsArm64Op where
  value := value
  access := access
  shiftType := .invalid
  shiftValue := 0
  ext := .invalid

/-- An instruction in no group that writes only through its first eight operands. -/
def CsInsn.ofOperands (id : Arm64Ins) (address : BitVec 64) (mnemonic opStr : Text)
    (operands : List CsArm64Op) : CsInsn where
  id := id
  address := address
  mnemonic := mnemonic
  opStr := opStr
  detail :=
    { regsWrite := []
      groups := []
      arm64 := ⟨operands.take 8, List.length_take_le 8 operands, false⟩ }

/-- The names the library gives the general-purpose and vector registers. -/
def Capstone.standard : Capstone where
  regName
    | .b n => 'b' :: Nat.toDigits 10 n
    | .d n => 'd' :: Nat.toDigits 10 n
    | .h n => 'h' :: Nat.toDigits 10 n
    | .q n => 'q' :: Nat.toDigits 10 n
    | .s n => 's' :: Nat.toDigits 10 n
    | .w n => 'w' :: Nat.toDigits 10 n
    | .x n => 'x' :: Nat.toDigits 10 n
    | .v n => 'v' :: Nat.toDigits 10 n
    | .sp => "sp".toList
    | .wsp => "wsp".toList
    | .wzr => "wzr".toList
    | .xzr => "xzr".toList
    | .fp => "x29".toList
    | .lr => "x30".toList
    | .nzcv => "nzcv".toList
    | .invalid | .other _ => []

theorem isAlphanum_of_mem_numbered {letter c : Char} {n : Nat} (hletter : letter.isAlphanum = true)
    (hc : c ∈ letter :: Nat.toDigits 10 n) : c.isAlphanum = true := by
  rcases List.mem_cons.mp hc with rfl | hdigit
  · exact hletter
  · have hc' : c.isDigit = true := Nat.isDigit_of_mem_toDigits (by omega) (by omega) hdigit
    simp [Char.isAlphanum, hc']

theorem Capstone.standard_wordNames : Capstone.standard.WordNames := by
  intro reg c hc
  cases reg with
  | b n | d n | h n | q n | s n | w n | x n | v n => exact isAlphanum_of_mem_numbered rfl hc
  | other | invalid => cases hc
  | _ => exact List.all_eq_true.mp rfl c hc

end GumTVM
