import GumTVM.Record.Decode

/-!
# Where a record places its instruction

An instruction line starts with an offset into the main module, or with an
address and, in parentheses, an offset into another module. The numeral is
padded to eight characters, so the character after that tells the two apart
whatever the instruction is, and the program counter is recovered from the line.
-/

namespace GumTVM

open Foundation

inductive Location where
  | main (offset : BitVec 64)
  | other (pc offset : BitVec 64)
deriving DecidableEq

/-- The program counter, for a base of the main module. -/
def Location.pc (base : BitVec 64) : Location → BitVec 64
  | .main offset => base + offset
  | .other pc _ => pc

/-- Where `instruction_callback` places the instruction at an address. -/
def InstructionTracerManager.locate (self : InstructionTracerManager) (pc : BitVec 64) :
    Location :=
  if self.isAddressInModuleRange pc then .main (pc - currentInsBase self pc)
  else .other pc (pc - currentInsBase self pc)

/-- The location at the start of an instruction line. -/
def readLocation (line : Text) : Option Location :=
  let digits := (line.drop 2).takeWhile isHexDigit
  (readHex digits).bind fun number =>
    match line.drop (2 + max 8 digits.length) with
    | '(' :: rest =>
        (readHex (rest.takeWhile isHexDigit)).map fun offset =>
          .other (BitVec.ofNat 64 number) (BitVec.ofNat 64 offset)
    | _ => some (.main (BitVec.ofNat 64 number))

/-! ## Reading a line back -/

/-- The digits end where something else begins. -/
theorem takeWhile_hex (n : Nat) {rest : Text} (hrest : rest.head?.all fun c => !isHexDigit c) :
    (hex n ++ rest).takeWhile isHexDigit = hex n := by
  rw [List.takeWhile_append_of_pos fun c hc => isHexDigit_of_mem_hex hc]
  cases rest with
  | nil => exact List.append_nil _
  | cons c rest =>
      have hc : isHexDigit c = false := by simpa using hrest
      rw [List.takeWhile_cons_of_neg (by simp [hc]), List.append_nil]

theorem rightpad_eq (text : Text) :
    text.rightpad 8 ' ' = text ++ List.replicate (8 - text.length) ' ' := rfl

theorem takeWhile_rightpad (n : Nat) {rest : Text}
    (hrest : rest.head?.all fun c => !isHexDigit c) :
    ((hex n).rightpad 8 ' ' ++ rest).takeWhile isHexDigit = hex n := by
  rw [rightpad_eq, List.append_assoc]
  apply takeWhile_hex
  cases 8 - (hex n).length with
  | zero => simpa using hrest
  | succ count => rfl

theorem drop_rightpad (n : Nat) (rest : Text) :
    ("0x".toList ++ ((hex n).rightpad 8 ' ' ++ rest)).drop (2 + max 8 (hex n).length) = rest := by
  have hlength : ("0x".toList ++ (hex n).rightpad 8 ' ').length = 2 + max 8 (hex n).length := by
    rw [List.length_append, rightpad_eq, List.length_append, List.length_replicate]
    simp only [String.reduceToList, List.length_cons, List.length_nil]
    omega
  rw [← List.append_assoc, ← hlength, List.drop_left]

theorem readLocation_main (offset : BitVec 64) (rest : Text) :
    readLocation ("0x".toList ++ ((hex offset.toNat).rightpad 8 ' ' ++ ' ' :: rest)) =
      some (.main offset) := by
  have hdigits : (("0x".toList ++ ((hex offset.toNat).rightpad 8 ' ' ++
      ' ' :: rest)).drop 2).takeWhile isHexDigit = hex offset.toNat :=
    takeWhile_rightpad _ (by rfl)
  unfold readLocation
  simp only [hdigits, readHex_hex, Option.bind_some, drop_rightpad, BitVec.ofNat_toNat,
    BitVec.setWidth_eq]
  rfl

theorem readLocation_other (pc offset : BitVec 64) (rest : Text) :
    readLocation ("0x".toList ++ ((hex pc.toNat).rightpad 8 ' ' ++
      '(' :: (hex offset.toNat ++ ')' :: rest))) = some (.other pc offset) := by
  have hdigits : (("0x".toList ++ ((hex pc.toNat).rightpad 8 ' ' ++
      '(' :: (hex offset.toNat ++ ')' :: rest))).drop 2).takeWhile isHexDigit = hex pc.toNat :=
    takeWhile_rightpad _ (by rfl)
  have hoffset : (hex offset.toNat ++ ')' :: rest).takeWhile isHexDigit = hex offset.toNat :=
    takeWhile_hex _ (by rfl)
  unfold readLocation
  simp only [hdigits, readHex_hex, Option.bind_some, drop_rightpad, hoffset, Option.map_some,
    BitVec.ofNat_toNat, BitVec.setWidth_eq]

/-- Whatever follows it, the printed location is read back. -/
theorem readLocation_disasmInfo (self : InstructionTracerManager) (ctx : GumCpuContext)
    (info : InstructionInfo) (rest : Text) :
    readLocation (disasmInfo self ctx info ++ rest) = some (self.locate ctx.pc) := by
  unfold disasmInfo InstructionTracerManager.locate
  dsimp only
  split
  · simp only [List.append_assoc]
    exact readLocation_main _ _
  · simp only [List.append_assoc]
    exact readLocation_other _ _ _

/-- The program counter is recovered from a record of the main module's base. -/
theorem locate_pc (self : InstructionTracerManager) (pc : BitVec 64) :
    (self.locate pc).pc self.moduleRange.base = pc := by
  unfold InstructionTracerManager.locate
  split
  next hmain =>
    unfold currentInsBase Location.pc
    rw [if_pos hmain]
    dsimp only
    rw [BitVec.add_comm, BitVec.sub_add_cancel]
  next => rfl

end GumTVM
