import GumTVM.Memory.ReadBuffer

/-!
# The access size against the architecture

What a load or store transfers for each data register is fixed by its mnemonic
or by the width of that register. The size the tracer infers follows the
operand text instead for the plain mnemonics, and for a pair it passes over the
register classes it does not know.
-/

namespace GumTVM

open Foundation

variable {info : InstructionInfo}

/-! ## The bytes an instruction transfers -/

/-- The bytes of a data register. -/
def dataWidth : Arm64Reg → Option Nat
  | .b _ => some 1
  | .h _ => some 2
  | .s _ | .w _ | .wzr => some 4
  | .d _ | .x _ | .fp | .lr | .xzr => some 8
  | .q _ => some 16
  | _ => none

/-- The bytes transferred for one data register by the load and store families;
`none` for other instructions. -/
def transferBytes (id : Arm64Ins) (data : Arm64Reg) : Option Nat :=
  match id with
  | .strb | .sturb | .stlrb
  | .ldrb | .ldurb | .ldarb | .ldaprb | .ldapurb | .ldrsb | .ldursb | .ldapursb => some 1
  | .strh | .sturh | .stlrh
  | .ldrh | .ldurh | .ldarh | .ldaprh | .ldapurh | .ldrsh | .ldursh | .ldapursh => some 2
  | .ldrsw | .ldursw | .ldapursw => some 4
  | .str | .stur | .stlr | .ldr | .ldur | .ldar | .ldapr | .ldapur
  | .stp | .stnp | .ldp | .ldnp => dataWidth data
  | _ => none

/-- The register operands. An address register is part of a memory operand, so
these are the data registers. -/
def dataRegisters (info : InstructionInfo) : List Arm64Reg :=
  info.operands.filterMap fun op =>
    match op.value with
    | .reg reg => some reg
    | _ => none

def addressRegisters (info : InstructionInfo) : List Arm64Reg :=
  info.operands.flatMap fun op =>
    match op.value with
    | .mem mem => [mem.base, mem.index]
    | _ => []

/-- A decoded instruction of the load and store families: one data register, or
two for a pair, each of which transfers `size` bytes. -/
structure Transfers (info : InstructionInfo) (size : Nat) : Prop where
  count_single : ¬ IsSizedPair info.insnCopy.id → (dataRegisters info).length = 1
  count_pair : IsSizedPair info.insnCopy.id → (dataRegisters info).length = 2
  bytes : ∀ reg ∈ dataRegisters info, transferBytes info.insnCopy.id reg = some size

/-! ## What the inference looks at -/

/-- The 32-bit names, which are the printed names with the letter the inference
searches for. -/
def isWordName : Arm64Reg → Bool
  | .w _ | .wzr | .wsp => true
  | _ => false

/-- The texts of a decoded instruction: the letter stands in the operand text
exactly when a 32-bit register is printed there, and the mnemonics of the plain
loads are not those of the signed word loads. -/
structure PrintedTexts (info : InstructionInfo) : Prop where
  operands : strstr info.insnCopy.opStr "w".toList = true ↔
    ∃ reg ∈ dataRegisters info ++ addressRegisters info, isWordName reg = true
  mnemonic : info.insnCopy.id ∈ [.ldr, .ldur, .ldar, .ldapr, .ldapur] →
    strstr info.insnCopy.mnemonic "ldrsw".toList = false ∧
      strstr info.insnCopy.mnemonic "ldursw".toList = false

/-- The texts make the inference choose a word. -/
def textIsWord (info : InstructionInfo) : Bool :=
  match info.insnCopy.id with
  | .ldr | .ldur | .ldar | .ldapr | .ldapur =>
      strstr info.insnCopy.opStr "w".toList ||
        strstr info.insnCopy.mnemonic "ldrsw".toList ||
        strstr info.insnCopy.mnemonic "ldursw".toList
  | _ => strstr info.insnCopy.opStr "w".toList

/-- The address has a 32-bit register. -/
def WordAddress (info : InstructionInfo) : Prop :=
  ∃ reg ∈ addressRegisters info, isWordName reg = true

/-- The width of a data register is the one the texts stand for. -/
def WidthMatchesText (info : InstructionInfo) (reg : Arm64Reg) : Prop :=
  dataWidth reg = some 4 ∧ textIsWord info = true ∨
    dataWidth reg = some 8 ∧ textIsWord info = false

/-- The same by registers: a word register prints the letter itself, for the
others it comes from the address. -/
def WidthMatchesAddress (info : InstructionInfo) : Arm64Reg → Prop
  | .w _ | .wzr => True
  | .x _ | .fp | .lr | .xzr | .d _ => ¬ WordAddress info
  | .s _ => WordAddress info
  | _ => False

/-- The instructions whose inferred size is right, where `widthMatches` says so of
the data register of a plain load or store. -/
def SizeIsRight (info : InstructionInfo) (widthMatches : Arm64Reg → Prop) : Prop :=
  match info.insnCopy.id with
  -- not listed, so the default
  | .ldrsb | .ldursb | .ldapursb | .ldapursh => False
  -- the zero register has no known class
  | .stp | .stnp | .ldp | .ldnp => ∃ reg ∈ dataRegisters info, reg ≠ .wzr
  | .str | .stur | .stlr | .ldr | .ldur | .ldar | .ldapr | .ldapur =>
      ∀ reg ∈ dataRegisters info, widthMatches reg
  | _ => True

/-! ## Pairs -/

theorem findSome_dataRegisters (info : InstructionInfo) :
    info.operands.findSome? pairOperandSize =
      (dataRegisters info).findSome? pairRegisterSize := by
  unfold dataRegisters
  generalize info.operands = ops
  induction ops with
  | nil => rfl
  | cons op rest ih =>
      cases hvalue : op.value with
      | reg reg =>
          simp only [List.findSome?_cons, pairOperandSize, hvalue, ih, List.filterMap_cons]
      | _ => simp [pairOperandSize, hvalue, ih]

theorem dataWidth_of_pairRegisterSize {reg : Arm64Reg} {size : Nat}
    (hsize : pairRegisterSize reg = some size) : dataWidth reg = some size := by
  cases reg <;> cases hsize <;> rfl

theorem dataWidth_of_pairRegisterSize_eq_none {reg : Arm64Reg} {size : Nat}
    (hnone : pairRegisterSize reg = none) (hwidth : dataWidth reg = some size) :
    reg = .wzr ∧ size = 4 ∨ reg ≠ .wzr ∧ size = 8 := by
  cases reg with
  | wzr =>
      cases hwidth
      exact Or.inl ⟨rfl, rfl⟩
  | x _ | xzr | fp | lr =>
      cases hwidth
      exact Or.inr ⟨by simp, rfl⟩
  | q _ | d _ | s _ | h _ | b _ | w _ => cases hnone
  | _ => cases hwidth

/-- Among registers of one width the search misses the zero register only. -/
theorem pairSize_eq_iff {data : List Arm64Reg} {size : Nat} (hdata : data ≠ [])
    (hwidth : ∀ reg ∈ data, dataWidth reg = some size) :
    (data.findSome? pairRegisterSize).getD 8 = size ↔ ∃ reg ∈ data, reg ≠ .wzr := by
  cases hfind : data.findSome? pairRegisterSize with
  | some found =>
      obtain ⟨reg, hreg, hsize⟩ := List.exists_of_findSome?_eq_some hfind
      have hfound := dataWidth_of_pairRegisterSize hsize
      rw [hwidth reg hreg] at hfound
      have hne : reg ≠ .wzr := by
        rintro rfl
        cases hsize
      simp only [Option.getD_some, Option.some.inj hfound, true_iff]
      exact ⟨reg, hreg, hne⟩
  | none =>
      have hnone := List.findSome?_eq_none_iff.mp hfind
      have hcase (reg : Arm64Reg) (hreg : reg ∈ data) :=
        dataWidth_of_pairRegisterSize_eq_none (hnone reg hreg) (hwidth reg hreg)
      constructor
      · intro height
        obtain ⟨reg, hreg⟩ := List.exists_mem_of_ne_nil data hdata
        refine ⟨reg, hreg, ?_⟩
        rcases hcase reg hreg with ⟨_, hfour⟩ | ⟨hne, _⟩
        · simp only [Option.getD_none] at height
          omega
        · exact hne
      · rintro ⟨reg, hreg, hne⟩
        rcases hcase reg hreg with ⟨hwzr, _⟩ | ⟨_, height⟩
        · exact absurd hwzr hne
        · exact height.symm

/-! ## Plain loads and stores -/

theorem textIsWord_iff (hprinted : PrintedTexts info) :
    textIsWord info = true ↔
      (∃ reg ∈ dataRegisters info, isWordName reg = true) ∨ WordAddress info := by
  have htext : textIsWord info = strstr info.insnCopy.opStr "w".toList := by
    have hmnemonic := hprinted.mnemonic
    unfold textIsWord
    cases hid : info.insnCopy.id with
    | ldr | ldur | ldar | ldapr | ldapur =>
        rw [hid] at hmnemonic
        obtain ⟨hsigned, hunscaled⟩ := hmnemonic (by decide)
        simp only [hsigned, hunscaled, Bool.or_false]
    | _ => rfl
  rw [htext, hprinted.operands, WordAddress]
  simp only [List.mem_append, or_and_right, exists_or]

/-- For a single data register the texts and the registers say the same. -/
theorem widthMatches_iff {data : Arm64Reg} {size : Nat} (hprinted : PrintedTexts info)
    (hdata : dataRegisters info = [data]) (hwidth : dataWidth data = some size) :
    WidthMatchesText info data ↔ WidthMatchesAddress info data := by
  have hword := textIsWord_iff hprinted
  simp only [hdata, List.mem_singleton, exists_eq_left] at hword
  have hsome : (dataWidth data).isSome = true := by rw [hwidth, Option.isSome_some]
  unfold WidthMatchesText
  rw [← Bool.not_eq_true, hword]
  cases data <;> simp [dataWidth, isWordName, WidthMatchesAddress] at hsome ⊢

theorem textSize_eq_iff {data : Arm64Reg} {size : Nat} (hdata : dataRegisters info = [data])
    (hwidth : dataWidth data = some size) :
    (if textIsWord info = true then 4 else 8) = size ↔
      ∀ reg ∈ dataRegisters info, WidthMatchesText info reg := by
  simp only [hdata, List.mem_singleton, forall_eq, WidthMatchesText, hwidth, Option.some.injEq]
  cases textIsWord info <;> simp [eq_comm]

/-! ## The inferred size -/

theorem Transfers.exists_data {size : Nat} (htransfer : Transfers info size) :
    ∃ reg, reg ∈ dataRegisters info := by
  apply List.exists_mem_of_length_pos
  by_cases hpair : IsSizedPair info.insnCopy.id
  · rw [htransfer.count_pair hpair]
    decide
  · rw [htransfer.count_single hpair]
    decide

theorem Transfers.single {size : Nat} (htransfer : Transfers info size)
    (hpair : ¬ IsSizedPair info.insnCopy.id) :
    ∃ data, dataRegisters info = [data] ∧ transferBytes info.insnCopy.id data = some size := by
  obtain ⟨data, hdata⟩ := List.length_eq_one_iff.mp (htransfer.count_single hpair)
  exact ⟨data, hdata, htransfer.bytes data (by rw [hdata]; exact List.mem_singleton_self data)⟩

theorem getMemoryAccessSize_eq_iff_text {size : Nat} (htransfer : Transfers info size) :
    getMemoryAccessSize info = size ↔ SizeIsRight info (WidthMatchesText info) := by
  obtain ⟨reg, hreg⟩ := htransfer.exists_data
  have hbytes := htransfer.bytes
  have hsingle := htransfer.single
  unfold SizeIsRight
  cases hid : info.insnCopy.id with
  | stp | stnp | ldp | ldnp =>
      simp only [hid, transferBytes] at hbytes
      rw [getMemoryAccessSize_pair (by simp [IsSizedPair, hid]), getStpLdpAccessSize,
        findSome_dataRegisters]
      exact pairSize_eq_iff (List.ne_nil_of_mem hreg) hbytes
  | str | stur | stlr | ldr | ldur | ldar | ldapr | ldapur =>
      obtain ⟨data, hdata, hsize⟩ := hsingle (by simp [IsSizedPair, hid])
      simp only [hid, transferBytes] at hsize
      simp only [getMemoryAccessSize, hid]
      rw [← textSize_eq_iff hdata hsize]
      simp only [textIsWord, hid]
  | _ =>
      have hsize := hbytes reg hreg
      simp only [hid, transferBytes] at hsize
      cases hsize
      try simp [getMemoryAccessSize, hid, isMemoryAccessInstruction]

/-- The inferred size of a load or store is what it transfers for each data
register except on the signed byte loads, on `LDAPURSH`, on pairs of zero
registers, and where the operand text of a plain load or store has the letter
of a word for a register of another width. -/
theorem getMemoryAccessSize_eq_iff {size : Nat} (htransfer : Transfers info size) :
    (getMemoryAccessSize info = size ↔ SizeIsRight info (WidthMatchesText info)) ∧
      (PrintedTexts info →
        (getMemoryAccessSize info = size ↔ SizeIsRight info (WidthMatchesAddress info))) := by
  have htext := getMemoryAccessSize_eq_iff_text htransfer
  refine ⟨htext, ?_⟩
  intro hprinted
  rw [htext]
  have hsingle := htransfer.single
  unfold SizeIsRight
  cases hid : info.insnCopy.id with
  | str | stur | stlr | ldr | ldur | ldar | ldapr | ldapur =>
      obtain ⟨data, hdata, hsize⟩ := hsingle (by simp [IsSizedPair, hid])
      simp only [hid, transferBytes] at hsize
      simp only [hdata, List.mem_singleton, forall_eq]
      exact widthMatches_iff hprinted hdata hsize
  | _ => rfl

/-- `ldr x0, [x1, w2, uxtw]` -/
def loadWordIndexed : InstructionInfo :=
  ⟨.ofOperands .ldr 0x1000 "ldr".toList "x0, [x1, w2, uxtw]".toList
    [.plain (.reg (.x 0)) ⟨false, true⟩, .plain (.mem ⟨.x 1, .w 2, 0⟩) ⟨true, false⟩]⟩

theorem loadWordIndexed_transfers : Transfers loadWordIndexed 8 where
  count_single _ := rfl
  count_pair hpair := by rcases hpair with hid | hid | hid | hid <;> cases hid
  bytes := by decide

theorem loadWordIndexed_printed : PrintedTexts loadWordIndexed where
  operands := by decide
  mnemonic := by decide

/-- Eight bytes are loaded at the address, four are inferred. -/
theorem loadWordIndexed_size :
    ¬ ∀ (info : InstructionInfo) (size : Nat), Transfers info size → PrintedTexts info →
      getMemoryAccessSize info = size := by
  intro hclaim
  have height := hclaim loadWordIndexed 8 loadWordIndexed_transfers loadWordIndexed_printed
  have hfour : getMemoryAccessSize loadWordIndexed = 4 := by decide
  omega

/-- `ldr s0, [x1, w2, uxtw]`: the letter of the index makes the size right. -/
def loadSingleIndexed : InstructionInfo :=
  ⟨.ofOperands .ldr 0x1000 "ldr".toList "s0, [x1, w2, uxtw]".toList
    [.plain (.reg (.s 0)) ⟨false, true⟩, .plain (.mem ⟨.x 1, .w 2, 0⟩) ⟨true, false⟩]⟩

theorem loadSingleIndexed_size :
    getMemoryAccessSize loadSingleIndexed = 4 ∧
      WordAddress loadSingleIndexed ∧ textIsWord loadSingleIndexed = true := by
  have htransfer : Transfers loadSingleIndexed 4 :=
    { count_single := fun _ => rfl
      count_pair := by rintro (hid | hid | hid | hid) <;> cases hid
      bytes := by decide }
  have hprinted : PrintedTexts loadSingleIndexed := ⟨by decide, by decide⟩
  have hword : WordAddress loadSingleIndexed := ⟨.w 2, by decide, rfl⟩
  obtain ⟨htext, haddress⟩ := getMemoryAccessSize_eq_iff htransfer
  have hsize : getMemoryAccessSize loadSingleIndexed = 4 := by
    refine (haddress hprinted).mpr fun reg hreg => ?_
    obtain rfl := List.mem_singleton.mp hreg
    exact hword
  refine ⟨hsize, hword, ?_⟩
  rcases htext.mp hsize (.s 0) List.mem_cons_self with ⟨_, hletter⟩ | ⟨hwide, _⟩
  · exact hletter
  · exact absurd hwide (by decide)

end GumTVM
