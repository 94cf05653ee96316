import GumTVM.Tracer.Access

/-!
# The instruction callback

One callback prints the registers written by the previously traced instruction,
the current instruction with the values it reads, its memory accesses and the
function it calls. Each string stream of the source is one text of the record.
Sizes are printed in hexadecimal, since the base of a stream is sticky.
-/

namespace GumTVM

open Foundation

/-! ## Results of the previous traced instruction -/

/-- The written registers whose value can be read, with that value. -/
def postResults (self : InstructionTracerManager) (ctx : GumCpuContext) :
    List (Arm64Reg × BitVec 64) :=
  self.writeRegList.filterMap fun reg => (getRegisterValue reg ctx).map fun value => (reg, value)

def postInfo (cs : Capstone) (results : List (Arm64Reg × BitVec 64)) : Text :=
  results.flatMap fun (reg, value) =>
    cs.regName reg ++ "=0x".toList ++ hex value.toNat ++ [' ']

def dumpRegInfo (cs : Capstone) (proc : Process) (results : List (Arm64Reg × BitVec 64)) : Text :=
  results.flatMap fun (reg, value) => dumpRegValue proc value (cs.regName reg) 32

/-! ## Disassembly -/

/-- The base chosen for the printed offset. The scan over the other modules
keeps the last match. -/
def currentInsBase (self : InstructionTracerManager) (pc : BitVec 64) : BitVec 64 :=
  if self.isAddressInModuleRange pc then self.moduleRange.base
  else
    self.otherRanges.foldl
      (fun base range => if pc > range.1 ∧ pc < range.2 then range.1 else base)
      self.moduleRange.base

def isBranch (insn : CsInsn) : Bool :=
  csInsnGroup insn .jump || csInsnGroup insn .call || csInsnGroup insn .ret

def disasmInfo (self : InstructionTracerManager) (ctx : GumCpuContext) (info : InstructionInfo) :
    Text :=
  let base := currentInsBase self ctx.pc
  let text := info.insnCopy.mnemonic ++ ['\t'] ++ info.insnCopy.opStr
  (if self.isAddressInModuleRange ctx.pc then
    "0x".toList ++ (hex (ctx.pc - base).toNat).rightpad 8 ' ' ++ "   ".toList ++ text
  else
    "0x".toList ++ (hex ctx.pc.toNat).rightpad 8 ' ' ++ "(".toList ++ hex (ctx.pc - base).toNat ++
      ")    ".toList ++ text) ++
  (if isBranch info.insnCopy then
    match info.operand0 with
    | .imm imm => "(0x".toList ++ hex (imm - base).toNat ++ ")".toList
    | _ => []
  else [])

/-! ## Operands -/

/-- A call of `safeReadMemory` whose destination is a local 64-bit variable. -/
structure ReadCall where
  address : BitVec 64
  length : Nat
deriving DecidableEq

/-- The little-endian 64-bit value whose first bytes were read; bytes past the
eighth lie outside the variable. -/
def loadValue (bytes : List Byte) : BitVec 64 :=
  BitVec.ofNat 64 ((bytes.take 8).foldr (fun byte acc => byte.toNat + 256 * acc) 0)

/-- What the operand loop accumulates. -/
structure OperandState where
  preInfo : Text
  memoryAccessInfo : Text
  writeRegList : List Arm64Reg
  reads : List ReadCall

def registerText (name : Text) (value : BitVec 64) : Text :=
  name ++ " = 0x".toList ++ hex value.toNat ++ ", ".toList

def readRegisterInfo (cs : Capstone) (ctx : GumCpuContext) (op : CsArm64Op) : Text :=
  match op.value with
  | .reg reg =>
      if op.access.read then
        match getRegisterValue reg ctx with
        | some value => registerText (cs.regName reg) value
        | none => []
      else []
  | _ => []

def writtenRegister (op : CsArm64Op) : Option Arm64Reg :=
  match op.value with
  | .reg reg => if op.access.write then some reg else none
  | _ => none

def addressRegisterInfo (address : MemoryAddressInfo) : Text :=
  (if address.hasBase then registerText address.baseName address.baseValue else []) ++
  (if address.hasIndex then registerText address.indexName address.indexValue else [])

def memEntry (kind : Text) (addr : BitVec 64) (size : Nat) (value : BitVec 64) : Text :=
  "mem[".toList ++ kind ++ "]:0x".toList ++ hex addr.toNat ++ " size:".toList ++ hex size ++
    " value:0x".toList ++ hex value.toNat

def isPairInstruction (info : InstructionInfo) : Bool :=
  info.insnCopy.id = .stp || info.insnCopy.id = .ldp

/-- The entries of a memory operand that is written, if any is printed. -/
def memoryWriteInfo (info : InstructionInfo) (ctx : GumCpuContext) (addr : BitVec 64) :
    Option Text :=
  let accessSize := getMemoryAccessSize info
  match isPairInstruction info, getStoreRegisterValues info ctx with
  | true, first :: second :: _ =>
      some (memEntry ['w'] addr accessSize first ++ ", ".toList ++
        memEntry ['w'] (addr + BitVec.ofNat 64 accessSize) accessSize second)
  | true, _ => none
  | false, first :: _ => some (memEntry ['w'] addr accessSize first)
  | false, [] => none

/-- The entries of a memory operand that is read, with the calls made. Both
reads of a pair are from the computed address. -/
def memoryReadInfo (proc : Process) (info : InstructionInfo) (addr : BitVec 64) :
    Option Text × List ReadCall :=
  let accessSize := getMemoryAccessSize info
  let call : ReadCall := ⟨addr, accessSize⟩
  match safeReadMemory proc addr accessSize with
  | none => (none, [call])
  | some bytes =>
      let entry := memEntry ['r'] addr accessSize (loadValue bytes)
      if isPairInstruction info then
        match safeReadMemory proc addr accessSize with
        | some bytes2 =>
            (some (entry ++ ", ".toList ++
              memEntry ['r'] (addr + BitVec.ofNat 64 accessSize) accessSize (loadValue bytes2)),
              [call, call])
        | none => (some entry, [call, call])
      else (some entry, [call])

/-- Entries are separated by a comma from those already printed. -/
def appendEntries (printed : Text) : Option Text → Text
  | none => printed
  | some entries => if printed = [] then entries else printed ++ ", ".toList ++ entries

/-- The memory part of one iteration of the operand loop. -/
def memoryStep (cs : Capstone) (proc : Process) (ctx : GumCpuContext) (info : InstructionInfo)
    (state : OperandState) (op : CsArm64Op) : OperandState :=
  match op.value with
  | .mem mem =>
      match getMemoryAddressInfo cs mem ctx with
      | none => state
      | some address =>
          let state := { state with preInfo := state.preInfo ++ addressRegisterInfo address }
          if op.access.write then
            { state with
              memoryAccessInfo := appendEntries state.memoryAccessInfo
                (memoryWriteInfo info ctx address.addr) }
          else if op.access.read then
            let (entries, calls) := memoryReadInfo proc info address.addr
            { state with
              memoryAccessInfo := appendEntries state.memoryAccessInfo entries
              reads := state.reads ++ calls }
          else state
  | _ => state

/-- One iteration of the operand loop. -/
def operandStep (cs : Capstone) (proc : Process) (ctx : GumCpuContext) (info : InstructionInfo)
    (state : OperandState) (op : CsArm64Op) : OperandState :=
  memoryStep cs proc ctx info
    { state with
      preInfo := state.preInfo ++ readRegisterInfo cs ctx op
      writeRegList := state.writeRegList ++ (writtenRegister op).toList }
    op

/-! ## Calls -/

/-- The branch target looked up in `jmp_addr`, zero when there is none; a `BR`
that follows a jump into the PLT consumes the flag. -/
def jmpAddr (self : InstructionTracerManager) (ctx : GumCpuContext) (info : InstructionInfo) :
    InstructionTracerManager × BitVec 64 :=
  match info.insnCopy.id, info.operand0 with
  | .bl, .imm imm => (self, imm)
  | .blr, .reg reg => (self, (getRegisterValue reg ctx).getD 0)
  | .br, .reg reg =>
      if self.isPltJmp then
        ({ self with isPltJmp := false }, (getRegisterValue reg ctx).getD 0)
      -- a switch jump
      else (self, 0)
  | _, _ => (self, 0)

def inPltRange (self : InstructionTracerManager) (addr : BitVec 64) : Bool :=
  addr - self.moduleRange.base ≤ self.pltRange.2 && addr - self.moduleRange.base ≥ self.pltRange.1

/-- `strrchr(path, '/') + 1`; without a slash the pointer is not valid. -/
def afterLastSlash (path : Text) : Option Text :=
  if '/' ∈ path then some (path.reverse.takeWhile (· ≠ '/')).reverse else none

def symName (proc : Process) (addr : BitVec 64) (xdlInfo : XdlInfo) : Text :=
  match xdlInfo.dliSname with
  | some name => name
  | none => proc.staleText ("sub_".toList ++ hex (addr - xdlInfo.dliFbase).toNat)

def callLine (addr : BitVec 64) (soName symName : Text) : Text :=
  "call addr: ".toList ++ hex addr.toNat ++ " [".toList ++ soName ++ "!".toList ++ symName ++
    "]".toList

/-- The call line of a target outside the PLT; `none` when printing the module
name dereferences an invalid pointer. -/
def callInfo (proc : Process) (addr : BitVec 64) : Option Text :=
  match proc.xdlAddr addr with
  | none => some []
  | some xdlInfo =>
      (afterLastSlash xdlInfo.dliFname).map fun soName =>
        callLine addr soName (symName proc addr xdlInfo)

/-- The branch part of the callback: the flag afterwards and the call line. -/
def callStep (proc : Process) (self : InstructionTracerManager) (ctx : GumCpuContext)
    (info : InstructionInfo) : Option (InstructionTracerManager × Text) :=
  let (self, addr) := jmpAddr self ctx info
  if addr = 0 then some (self, [])
  -- left to the branch of the stub
  else if inPltRange self addr then some ({ self with isPltJmp := true }, [])
  else (callInfo proc addr).map fun text => (self, text)

/-! ## The callback -/

/-- The string streams a callback fills. -/
structure TraceRecord where
  postInfo : Text
  dumpRegInfo : Text
  disasmInfo : Text
  preInfo : Text
  callInfo : Text
  memoryAccessInfo : Text

/-- The text passed to `write_info`. -/
def TraceRecord.outInfo (record : TraceRecord) : Text :=
  (if record.postInfo = [] then []
    else "\t w[".toList ++ record.postInfo ++ "]".toList ++ ['\n'] ++ record.dumpRegInfo) ++
  record.disasmInfo ++ "   ;".toList ++ record.preInfo ++ ['\n'] ++
  (if record.callInfo = [] then [] else record.callInfo ++ ['\n']) ++
  (if record.memoryAccessInfo = [] then []
    else "   ".toList ++ record.memoryAccessInfo ++ ['\n'])

structure CallbackResult where
  self : InstructionTracerManager
  record : TraceRecord
  reads : List ReadCall

def operandLoop (cs : Capstone) (proc : Process) (ctx : GumCpuContext) (info : InstructionInfo) :
    OperandState :=
  info.operands.foldl (operandStep cs proc ctx info)
    { preInfo := [], memoryAccessInfo := [], writeRegList := [], reads := [] }

/-- `instruction_callback`; `none` when it dereferences an invalid pointer. The
written registers are consumed before the operand loop refills the list. -/
def instructionCallback (cs : Capstone) (proc : Process) (self : InstructionTracerManager)
    (ctx : GumCpuContext) (info : InstructionInfo) : Option CallbackResult :=
  let results := postResults self ctx
  let operands := operandLoop cs proc ctx info
  -- the results came from the old list, which the loop has replaced
  let self := { self with writeRegList := operands.writeRegList }
  (callStep proc self ctx info).map fun (next, callText) =>
    { self := next
      record :=
        { postInfo := postInfo cs results
          dumpRegInfo := dumpRegInfo cs proc results
          disasmInfo := disasmInfo self ctx info
          preInfo := operands.preInfo
          callInfo := callText
          memoryAccessInfo := operands.memoryAccessInfo }
      reads := operands.reads }

end GumTVM
