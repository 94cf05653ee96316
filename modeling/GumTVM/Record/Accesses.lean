import GumTVM.Record.Grammar

/-!
# Memory accesses of a record

The last line of a record lists the memory accesses of its instruction. Each
entry is three fields closed by blanks, so the list is recovered from the text.
What a callback prints there is the concatenation over the operands.
-/

namespace GumTVM

open Foundation

inductive AccessKind where
  | read
  | write
deriving DecidableEq

def AccessKind.letter : AccessKind → Char
  | .read => 'r'
  | .write => 'w'

/-- One printed entry: an address, a size in bytes and a value. -/
structure MemoryAccess where
  kind : AccessKind
  addr : BitVec 64
  size : Nat
  value : BitVec 64
deriving DecidableEq

namespace MemoryAccess

def text (access : MemoryAccess) : Text :=
  memEntry [access.kind.letter] access.addr access.size access.value

/-- The fields of an entry with the comma after it. -/
def fields (access : MemoryAccess) : List Text :=
  ["mem[".toList ++ access.kind.letter :: ("]:0x".toList ++ hex access.addr.toNat),
    "size:".toList ++ hex access.size,
    "value:0x".toList ++ (hex access.value.toNat ++ [','])]

end MemoryAccess

/-- Entries separated by commas. -/
def accessesText : List MemoryAccess → Text
  | [] => []
  | [access] => access.text
  | access :: rest => access.text ++ ", ".toList ++ accessesText rest

def parseKind (field : Text) : Option AccessKind :=
  match field[4]? with
  | some 'r' => some .read
  | some 'w' => some .write
  | _ => none

def parseAccess (first second third : Text) : Option MemoryAccess :=
  (parseKind first).bind fun kind =>
    (readHex (first.drop 9)).bind fun addr =>
      (readHex (second.drop 5)).bind fun size =>
        (readHex ((third.drop 8).takeWhile isHexDigit)).map fun value =>
          ⟨kind, BitVec.ofNat 64 addr, size, BitVec.ofNat 64 value⟩

/-- Read fields three at a time. -/
def parseFields : List Text → List MemoryAccess
  | first :: second :: third :: rest =>
      (parseAccess first second third).toList ++ parseFields rest
  | _ => []

/-- The accesses listed in a text. -/
def parseAccesses (text : Text) : List MemoryAccess :=
  parseFields (splitTerminated ' ' (text ++ ", ".toList))

/-- The accesses a record reports. -/
def TraceRecord.accesses (record : TraceRecord) : List MemoryAccess :=
  parseAccesses record.memoryAccessInfo

/-! ## Reading the entries back -/

theorem parseKind_letter (kind : AccessKind) (rest : Text) :
    parseKind ("mem[".toList ++ kind.letter :: rest) = some kind := by
  cases kind <;> rfl

theorem parseAccess_fields (access : MemoryAccess) :
    parseAccess ("mem[".toList ++ access.kind.letter :: ("]:0x".toList ++ hex access.addr.toNat))
      ("size:".toList ++ hex access.size)
      ("value:0x".toList ++ (hex access.value.toNat ++ [','])) = some access := by
  have hvalue : (hex access.value.toNat ++ [',']).takeWhile isHexDigit =
      hex access.value.toNat := by
    rw [List.takeWhile_append_of_pos fun c hc => isHexDigit_of_mem_hex hc]
    exact List.append_nil _
  -- the digits start after a text of fixed length
  have haddr : ("mem[".toList ++ access.kind.letter ::
      ("]:0x".toList ++ hex access.addr.toNat)).drop 9 = hex access.addr.toNat := rfl
  have hsize : ("size:".toList ++ hex access.size).drop 5 = hex access.size := rfl
  have hdigits : ("value:0x".toList ++ (hex access.value.toNat ++ [','])).drop 8 =
      hex access.value.toNat ++ [','] := rfl
  rw [parseAccess, parseKind_letter, haddr, hsize, hdigits, hvalue]
  simp only [readHex_hex, Option.bind_some, Option.map_some, BitVec.ofNat_toNat,
    BitVec.setWidth_eq]

theorem parseFields_flatMap (accesses : List MemoryAccess) :
    parseFields (accesses.flatMap MemoryAccess.fields) = accesses := by
  induction accesses with
  | nil => rfl
  | cons access rest ih =>
      rw [List.flatMap_cons, MemoryAccess.fields]
      simp only [List.cons_append, List.nil_append, parseFields, parseAccess_fields, ih]
      rfl

theorem blank_not_mem_fields {access : MemoryAccess} :
    ∀ field ∈ access.fields, ' ' ∉ field := by
  have hhex (n : Nat) : ' ' ∉ hex n := not_mem_hex (by decide)
  have hletter : ' ' ≠ access.kind.letter := by cases access.kind <;> decide
  intro field hfield
  simp only [MemoryAccess.fields, List.mem_cons, List.not_mem_nil, or_false] at hfield
  rcases hfield with rfl | rfl | rfl <;> simp [hhex, hletter]

theorem terminated_fields (access : MemoryAccess) :
    terminated ' ' access.fields = access.text ++ ", ".toList := by
  have hsize : " size:".toList = ' ' :: "size:".toList := rfl
  have hvalue : " value:0x".toList = ' ' :: "value:0x".toList := rfl
  have hcomma : ", ".toList = [',', ' '] := rfl
  unfold MemoryAccess.fields MemoryAccess.text memEntry
  rw [hsize, hvalue, hcomma]
  simp only [terminated_cons, terminated_nil, List.append_assoc, List.cons_append,
    List.nil_append]

theorem accessesText_cons (access : MemoryAccess) {rest : List MemoryAccess} (hrest : rest ≠ []) :
    accessesText (access :: rest) = access.text ++ ", ".toList ++ accessesText rest := by
  obtain ⟨next, tail, rfl⟩ := List.exists_cons_of_ne_nil hrest
  rfl

theorem accessesText_terminated {accesses : List MemoryAccess} (hne : accesses ≠ []) :
    accessesText accesses ++ ", ".toList =
      terminated ' ' (accesses.flatMap MemoryAccess.fields) := by
  induction accesses with
  | nil => exact absurd rfl hne
  | cons access rest ih =>
      rw [List.flatMap_cons, terminated_append, terminated_fields]
      by_cases hrest : rest = []
      · subst hrest
        rw [accessesText, List.flatMap_nil, terminated_nil, List.append_nil]
      · rw [accessesText_cons access hrest, List.append_assoc, ih hrest]

/-- The list is recovered from its text. -/
theorem parseAccesses_accessesText (accesses : List MemoryAccess) :
    parseAccesses (accessesText accesses) = accesses := by
  by_cases hempty : accesses = []
  · subst hempty
    rfl
  · have hblank : ∀ field ∈ accesses.flatMap MemoryAccess.fields, ' ' ∉ field := by
      intro field hfield
      obtain ⟨access, _, hmem⟩ := List.mem_flatMap.mp hfield
      exact blank_not_mem_fields field hmem
    have hsplit := splitTerminated_terminated_append hblank List.not_mem_nil
    rw [parseAccesses, accessesText_terminated hempty, ← List.append_nil (terminated ' ' _),
      hsplit, parseFields_flatMap]

/-! ## What a callback prints -/

theorem MemoryAccess.text_ne_nil (access : MemoryAccess) : access.text ≠ [] := by
  have hletter : OneLine [access.kind.letter] := by cases access.kind <;> decide
  intro hnil
  have hstarts := (memEntry_entries hletter access.addr access.size access.value).starts
  rw [← MemoryAccess.text, hnil, List.prefix_nil] at hstarts
  exact absurd hstarts (by decide)

theorem accessesText_eq_nil_iff {accesses : List MemoryAccess} :
    accessesText accesses = [] ↔ accesses = [] := by
  cases accesses with
  | nil => simp [accessesText]
  | cons access rest =>
      have hne := access.text_ne_nil
      cases rest with
      | nil => simp [accessesText, hne]
      | cons next rest => simp [accessesText, hne]

theorem accessesText_append {first second : List MemoryAccess} (hfirst : first ≠ [])
    (hsecond : second ≠ []) :
    accessesText (first ++ second) =
      accessesText first ++ ", ".toList ++ accessesText second := by
  induction first with
  | nil => exact absurd rfl hfirst
  | cons access rest ih =>
      by_cases hrest : rest = []
      · subst hrest
        exact accessesText_cons access hsecond
      · have hne : rest ++ second ≠ [] := List.append_ne_nil_of_left_ne_nil hrest second
        rw [List.cons_append, accessesText_cons access hne, accessesText_cons access hrest,
          ih hrest]
        simp only [List.append_assoc]

/-- Nothing is appended to the stream for an empty list. -/
def printedAccesses (accesses : List MemoryAccess) : Option Text :=
  if accesses = [] then none else some (accessesText accesses)

theorem appendEntries_accessesText (first second : List MemoryAccess) :
    appendEntries (accessesText first) (printedAccesses second) =
      accessesText (first ++ second) := by
  unfold printedAccesses
  by_cases hsecond : second = []
  · simp [hsecond, appendEntries]
  · by_cases hfirst : first = []
    · simp [hfirst, hsecond, appendEntries, accessesText]
    · have hprinted : accessesText first ≠ [] := fun hnil =>
        hfirst (accessesText_eq_nil_iff.mp hnil)
      simp [hsecond, hprinted, appendEntries, accessesText_append hfirst hsecond]

/-- The entries of a memory operand that is written. -/
def storeAccesses (info : InstructionInfo) (ctx : GumCpuContext) (addr : BitVec 64) :
    List MemoryAccess :=
  let accessSize := getMemoryAccessSize info
  match isPairInstruction info, getStoreRegisterValues info ctx with
  | true, first :: second :: _ =>
      [⟨.write, addr, accessSize, first⟩,
        ⟨.write, addr + BitVec.ofNat 64 accessSize, accessSize, second⟩]
  | true, _ => []
  | false, first :: _ => [⟨.write, addr, accessSize, first⟩]
  | false, [] => []

/-- The entries of a memory operand that is read. -/
def loadAccesses (proc : Process) (info : InstructionInfo) (addr : BitVec 64) :
    List MemoryAccess :=
  let accessSize := getMemoryAccessSize info
  match safeReadMemory proc addr accessSize with
  | none => []
  | some bytes =>
      ⟨.read, addr, accessSize, loadValue bytes⟩ ::
        -- the second read repeats the first
        (if isPairInstruction info then
          [⟨.read, addr + BitVec.ofNat 64 accessSize, accessSize, loadValue bytes⟩] else [])

def operandAccesses (cs : Capstone) (proc : Process) (ctx : GumCpuContext)
    (info : InstructionInfo) (op : CsArm64Op) : List MemoryAccess :=
  match op.value with
  | .mem mem =>
      match getMemoryAddressInfo cs mem ctx with
      | none => []
      | some address =>
          if op.access.write then storeAccesses info ctx address.addr
          else if op.access.read then loadAccesses proc info address.addr
          else []
  | _ => []

variable {cs : Capstone} {proc : Process} {ctx : GumCpuContext} {info : InstructionInfo}

theorem memoryWriteInfo_eq (addr : BitVec 64) :
    memoryWriteInfo info ctx addr = printedAccesses (storeAccesses info ctx addr) := by
  unfold memoryWriteInfo storeAccesses
  cases isPairInstruction info with
  | true =>
      match getStoreRegisterValues info ctx with
      | [] => rfl
      | [_] => rfl
      | _ :: _ :: _ => rfl
  | false =>
      match getStoreRegisterValues info ctx with
      | [] => rfl
      | _ :: _ => rfl

theorem memoryReadInfo_eq (addr : BitVec 64) :
    (memoryReadInfo proc info addr).1 = printedAccesses (loadAccesses proc info addr) := by
  unfold memoryReadInfo loadAccesses
  dsimp only
  cases safeReadMemory proc addr (getMemoryAccessSize info) with
  | none => rfl
  | some bytes => cases isPairInstruction info <;> rfl

theorem memoryStep_accesses {state : OperandState} {printed : List MemoryAccess}
    (hstate : state.memoryAccessInfo = accessesText printed) (op : CsArm64Op) :
    (memoryStep cs proc ctx info state op).memoryAccessInfo =
      accessesText (printed ++ operandAccesses cs proc ctx info op) := by
  unfold memoryStep operandAccesses
  cases op.value with
  | mem mem =>
      dsimp only
      cases getMemoryAddressInfo cs mem ctx with
      | none => rw [List.append_nil, hstate]
      | some address =>
          dsimp only
          split
          · rw [memoryWriteInfo_eq, hstate, appendEntries_accessesText]
          · split
            · rw [memoryReadInfo_eq, hstate, appendEntries_accessesText]
            · rw [List.append_nil, hstate]
  | _ => rw [List.append_nil, hstate]

theorem operandLoop_memoryAccessInfo :
    (operandLoop cs proc ctx info).memoryAccessInfo =
      accessesText (info.operands.flatMap (operandAccesses cs proc ctx info)) := by
  have hfold (ops : List CsArm64Op) (state : OperandState) (printed : List MemoryAccess)
      (hstate : state.memoryAccessInfo = accessesText printed) :
      (ops.foldl (operandStep cs proc ctx info) state).memoryAccessInfo =
        accessesText (printed ++ ops.flatMap (operandAccesses cs proc ctx info)) := by
    induction ops generalizing state printed with
    | nil => rw [List.flatMap_nil, List.append_nil, List.foldl_nil, hstate]
    | cons op rest ih =>
        have hnext : (operandStep cs proc ctx info state op).memoryAccessInfo =
            accessesText (printed ++ operandAccesses cs proc ctx info op) :=
          memoryStep_accesses (by exact hstate) op
        rw [List.foldl_cons, ih _ _ hnext, List.flatMap_cons, List.append_assoc]
  exact hfold info.operands _ [] rfl

/-- The accesses of a record are those of the operands, in order. -/
theorem instructionCallback_accesses {self : InstructionTracerManager} {result : CallbackResult}
    (hcall : instructionCallback cs proc self ctx info = some result) :
    result.record.accesses = info.operands.flatMap (operandAccesses cs proc ctx info) := by
  obtain ⟨_, _, _, rfl⟩ := instructionCallback_eq_some.mp hcall
  unfold TraceRecord.accesses
  rw [operandLoop_memoryAccessInfo, parseAccesses_accessesText]

end GumTVM
