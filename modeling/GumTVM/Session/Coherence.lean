import GumTVM.Session.Replay

/-!
# Reads in the trace file

The process memory that callouts read is the one the instructions before them
left. The values on the memory lines of a trace file are then those that replaying
the lines before gives, but for pair loads, of which the first value is repeated.
-/

namespace GumTVM

open Foundation

variable {cs : Capstone}

/-! ## Coherent accesses -/

/-- A memory holds the value shown by an access. -/
def MemoryAccess.Shown (memory : Memory) (access : MemoryAccess) : Prop :=
  (memory.load access.addr access.size).map littleEndian = some access.value.toNat

instance (memory : Memory) (access : MemoryAccess) : Decidable (access.Shown memory) :=
  inferInstanceAs (Decidable (_ = _))

/-- Every read shows what the start memory and the writes before it left. -/
def Coherent : Memory → List MemoryAccess → Prop
  | _, [] => True
  | memory, access :: rest =>
      (access.kind = .read → access.Shown memory) ∧ Coherent (applyAccess memory access) rest

theorem coherent_append {memory : Memory} {first second : List MemoryAccess} :
    Coherent memory (first ++ second) ↔
      Coherent memory first ∧ Coherent (applyAccesses memory first) second := by
  induction first generalizing memory with
  | nil => exact (and_iff_right trivial).symm
  | cons access rest ih =>
      have hhere : applyAccesses memory (access :: rest) =
          applyAccesses (applyAccess memory access) rest := rfl
      rw [List.cons_append, Coherent, Coherent, ih, hhere, and_assoc]

theorem coherent_of_writes {memory : Memory} {accesses : List MemoryAccess}
    (hwrites : ∀ access ∈ accesses, access.kind = .write) : Coherent memory accesses := by
  induction accesses generalizing memory with
  | nil => trivial
  | cons access rest ih =>
      refine ⟨?_, ih fun other hother => hwrites other (List.mem_cons_of_mem _ hother)⟩
      intro hread
      rw [hwrites access List.mem_cons_self] at hread
      cases hread

theorem coherent_reads_iff {memory : Memory} {accesses : List MemoryAccess}
    (hreads : ∀ access ∈ accesses, access.kind = .read) :
    Coherent memory accesses ↔ ∀ access ∈ accesses, access.Shown memory := by
  induction accesses with
  | nil => simp [Coherent]
  | cons access rest ih =>
      have hread := hreads access List.mem_cons_self
      have hsame : applyAccess memory access = memory := by
        unfold applyAccess
        rw [hread]
      rw [Coherent, hsame, ih fun other hother => hreads other (List.mem_cons_of_mem _ hother),
        List.forall_mem_cons]
      exact and_congr_left fun _ => forall_prop_of_true hread

/-! ## The reads of a callout -/

/-- The second of two locations that are read in turn holds what the first does,
if that can be read. -/
def SecondAgrees (memory : Memory) (addr : BitVec 64) (size : Nat) : Prop :=
  memory.load addr size = none ∨
    memory.load (addr + BitVec.ofNat 64 size) size = memory.load addr size

/-- The locations of a pair instruction agree on every operand it only reads. -/
def PairsAgree (cs : Capstone) (input : CallbackInput) (memory : Memory) : Prop :=
  isPairInstruction input.info = true → ∀ op ∈ memoryOperands input.info,
    op.access.write = false → op.access.read = true → ∀ mem, op.value = .mem mem →
      ∀ address, getMemoryAddressInfo cs mem input.ctx = some address →
        SecondAgrees memory address.addr (getMemoryAccessSize input.info)

theorem shown_loadValue_iff {memory : Memory} {kind : AccessKind} {addr : BitVec 64} {size : Nat}
    {bytes : List Byte} (hlength : bytes.length = size) (hsize : size ≤ 8) :
    (MemoryAccess.mk kind addr size (loadValue bytes)).Shown memory ↔
      memory.load addr size = some bytes := by
  unfold MemoryAccess.Shown
  dsimp only
  rw [loadValue_toNat (hlength ▸ hsize)]
  constructor
  · intro hmap
    obtain ⟨found, hload, heq⟩ := Option.map_eq_some_iff.mp hmap
    rw [hload, littleEndian_inj ((ByteMemory.load_length hload).trans hlength.symm) heq]
  · intro hload
    rw [hload, Option.map_some]

theorem loadAccesses_shown_iff {proc : Process} {memory : Memory} {info : InstructionInfo}
    {addr : BitVec 64} (hproc : proc.ReadsFrom memory) (hsize : getMemoryAccessSize info ≤ 8) :
    (∀ access ∈ loadAccesses proc info addr, access.Shown memory) ↔
      (isPairInstruction info = true → SecondAgrees memory addr (getMemoryAccessSize info)) := by
  unfold loadAccesses SecondAgrees
  dsimp only
  rw [safeReadMemory_eq_load hproc]
  cases hload : memory.load addr (getMemoryAccessSize info) with
  | none => simp
  | some bytes =>
      have hlength := ByteMemory.load_length hload
      dsimp only
      rw [List.forall_mem_cons, shown_loadValue_iff hlength hsize, and_iff_right hload]
      by_cases hpair : isPairInstruction info = true
      · simp [hpair, shown_loadValue_iff hlength hsize]
      · simp [hpair]

theorem operandAccesses_shown_iff {proc : Process} {ctx : GumCpuContext} {memory : Memory}
    {info : InstructionInfo} {op : CsArm64Op} (hproc : proc.ReadsFrom memory)
    (hsize : getMemoryAccessSize info ≤ 8) (hwrite : op.access.write = false) :
    (∀ access ∈ operandAccesses cs proc ctx info op, access.Shown memory) ↔
      (op.access.read = true → ∀ mem, op.value = .mem mem →
        ∀ address, getMemoryAddressInfo cs mem ctx = some address →
          isPairInstruction info = true →
            SecondAgrees memory address.addr (getMemoryAccessSize info)) := by
  unfold operandAccesses
  rw [hwrite]
  cases op.value with
  | mem mem =>
      cases haddress : getMemoryAddressInfo cs mem ctx with
      | none => simp [haddress]
      | some address =>
          by_cases hread : op.access.read = true
          · simp [haddress, hread, loadAccesses_shown_iff hproc hsize]
          · simp [haddress, hread]
  | _ => simp

/-- What a callout does to memory when it reads the memory that its instruction
finds. -/
structure ObservedStep (input : CallbackInput) (before after : Memory) : Prop where
  memory : MemoryStep input before after
  reads : input.proc.ReadsFrom before

theorem coherent_reported_iff {input : CallbackInput} {before after : Memory}
    (hsize : getMemoryAccessSize input.info ≤ 8)
    (hexact : input.info.insnCopy.id ∈ singleStores ++ pairStores → StoreTracedExactly input)
    (hstep : ObservedStep input before after) :
    Coherent before (reportedAccesses cs [input]) ↔ PairsAgree cs input before := by
  obtain ⟨hmemory, hreads⟩ := hstep
  cases hmemory with
  | @store op mem size hstore hop haddress hgeneral htransfers _ =>
      refine iff_of_true (coherent_of_writes ?_) ?_
      · rw [reportedAccesses_store (hexact hstore.family) hstore hop haddress hgeneral htransfers]
        intro access haccess
        obtain ⟨_, -, rfl⟩ := List.mem_map.mp haccess
        rfl
      · intro _ other hother hsilent
        obtain ⟨found, hfound, -, hwrite⟩ := hstore.operand
        rw [hfound] at hother
        rw [List.mem_singleton.mp hother, hwrite] at hsilent
        cases hsilent
  | silent hnone =>
      rw [coherent_reads_iff fun _ => reportedAccesses_read hnone, reportedAccesses_singleton]
      unfold PairsAgree
      constructor
      · intro hshown hpair op hop hwrite hread mem hvalue address haddress
        refine (operandAccesses_shown_iff hreads hsize hwrite).mp ?_ hread mem hvalue address
          haddress hpair
        exact fun access haccess => hshown access (List.mem_flatMap.mpr ⟨op, hop, haccess⟩)
      · intro hagree access haccess
        obtain ⟨op, hop, hmem⟩ := List.mem_flatMap.mp haccess
        refine (operandAccesses_shown_iff hreads hsize (hnone op hop)).mpr ?_ access hmem
        intro hread mem hvalue address haddress hpair
        exact hagree hpair op hop (hnone op hop) hread mem hvalue address haddress

theorem coherent_run_iff {inputs : List CallbackInput} {before after : Memory}
    (hsize : ∀ input ∈ inputs, getMemoryAccessSize input.info ≤ 8)
    (hexact : ∀ input ∈ inputs, input.info.insnCopy.id ∈ singleStores ++ pairStores →
      StoreTracedExactly input)
    (hrun : stepsAlong ObservedStep inputs before after) :
    Coherent before (reportedAccesses cs inputs) ↔
      stepsAlong (fun input state next => ObservedStep input state next ∧ PairsAgree cs input state)
        inputs before after := by
  induction inputs generalizing before with
  | nil => exact iff_of_true trivial hrun
  | cons input rest ih =>
      obtain ⟨middle, hstep, hrest⟩ := hrun
      have hhere := hexact input List.mem_cons_self
      have hlater := @ih middle (fun other hother => hsize other (List.mem_cons_of_mem _ hother))
        (fun other hother => hexact other (List.mem_cons_of_mem _ hother)) hrest
      have hcallout := @coherent_reported_iff cs _ _ _ (hsize input List.mem_cons_self) hhere hstep
      rw [reportedAccesses_cons, coherent_append, hcallout,
        applyAccesses_reported hhere hstep.memory, hlater]
      constructor
      · rintro ⟨hagree, hsteps⟩
        exact ⟨middle, ⟨hstep, hagree⟩, hsteps⟩
      · rintro ⟨other, ⟨hother, hagree⟩, hsteps⟩
        have hsame : other = middle := (applyAccesses_reported hhere hother.memory).symm.trans
          (@applyAccesses_reported cs _ _ _ hhere hstep.memory)
        exact ⟨hagree, hsame ▸ hsteps⟩

/-- If every store that is traced is traced exactly, the memory lines of the trace
file agree with each other exactly when all pair loads read two equal values. -/
theorem session_coherent (hnames : cs.WordNames) (files : Files) {call : GumTraceCall}
    (hcall : call.Succeeds) {events : List Event}
    (honce : ∀ event ∈ events, ∀ call, event ≠ .gumTrace call)
    (hclean : ∀ tid input, Event.callback tid input ∈ events → input.Clean) {last : System}
    {reports : List Report}
    (hrun : System.run cs (System.start files call) events = some (last, reports))
    (hsize : ∀ input ∈ calloutInputs events, getMemoryAccessSize input.info ≤ 8)
    (hexact : ∀ input ∈ calloutInputs events,
      input.info.insnCopy.id ∈ singleStores ++ pairStores → StoreTracedExactly input)
    {before after : Memory}
    (hmemory : stepsAlong ObservedStep (calloutInputs events) before after) :
    Coherent before (traceAccesses (last.world.files call.traceFile)) ↔
      stepsAlong (fun input state next => ObservedStep input state next ∧ PairsAgree cs input state)
        (calloutInputs events) before after := by
  rw [session_accesses hnames files hcall honce hclean hrun]
  exact coherent_run_iff hsize hexact hmemory

theorem storingSession_observed :
    stepsAlong ObservedStep (calloutInputs storingSession) (fun _ => none) storedByte :=
  ⟨storedByte, ⟨storeByteInput_step, Process.ofMemory_readsFrom _⟩,
    storedByte, ⟨loadByteInput_step, Process.ofMemory_readsFrom _⟩, rfl⟩

theorem session_coherent_stored :
    ∃ last reports,
      System.run .standard (System.start (fun _ => []) sampleCall) storingSession =
        some (last, reports) ∧
      Coherent (fun _ => none) (traceAccesses (last.world.files sampleCall.traceFile)) := by
  obtain ⟨last, reports, hrun⟩ : ∃ last reports,
      System.run .standard (System.start (fun _ => []) sampleCall) storingSession =
        some (last, reports) := ⟨_, _, rfl⟩
  have hcall : sampleCall.Succeeds := ⟨⟨_, rfl, by decide⟩, rfl, rfl⟩
  have hiff := session_coherent Capstone.standard_wordNames _ hcall storingSession_once
    (fun _ _ hmem => storingSession_clean hmem) hrun (by decide) storingSession_traced
    storingSession_observed
  obtain ⟨_, hstore, _, hload, hend⟩ := storingSession_observed
  exact ⟨last, reports, hrun, hiff.mpr ⟨_, ⟨hstore, fun hpair => absurd hpair (by decide)⟩,
    _, ⟨hload, fun hpair => absurd hpair (by decide)⟩, hend⟩⟩

end GumTVM
