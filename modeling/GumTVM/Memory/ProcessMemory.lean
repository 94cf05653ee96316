import GumTVM.Foundation.ByteMemory
import GumTVM.Tracer.Callback

/-!
# The memory behind `process_vm_readv`

The system call transfers a prefix of what was asked for, as far as the bytes
can be read, and all of it when every byte can be. A read the tracer accepts is
therefore a load from that memory.
-/

namespace GumTVM

open Foundation

/-- Memory of the traced process. -/
abbrev Memory := ByteMemory 64

/-- `process_vm_readv` as documented: the bytes it transfers are those of the
memory, from the first on, and none is missing if all can be read. -/
structure Process.ReadsFrom (proc : Process) (memory : Memory) : Prop where
  transferred : ∀ address count, (proc.processVmReadv address count).length ≤ count ∧
    memory.load address (proc.processVmReadv address count).length =
      some (proc.processVmReadv address count)
  complete : ∀ address count bytes, memory.load address count = some bytes →
    proc.processVmReadv address count = bytes

theorem safeReadMemory_eq_load {proc : Process} {memory : Memory} (hproc : proc.ReadsFrom memory)
    (address : BitVec 64) (count : Nat) :
    safeReadMemory proc address count = memory.load address count := by
  obtain ⟨_, hprefix⟩ := hproc.transferred address count
  unfold safeReadMemory
  dsimp only
  split
  next hlength => rw [← hprefix, hlength]
  next hlength =>
    cases hload : memory.load address count with
    | none => rfl
    | some bytes =>
        rw [hproc.complete address count bytes hload] at hlength
        exact absurd (ByteMemory.load_length hload) hlength

/-- A value read into a variable that has room for it is the little-endian one. -/
theorem loadValue_toNat {bytes : List Byte} (hlength : bytes.length ≤ 8) :
    (loadValue bytes).toNat = littleEndian bytes := by
  have hlt := littleEndian_lt bytes
  have hpow : 256 ^ bytes.length ≤ 2 ^ 64 := Nat.pow_le_pow_right (by omega) hlength
  unfold loadValue
  rw [List.take_of_length_le hlength, ← littleEndian_eq_foldr, BitVec.toNat_ofNat]
  exact Nat.mod_eq_of_lt (Nat.lt_of_lt_of_le hlt hpow)

/-- The process over a memory whose reads stop at the first unreadable byte. -/
def Process.ofMemory (memory : Memory) : Process :=
  { Process.empty with processVmReadv := memory.readable }

theorem Process.ofMemory_readsFrom (memory : Memory) : (ofMemory memory).ReadsFrom memory where
  transferred address count :=
    ⟨memory.readable_length_le address count, memory.load_readable address count⟩
  complete _ _ _ hload := ByteMemory.readable_of_load hload

end GumTVM
