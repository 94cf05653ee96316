import GumTVM.Foundation.Bits
import GumTVM.Memory.ProcessMemory

/-!
# Dumps over a page map

Mapping and protection are the same for all addresses of a page. A dump needs
the page of the value mapped and the whole fixed-size read complete, whatever
number of bytes it is going to show.
-/

namespace GumTVM

open Foundation

/-- Pages of one size by their number: mapped or not, readable or not, with the
bytes they hold. -/
structure PageMap where
  pageBits : Nat
  pageBits_le : pageBits ≤ 62
  mapped : BitVec 64 → Bool
  readable : BitVec 64 → Bool
  readable_mapped : ∀ page, readable page = true → mapped page = true
  content : BitVec 64 → Byte

namespace PageMap

/-- The number of the page of an address. -/
def pageOf (pages : PageMap) (address : BitVec 64) : BitVec 64 := address >>> pages.pageBits

def pageSize (pages : PageMap) : BitVec 64 := BitVec.ofNat 64 (2 ^ pages.pageBits)

def memory (pages : PageMap) : Memory := fun address =>
  if pages.readable (pages.pageOf address) then some (pages.content address) else none

end PageMap

/-- The process has these pages: `mincore` on an aligned address succeeds exactly
if its page is mapped, and reads are from the readable bytes. -/
structure Process.Runs (proc : Process) (pages : PageMap) : Prop where
  pagesize : proc.pagesize = pages.pageSize
  mincore : ∀ address, pages.pageOf address <<< pages.pageBits = address →
    proc.mincore address pages.pageSize = pages.mapped (pages.pageOf address)
  reads : proc.ReadsFrom pages.memory

/-! ## The page test -/

/-- Clearing the bits below a page size leaves the first address of the page. -/
theorem and_not_pageSize (address : BitVec 64) {bits : Nat} (hbits : bits ≤ 62) :
    address &&& ~~~(BitVec.ofNat 64 (2 ^ bits) - 1) = (address >>> bits) <<< bits := by
  have hmask : BitVec.ofNat 64 (2 ^ bits) - 1 = BitVec.ofNat 64 (2 ^ bits - 1) := by
    have hpow : 2 ^ bits < 2 ^ 64 := Nat.pow_lt_pow_right (by omega) (by omega)
    have hpos := Nat.two_pow_pos bits
    bv_omega
  apply BitVec.eq_of_getLsbD_eq
  intro i hi
  rw [hmask]
  simp only [BitVec.getLsbD_and, BitVec.getLsbD_not, BitVec.getLsbD_ofNat,
    Nat.testBit_two_pow_sub_one, BitVec.getLsbD_shiftLeft, BitVec.getLsbD_ushiftRight]
  by_cases hlow : i < bits
  · simp [hi, hlow]
  · simp [hi, hlow, Nat.add_sub_cancel' (Nat.le_of_not_lt hlow)]

theorem shiftLeft_ushiftRight_self (address : BitVec 64) (bits : Nat) :
    ((address >>> bits) <<< bits) >>> bits = address >>> bits := by
  apply BitVec.eq_of_getLsbD_eq
  intro i hi
  simp only [BitVec.getLsbD_ushiftRight, BitVec.getLsbD_shiftLeft]
  by_cases hrange : bits + i < 64
  · simp [hrange]
  · simp [hrange, BitVec.getLsbD_of_ge _ _ (Nat.le_of_not_lt hrange)]

theorem Process.Runs.isValidAddress {proc : Process} {pages : PageMap} (hproc : proc.Runs pages)
    (address : BitVec 64) :
    isValidAddress proc address = pages.mapped (pages.pageOf address) := by
  have hbits := pages.pageBits_le
  have hpow : 2 ^ pages.pageBits ≤ 2 ^ 62 := Nat.pow_le_pow_right (by omega) hbits
  have hpos := Nat.two_pow_pos pages.pageBits
  have hpositive : ¬ pages.pageSize.toInt ≤ 0 := by
    have htoNat : pages.pageSize.toNat = 2 ^ pages.pageBits := by
      rw [PageMap.pageSize, BitVec.toNat_ofNat, Nat.mod_eq_of_lt (by omega)]
    rw [BitVec.toInt_eq_toNat_of_lt (by omega), htoNat]
    omega
  have hstart := and_not_pageSize address hbits
  have hpage : pages.pageOf (pages.pageOf address <<< pages.pageBits) = pages.pageOf address :=
    shiftLeft_ushiftRight_self address pages.pageBits
  have hmincore := hproc.mincore (pages.pageOf address <<< pages.pageBits) (by rw [hpage])
  unfold GumTVM.isValidAddress
  rw [hproc.pagesize, if_neg hpositive, PageMap.pageSize, hstart]
  rw [hpage] at hmincore
  exact hmincore

/-! ## When a dump is printed -/

theorem dumpRegValue_eq_nil_iff {proc : Process} {value : BitVec 64} {name : Text} {count : Nat} :
    dumpRegValue proc value name count = [] ↔
      isValidAddress proc value = false ∨ safeReadMemory proc value 0x800 = none := by
  unfold dumpRegValue
  cases isValidAddress proc value with
  | false => simp
  | true =>
      cases safeReadMemory proc value 0x800 with
      | none => simp
      | some bytes =>
          simp only [if_true, reduceCtorEq, Bool.true_eq_false, or_self, iff_false]
          split
          · simp
          · simp

/-- A value has a dump if its page is mapped and the bytes to show can be read,
and none if its page is not mapped. -/
structure DumpAppears (pages : PageMap) (value : BitVec 64) (count : Nat) (dump : Text) :
    Prop where
  shown : pages.mapped (pages.pageOf value) = true →
    (pages.memory.load value count).isSome → dump ≠ []
  hidden : pages.mapped (pages.pageOf value) = false → dump = []

/-- A dump appears wherever its bytes can be read exactly if these are never
readable without the `0x800` bytes of the fixed read. -/
theorem dump_appears_iff {proc : Process} {pages : PageMap} (hproc : proc.Runs pages)
    (value : BitVec 64) (name : Text) (count : Nat) :
    DumpAppears pages value count (dumpRegValue proc value name count) ↔
      (pages.mapped (pages.pageOf value) = true → (pages.memory.load value count).isSome →
        (pages.memory.load value 0x800).isSome) := by
  have hempty : dumpRegValue proc value name count = [] ↔
      pages.mapped (pages.pageOf value) = false ∨ pages.memory.load value 0x800 = none := by
    rw [dumpRegValue_eq_nil_iff, hproc.isValidAddress, safeReadMemory_eq_load hproc.reads]
  constructor
  · intro happears hmapped hshown
    rw [Option.isSome_iff_ne_none]
    intro hnone
    exact happears.shown hmapped hshown (hempty.mpr (Or.inr hnone))
  · intro hread
    refine ⟨?_, ?_⟩
    · intro hmapped hshown hnil
      have hsome := hread hmapped hshown
      rcases hempty.mp hnil with hunmapped | hnone
      · rw [hmapped] at hunmapped
        cases hunmapped
      · rw [hnone] at hsome
        cases hsome
    · intro hunmapped
      exact hempty.mpr (Or.inl hunmapped)

/-! ## A page at the end of a mapping -/

/-- The process over these pages. -/
def Process.ofPages (pages : PageMap) : Process :=
  { Process.ofMemory pages.memory with
    pagesize := pages.pageSize
    mincore := fun address _ => pages.mapped (pages.pageOf address) }

theorem Process.ofPages_runs (pages : PageMap) : (ofPages pages).Runs pages where
  pagesize := rfl
  mincore _ _ := rfl
  reads :=
    { transferred := (ofMemory_readsFrom pages.memory).transferred
      complete := (ofMemory_readsFrom pages.memory).complete }

/-- One page of 4096 bytes at `0x7000`. -/
def singlePage : PageMap where
  pageBits := 12
  pageBits_le := by decide
  mapped page := page = 7
  readable page := page = 7
  readable_mapped _ hreadable := hreadable
  content _ := 0xFF

theorem dump_appears_singlePage :
    dumpRegValue (.ofPages singlePage) 0x7000 "x0".toList 32 ≠ [] ∧
      dumpRegValue (.ofPages singlePage) 0x8000 "x0".toList 32 = [] := by
  have hruns := Process.ofPages_runs singlePage
  have hread : (singlePage.memory.load 0x7000 0x800).isSome = true := by decide +kernel
  have hinside := (dump_appears_iff hruns 0x7000 "x0".toList 32).mpr fun _ _ => hread
  have hbehind := (dump_appears_iff hruns 0x8000 "x0".toList 32).mpr fun hmapped =>
    absurd hmapped (by decide)
  exact ⟨hinside.shown rfl (by decide), hbehind.hidden rfl⟩

/-- The last 32 bytes of the page are not shown. -/
theorem dump_missing_at_end :
    ¬ ∀ (proc : Process) (pages : PageMap) (value : BitVec 64) (name : Text),
      proc.Runs pages → DumpAppears pages value 32 (dumpRegValue proc value name 32) := by
  intro hclaim
  have happears := hclaim _ _ 0x7FE0 "sp".toList (Process.ofPages_runs singlePage)
  have hmissing : dumpRegValue (.ofPages singlePage) 0x7FE0 "sp".toList 32 = [] := by
    rw [dumpRegValue_eq_nil_iff, safeReadMemory_eq_load (Process.ofPages_runs singlePage).reads]
    exact Or.inr rfl
  exact happears.shown rfl rfl hmissing

end GumTVM
