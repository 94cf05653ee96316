import GumTVM.Foundation.Text

/-!
# The traced process as the tracer sees it

Answers of the kernel, the dynamic linker and Gum. They are parameters: every
result holds for all answers, and results that need a particular behaviour of
one of them say so in a hypothesis.
-/

namespace GumTVM

open Foundation

abbrev Byte := BitVec 8

/-- `xdl_info_t`: the fields the tracer prints. -/
structure XdlInfo where
  dliFname : Text
  dliFbase : BitVec 64
  dliSname : Option Text

/-- System calls and symbol lookup at one moment of the traced process. -/
structure Process where
  /-- `sysconf(_SC_PAGESIZE)` -/
  pagesize : BitVec 64
  /-- `mincore` succeeds on the page at an address, for a length. -/
  mincore : BitVec 64 → BitVec 64 → Bool
  /-- The bytes `process_vm_readv` transfers; none when it fails. -/
  processVmReadv : BitVec 64 → Nat → List Byte
  /-- `xdl_addr` -/
  xdlAddr : BitVec 64 → Option XdlInfo
  /-- What a read through a pointer into a destroyed temporary string yields,
  given the text the string held. -/
  staleText : Text → Text

/-- A process in which no address can be read and no symbol is known. -/
def Process.empty : Process where
  pagesize := 0x1000
  mincore _ _ := false
  processVmReadv _ _ := []
  xdlAddr _ := none
  staleText := id

/-- Contents of the files of the device, empty where there is no file. -/
abbrev Files := Text → Text

def Files.write (files : Files) (path content : Text) : Files := Function.update files path content

/-- `GumMemoryRange` -/
structure GumMemoryRange where
  baseAddress : BitVec 64
  size : BitVec 64
deriving DecidableEq

/-- First address and end address. -/
def GumMemoryRange.bounds (range : GumMemoryRange) : BitVec 64 × BitVec 64 :=
  (range.baseAddress, range.baseAddress + range.size)

/-- `ELFIO::section`: address and size. -/
structure ElfSection where
  address : BitVec 64
  size : BitVec 64

/-- The sections of a loaded ELF file by name. -/
abbrev ElfFile := Text → Option ElfSection

/-- Module lookup at one moment of the traced process. -/
structure Host where
  /-- `gum_process_find_module_by_name` with `gum_module_get_range` -/
  findModuleByName : Text → Option GumMemoryRange
  /-- `dli_fname` as `dladdr` reports it for an address -/
  dladdr : BitVec 64 → Text
  /-- `ELFIO::elfio::load` -/
  loadElf : Text → Option ElfFile

/-- `Utils::get_plt_range` -/
def getPltRange (host : Host) (elfFile : Text) : BitVec 64 × BitVec 64 :=
  match host.loadElf elfFile with
  | none => (0, 0)
  | some sections =>
      match sections ".plt".toList with
      | none => (0, 0)
      | some pltSec => (pltSec.address, pltSec.address + pltSec.size)

@[simp] theorem Files.write_same (files : Files) (path content : Text) :
    files.write path content path = content := by
  simp [Files.write]

end GumTVM
