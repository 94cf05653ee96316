import GumTVM.Foundation.Search
import GumTVM.Memory.ProcessMemory
import GumTVM.Elf.Header

/-!
# Loaded objects

What `xdl_iterate.c` presents to a callback: the linker, whose headers are found
through the auxiliary vector, and then the objects that `dl_iterate_phdr`
reports. Headers an object does not report are read from its image in memory.
-/

namespace GumTVM

open Foundation

/-! ## Words in memory -/

/-- The value of some bytes of a record, least significant first. -/
def fieldOf (bytes : List Byte) (offset count : Nat) : Nat :=
  littleEndian ((bytes.drop offset).take count)

namespace Memory

variable (memory : Memory)

def uint16 (address : BitVec 64) : Option (BitVec 16) :=
  (memory.load address 2).map fun bytes => BitVec.ofNat 16 (littleEndian bytes)

def uint32 (address : BitVec 64) : Option (BitVec 32) :=
  (memory.load address 4).map fun bytes => BitVec.ofNat 32 (littleEndian bytes)

def uint64 (address : BitVec 64) : Option (BitVec 64) :=
  (memory.load address 8).map fun bytes => BitVec.ofNat 64 (littleEndian bytes)

/-- The address of an item of an array of records of some size. -/
def itemAddress (base : BitVec 64) (size index : Nat) : BitVec 64 :=
  base + BitVec.ofNat 64 (size * index)

end Memory

/-! ## Program headers -/

/-- `PT_LOAD` -/
def ptLoad : Nat := 1

/-- `PT_DYNAMIC` -/
def ptDynamic : Nat := 2

/-- `ElfW(Phdr)`: the fields that are read. -/
structure Phdr where
  pType : Nat
  pVaddr : BitVec 64
  pMemsz : BitVec 64
deriving DecidableEq

/-- `sizeof(Elf64_Phdr)` -/
def Phdr.size : Nat := 56

def Phdr.ofBytes (bytes : List Byte) : Phdr where
  pType := fieldOf bytes 0 4
  pVaddr := BitVec.ofNat 64 (fieldOf bytes 16 8)
  pMemsz := BitVec.ofNat 64 (fieldOf bytes 40 8)

/-- The program headers of the image at an address. -/
def phdrsInMemory (memory : Memory) (base : BitVec 64) : Option (List Phdr) :=
  (memory.uint64 (base + 32)).bind fun ePhoff =>
    (memory.uint16 (base + 56)).bind fun ePhnum =>
      (List.range ePhnum.toNat).mapM fun i =>
        (memory.load (Memory.itemAddress (base + ePhoff) Phdr.size i) Phdr.size).map Phdr.ofBytes

/-- `xdl_iterate_get_min_vaddr`; `UINTPTR_MAX` if there is no load segment. -/
def xdlIterateGetMinVaddr (phdrs : List Phdr) : BitVec 64 :=
  phdrs.foldl
    (fun minVaddr phdr => if phdr.pType = ptLoad ∧ minVaddr > phdr.pVaddr then phdr.pVaddr
      else minVaddr)
    (BitVec.allOnes 64)

/-- `xdl_elf_is_match` -/
def xdlElfIsMatch (loadBias : BitVec 64) (dlpiPhdr : List Phdr) (addr : BitVec 64) : Bool :=
  if addr < loadBias then false
  else
    dlpiPhdr.any fun phdr => phdr.pType = ptLoad && phdr.pVaddr ≤ addr - loadBias &&
      addr - loadBias < phdr.pVaddr + phdr.pMemsz

/-! ## The linker's list -/

/-- `struct dl_phdr_info`; no headers stand for a null pointer as well. -/
structure DlPhdrInfo where
  dlpiAddr : BitVec 64
  dlpiName : Option Text
  dlpiPhdr : List Phdr
deriving DecidableEq

/-- A line of `/proc/self/maps` with the path from its first slash on. -/
structure MapsLine where
  start : BitVec 64
  stop : BitVec 64
  pathname : Option Text

/-- The process, its files and what the linker tells about it, at one moment. -/
structure XdlHost where
  memory : Memory
  /-- `getauxval(AT_BASE)`, zero when there is no such entry. -/
  auxvBase : BitVec 64
  /-- The objects `dl_iterate_phdr` calls back for, in order. -/
  dlIteratePhdr : List DlPhdrInfo
  maps : List MapsLine
  /-- The contents of a file that can be opened. -/
  openFile : Text → Option (List Byte)
  /-- `xdl_lzma_decompress` -/
  lzmaDecompress : List Byte → Option (List Byte)

/-- `XDL_UTIL_LINKER_PATHNAME` -/
def linkerPathname : Text := "/system/bin/linker64".toList

/-- `xdl_iterate_get_linker_base` -/
def xdlIterateGetLinkerBase (host : XdlHost) : Option (BitVec 64) :=
  if host.auxvBase = 0 then some 0
  else
    (host.memory.load host.auxvBase elfMagic.length).map fun ident =>
      if ident = elfMagic then host.auxvBase else 0

/-- The linker's own entry, as `xdl_iterate_do_callback` makes it. -/
def linkerEntry (host : XdlHost) : Option (Option DlPhdrInfo) :=
  (xdlIterateGetLinkerBase host).bind fun base =>
    if base = 0 then some none
    else
      (phdrsInMemory host.memory base).map fun phdrs =>
        let minVaddr := xdlIterateGetMinVaddr phdrs
        if minVaddr = BitVec.allOnes 64 then none
        else some ⟨base - minVaddr, some linkerPathname, phdrs⟩

/-- `xdl_iterate_by_linker_cb` with the default flags. -/
def xdlIterateByLinkerCb {β : Type} (host : XdlHost) (cb : DlPhdrInfo → Option (Option β))
    (linkerLoadBias : BitVec 64) (info : DlPhdrInfo) : Option (Option β) :=
  if info.dlpiAddr = 0 ∨ info.dlpiName = none ∨ info.dlpiName = some [] then some none
  -- the linker has been presented already
  else if linkerLoadBias = info.dlpiAddr then some none
  else if info.dlpiPhdr = [] then
    (phdrsInMemory host.memory info.dlpiAddr).bind fun phdrs =>
      cb { info with dlpiPhdr := phdrs }
  else cb info

/-- `xdl_iterate_phdr` with the default flags: the first answer of a callback. -/
def xdlIteratePhdr {β : Type} (host : XdlHost) (cb : DlPhdrInfo → Option (Option β)) :
    Option (Option β) :=
  (linkerEntry host).bind fun
    | none => searchList (xdlIterateByLinkerCb host cb 0) host.dlIteratePhdr
    | some entry =>
        (cb entry).bind fun
          | some answer => some (some answer)
          | none => searchList (xdlIterateByLinkerCb host cb entry.dlpiAddr) host.dlIteratePhdr

/-- `xdl_iterate_get_full_pathname` -/
def xdlIterateGetFullPathname (base : BitVec 64) : List MapsLine → Option Text
  | [] => none
  | line :: rest =>
      if base < line.start then none
      else if base ≥ line.stop then xdlIterateGetFullPathname base rest
      else line.pathname

/-! ## The objects a callback sees -/

/-- What a reported object is presented as, if it is. -/
def presentedAs (host : XdlHost) (linkerLoadBias : BitVec 64) (info : DlPhdrInfo) :
    Option (Option DlPhdrInfo) :=
  xdlIterateByLinkerCb host (fun info => some (some info)) linkerLoadBias info

/-- The objects presented to a callback that gives no answer, in order; `none` if
headers of one of them cannot be read. -/
def loadedObjects (host : XdlHost) : Option (List DlPhdrInfo) :=
  (linkerEntry host).bind fun entry =>
    (host.dlIteratePhdr.mapM
      (presentedAs host ((entry.map DlPhdrInfo.dlpiAddr).getD 0))).map fun presented =>
        entry.toList ++ presented.filterMap id

theorem xdlIterateByLinkerCb_eq {β : Type} (host : XdlHost)
    (cb : DlPhdrInfo → Option (Option β)) (linkerLoadBias : BitVec 64) (info : DlPhdrInfo) :
    xdlIterateByLinkerCb host cb linkerLoadBias info =
      (presentedAs host linkerLoadBias info).bind (visitPresent cb) := by
  unfold presentedAs xdlIterateByLinkerCb
  split
  · rfl
  · split
    · rfl
    · split
      · rw [Option.bind_assoc]
        rfl
      · rfl

/-- The iteration is a search in the list of loaded objects. -/
theorem xdlIteratePhdr_eq {β : Type} {host : XdlHost} {objects : List DlPhdrInfo}
    (hobjects : loadedObjects host = some objects) (cb : DlPhdrInfo → Option (Option β)) :
    xdlIteratePhdr host cb = searchList cb objects := by
  obtain ⟨entry, hentry, hmap⟩ := Option.bind_eq_some_iff.mp hobjects
  obtain ⟨presented, hpresented, rfl⟩ := Option.map_eq_some_iff.mp hmap
  have hreported (linkerLoadBias : BitVec 64)
      (hbias : (entry.map DlPhdrInfo.dlpiAddr).getD 0 = linkerLoadBias) :
      searchList (xdlIterateByLinkerCb host cb linkerLoadBias) host.dlIteratePhdr =
        searchList cb (presented.filterMap id) := by
    rw [hbias] at hpresented
    rw [← searchList_prepared hpresented]
    exact searchList_congr fun info _ => xdlIterateByLinkerCb_eq host cb linkerLoadBias info
  unfold xdlIteratePhdr
  rw [hentry, Option.bind_some]
  cases entry with
  | none => exact hreported 0 rfl
  | some entry =>
      dsimp only
      rw [hreported entry.dlpiAddr rfl]
      rfl

end GumTVM
