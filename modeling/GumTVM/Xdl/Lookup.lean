import GumTVM.Xdl.Tables

/-!
# Lookup by address

`xdl_addr` finds the object that contains an address, in its cache or in the
linker's list, and then a symbol of that object whose range contains it. A
handle loads each of its tables when the table is first needed, and keeps it.
-/

namespace GumTVM

open Foundation

/-! ## Handles -/

/-- `xdl_t`, as far as lookups by address use it. -/
structure XdlHandle where
  pathname : Text
  loadBias : BitVec 64
  dlpiPhdr : List Phdr
  dynsymTryLoad : Bool
  dynsym : Dynsym
  symtabTryLoad : Bool
  symtab : Symtab
deriving DecidableEq

/-- A handle as `xdl_open_by_addr_iterate_cb` makes it. -/
def XdlHandle.create (pathname : Text) (info : DlPhdrInfo) : XdlHandle where
  pathname
  loadBias := info.dlpiAddr
  dlpiPhdr := info.dlpiPhdr
  dynsymTryLoad := false
  dynsym := .zero
  symtabTryLoad := false
  symtab := .zero

def XdlHandle.isMatch (handle : XdlHandle) (addr : BitVec 64) : Bool :=
  xdlElfIsMatch handle.loadBias handle.dlpiPhdr addr

/-- `xdl_open_by_addr_iterate_cb` -/
def xdlOpenByAddrIterateCb (addr : BitVec 64) (info : DlPhdrInfo) : Option XdlHandle :=
  match info.dlpiName with
  | none => none
  | some name =>
      if info.dlpiAddr = 0 then none
      else if xdlElfIsMatch info.dlpiAddr info.dlpiPhdr addr then some (.create name info)
      else none

/-- `xdl_open_by_addr` -/
def xdlOpenByAddr (host : XdlHost) (addr : BitVec 64) : Option (Option XdlHandle) :=
  if addr = 0 then some none
  else xdlIteratePhdr host fun info => some (xdlOpenByAddrIterateCb addr info)

/-- Load `.dynsym` only once. -/
def XdlHandle.loadDynsym (host : XdlHost) (handle : XdlHandle) : Option XdlHandle :=
  if handle.dynsymTryLoad then some handle
  else
    (xdlDynsymLoad host.memory handle.loadBias handle.dlpiPhdr).map fun dynsym =>
      { handle with dynsymTryLoad := true, dynsym }

/-- Load `.symtab` only once. -/
def XdlHandle.loadSymtab (host : XdlHost) (handle : XdlHandle) : Option XdlHandle :=
  if handle.symtabTryLoad then some handle
  else
    (xdlSymtabLoad host handle.pathname handle.loadBias handle.dlpiPhdr).map fun symtab =>
      { handle with symtabTryLoad := true, symtab }

/-- `xdl_sym_by_addr` -/
def xdlSymByAddr (host : XdlHost) (handle : XdlHandle) (addr : BitVec 64) :
    Option (Option ElfSym × XdlHandle) :=
  (handle.loadDynsym host).bind fun handle =>
    (handle.dynsym.search host.memory (addr - handle.loadBias)).map fun sym => (sym, handle)

/-- `xdl_dsym_by_addr` -/
def xdlDsymByAddr (host : XdlHost) (handle : XdlHandle) (addr : BitVec 64) :
    Option (Option ElfSym × XdlHandle) :=
  (handle.loadSymtab host).bind fun handle =>
    (handle.symtab.search (addr - handle.loadBias)).map fun sym => (sym, handle)

/-! ## What a lookup reports -/

/-- A pointer to the name of a symbol: into `.dynstr` in memory, or into the heap
copy of a string table, with what follows it there. -/
inductive NamePointer where
  | dynstr (address : BitVec 64)
  | strtab (rest : List Byte)
deriving DecidableEq

/-- `xdl_info_t` without the program headers. -/
structure XdlAddrInfo where
  dliFname : Text
  dliFbase : BitVec 64
  dliSname : Option NamePointer
  dliSaddr : BitVec 64
  dliSsize : BitVec 64
deriving DecidableEq

/-- What is known of an address without a symbol. -/
def XdlHandle.info (handle : XdlHandle) : XdlAddrInfo where
  dliFname := handle.pathname
  dliFbase := handle.loadBias
  dliSname := none
  dliSaddr := 0
  dliSsize := 0

/-- The same with a symbol. -/
def XdlHandle.infoOf (handle : XdlHandle) (sym : ElfSym) (name : NamePointer) : XdlAddrInfo :=
  { handle.info with
    dliSname := some name
    dliSaddr := handle.loadBias + sym.stValue
    dliSsize := sym.stSize }

/-- `dynstr + sym->st_name` -/
def Dynsym.name (tables : Dynsym) (sym : ElfSym) : NamePointer :=
  .dynstr (tables.dynstr + sym.stName.setWidth 64)

/-- `strtab + sym->st_name` -/
def Symtab.name (tables : Symtab) (sym : ElfSym) : NamePointer :=
  .strtab (tables.strtab.drop sym.stName.toNat)

/-- The symbol part of `xdl_addr4` with the default flags. -/
def XdlHandle.describe (host : XdlHost) (addr : BitVec 64) (handle : XdlHandle) :
    Option (XdlAddrInfo × XdlHandle) :=
  (xdlSymByAddr host handle addr).bind fun
    | (some sym, handle) => some (handle.infoOf sym (handle.dynsym.name sym), handle)
    | (none, handle) =>
        (xdlDsymByAddr host handle addr).map fun
          | (some sym, handle) => (handle.infoOf sym (handle.symtab.name sym), handle)
          | (none, handle) => (handle.info, handle)

/-! ## The cache -/

/-- The lookup among the cached handles. -/
def describeCached (host : XdlHost) (addr : BitVec 64) :
    List XdlHandle → Option (Option (XdlAddrInfo × List XdlHandle))
  | [] => some none
  | handle :: rest =>
      if handle.isMatch addr then
        (handle.describe host addr).map fun (info, handle) => some (info, handle :: rest)
      else
        (describeCached host addr rest).map fun found =>
          found.map fun (info, rest) => (info, handle :: rest)

/-- `xdl_addr4` with the default flags, which is `xdl_addr`: what it reports, if
anything, and the cache afterwards. -/
def xdlAddr (host : XdlHost) (cache : List XdlHandle) (addr : BitVec 64) :
    Option (List XdlHandle × Option XdlAddrInfo) :=
  if addr = 0 then some (cache, none)
  else
    (describeCached host addr cache).bind fun
      | some (info, cache) => some (cache, some info)
      | none =>
          (xdlOpenByAddr host addr).bind fun
            | none => some (cache, none)
            | some handle =>
                (handle.describe host addr).map fun (info, handle) =>
                  (handle :: cache, some info)

/-! ## What the tracer prints of it -/

/-- The bytes of the string at an address, which runs on to the next zero. -/
def Memory.cString (memory : Memory) : Nat → BitVec 64 → Option (List Byte)
  | 0, _ => none
  | fuel + 1, address =>
      (memory address).bind fun byte =>
        if byte = 0 then some []
        else (Memory.cString memory fuel (address + 1)).map (byte :: ·)

/-- The name behind a pointer; a heap copy must have its terminator. -/
def NamePointer.text (memory : Memory) : NamePointer → Option Text
  | .dynstr address => (memory.cString (2 ^ 64) address).map (List.map Byte.toChar)
  | .strtab rest => if 0 ∈ rest then some (GumTVM.cString rest) else none

/-- The fields the tracer prints, with the name read. -/
def XdlAddrInfo.printed (memory : Memory) (info : XdlAddrInfo) : Option XdlInfo :=
  match info.dliSname with
  | none => some ⟨info.dliFname, info.dliFbase, none⟩
  | some pointer =>
      (pointer.text memory).map fun name => ⟨info.dliFname, info.dliFbase, some name⟩

/-- `xdl_addr` as `instruction_callback` calls it, with an empty cache each time. -/
def XdlHost.resolve (host : XdlHost) (addr : BitVec 64) : Option (Option XdlInfo) :=
  (xdlAddr host [] addr).bind fun (_, answer) =>
    match answer with
    | none => some none
    | some info => (info.printed host.memory).map some

end GumTVM
