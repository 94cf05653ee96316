import GumTVM.Xdl.Objects

/-!
# Symbol tables of a loaded object

The dynamic symbol table is used in place, through the hash table the dynamic
segment points to. The table of the file is read from the file, or from the
compressed file it carries in `.gnu_debugdata`. Reading outside a table or a
heap copy faults.
-/

namespace GumTVM

open Foundation

/-! ## Symbols -/

/-- `ElfW(Sym)` -/
structure ElfSym where
  stName : BitVec 32
  stInfo : Byte
  stShndx : BitVec 16
  stValue : BitVec 64
  stSize : BitVec 64
deriving DecidableEq

/-- `sizeof(Elf64_Sym)` -/
def ElfSym.size : Nat := 24

def ElfSym.ofBytes (bytes : List Byte) : ElfSym where
  stName := BitVec.ofNat 32 (fieldOf bytes 0 4)
  stInfo := BitVec.ofNat 8 (fieldOf bytes 4 1)
  stShndx := BitVec.ofNat 16 (fieldOf bytes 6 2)
  stValue := BitVec.ofNat 64 (fieldOf bytes 8 8)
  stSize := BitVec.ofNat 64 (fieldOf bytes 16 8)

/-- `XDL_DYNSYM_IS_EXPORT_SYM` and `XDL_SYMTAB_IS_EXPORT_SYM` -/
def isExportSym (isSymtab : Bool) (stShndx : BitVec 16) : Bool :=
  stShndx ≠ 0 && (!isSymtab || !(0xFF00#16 ≤ stShndx && stShndx ≤ 0xFFFF#16))

/-- `ELF_ST_TYPE(sym->st_info) == STT_TLS` -/
def ElfSym.isTls (sym : ElfSym) : Bool := sym.stInfo &&& 0xF = 6

/-- `xdl_sym_is_match` -/
def xdlSymIsMatch (sym : ElfSym) (offset : BitVec 64) (isSymtab : Bool) : Bool :=
  if !isExportSym isSymtab sym.stShndx then false
  else if sym.isTls then false
  else offset ≥ sym.stValue && offset < sym.stValue + sym.stSize

/-! ## The dynamic segment -/

/-- `sysv_hash` -/
structure SysvHash where
  buckets : BitVec 64
  bucketsCnt : BitVec 32
  chains : BitVec 64
  chainsCnt : BitVec 32
deriving DecidableEq

/-- `gnu_hash` -/
structure GnuHash where
  buckets : BitVec 64
  bucketsCnt : BitVec 32
  chains : BitVec 64
  symoffset : BitVec 32
  bloom : BitVec 64
  bloomCnt : BitVec 32
  bloomShift : BitVec 32
deriving DecidableEq

/-- The fields that `xdl_dynsym_load` sets. -/
structure Dynsym where
  dynsym : BitVec 64
  dynstr : BitVec 64
  sysvHash : SysvHash
  gnuHash : GnuHash
deriving DecidableEq

/-- What `calloc` leaves in them. -/
def Dynsym.zero : Dynsym := ⟨0, 0, ⟨0, 0, 0, 0⟩, ⟨0, 0, 0, 0, 0, 0, 0⟩⟩

/-- One entry of the dynamic segment; `target` is the relocated `d_ptr`. -/
def Dynsym.entry (memory : Memory) (tables : Dynsym) (tag target : BitVec 64) : Option Dynsym :=
  -- `DT_SYMTAB`
  if tag = 6 then some { tables with dynsym := target }
  -- `DT_STRTAB`
  else if tag = 5 then some { tables with dynstr := target }
  -- `DT_HASH`
  else if tag = 4 then
    (memory.uint32 target).bind fun bucketsCnt =>
      (memory.uint32 (target + 4)).map fun chainsCnt =>
        { tables with sysvHash :=
          { buckets := target + 8
            bucketsCnt
            chains := Memory.itemAddress (target + 8) 4 bucketsCnt.toNat
            chainsCnt } }
  -- `DT_GNU_HASH`
  else if tag = 0x6FFFFEF5 then
    (memory.uint32 target).bind fun bucketsCnt =>
      (memory.uint32 (target + 4)).bind fun symoffset =>
        (memory.uint32 (target + 8)).bind fun bloomCnt =>
          (memory.uint32 (target + 12)).map fun bloomShift =>
            let buckets := Memory.itemAddress (target + 16) 8 bloomCnt.toNat
            { tables with gnuHash :=
              { buckets
                bucketsCnt
                chains := Memory.itemAddress buckets 4 bucketsCnt.toNat
                symoffset
                bloom := target + 16
                bloomCnt
                bloomShift } }
  else some tables

/-- The loop over the dynamic segment. After `2 ^ 60` entries it is back where it
began, and goes on for ever. -/
def Dynsym.scan (memory : Memory) (loadBias : BitVec 64) :
    Nat → BitVec 64 → Dynsym → Option Dynsym
  | 0, _, _ => none
  | fuel + 1, entry, tables =>
      if entry = 0 then some tables
      else
        (memory.uint64 entry).bind fun tag =>
          -- `DT_NULL`
          if tag = 0 then some tables
          else
            (memory.uint64 (entry + 8)).bind fun ptr =>
              (tables.entry memory tag (loadBias + ptr)).bind
                (scan memory loadBias fuel (entry + 16))

/-- `xdl_dynsym_load`: the fields afterwards. It fails exactly when it leaves a
null pointer as `dynsym`. -/
def xdlDynsymLoad (memory : Memory) (loadBias : BitVec 64) (dlpiPhdr : List Phdr) :
    Option Dynsym :=
  match dlpiPhdr.find? (·.pType = ptDynamic) with
  | none => some .zero
  | some phdr =>
      (Dynsym.zero.scan memory loadBias (2 ^ 60) (loadBias + phdr.pVaddr)).map fun tables =>
        if tables.dynsym = 0 ∨ tables.dynstr = 0 ∨
            tables.sysvHash.bucketsCnt = 0 ∧ tables.gnuHash.bucketsCnt = 0 then
          { tables with
            dynsym := 0
            dynstr := 0
            sysvHash := { tables.sysvHash with bucketsCnt := 0 }
            gnuHash := { tables.gnuHash with bucketsCnt := 0 } }
        else tables

/-! ## Searching the dynamic symbol table -/

namespace Dynsym

/-- `dynsym + n` -/
def symAt (memory : Memory) (tables : Dynsym) (n : BitVec 32) : Option ElfSym :=
  (memory.load (Memory.itemAddress tables.dynsym ElfSym.size n.toNat) ElfSym.size).map
    ElfSym.ofBytes

/-- One symbol of the search for an offset. -/
def visit (memory : Memory) (tables : Dynsym) (offset : BitVec 64) (n : BitVec 32) :
    Option (Option ElfSym) :=
  (tables.symAt memory n).map fun sym => if xdlSymIsMatch sym offset false then some sym else none

/-- `(chains_all[n++] & 1) == 0`, where `chains_all` is `chains - symoffset`. -/
def advance (memory : Memory) (tables : Dynsym) (n : BitVec 32) : Option (Option (BitVec 32)) :=
  (memory.uint32 (Memory.itemAddress tables.gnuHash.chains 4 n.toNat -
    BitVec.ofNat 64 (4 * tables.gnuHash.symoffset.toNat))).map fun word =>
      if word &&& 1 = 0 then some (n + 1) else none

/-- The bucket at an index of the GNU hash table. -/
def bucketAt (memory : Memory) (tables : Dynsym) (i : Nat) : Option (BitVec 32) :=
  memory.uint32 (Memory.itemAddress tables.gnuHash.buckets 4 i)

/-- One bucket of the search; a chain that does not end visits every index. -/
def searchBucket (memory : Memory) (tables : Dynsym) (offset : BitVec 64) (i : Nat) :
    Option (Option ElfSym) :=
  (tables.bucketAt memory i).bind fun n =>
    if n < tables.gnuHash.symoffset then some none
    else searchChain (tables.visit memory offset) (tables.advance memory) (2 ^ 32) n

/-- The search of `xdl_sym_by_addr`. -/
def search (memory : Memory) (tables : Dynsym) (offset : BitVec 64) : Option (Option ElfSym) :=
  if tables.dynsym = 0 then some none
  else if tables.gnuHash.bucketsCnt > 0 then
    searchList (tables.searchBucket memory offset) (List.range tables.gnuHash.bucketsCnt.toNat)
  else if tables.sysvHash.chainsCnt > 0 then
    searchList (fun i => tables.visit memory offset (BitVec.ofNat 32 i))
      (List.range tables.sysvHash.chainsCnt.toNat)
  else some none

end Dynsym

/-! ## The symbol table of the file -/

/-- `ElfW(Shdr)`: the fields that are read. -/
structure Shdr where
  shName : Nat
  shType : Nat
  shOffset : BitVec 64
  shSize : BitVec 64
  shLink : Nat
  shEntsize : BitVec 64
deriving DecidableEq

/-- `sizeof(Elf64_Shdr)` -/
def Shdr.size : Nat := 64

def Shdr.ofBytes (bytes : List Byte) : Shdr where
  shName := fieldOf bytes 0 4
  shType := fieldOf bytes 4 4
  shOffset := BitVec.ofNat 64 (fieldOf bytes 24 8)
  shSize := BitVec.ofNat 64 (fieldOf bytes 32 8)
  shLink := fieldOf bytes 40 4
  shEntsize := BitVec.ofNat 64 (fieldOf bytes 56 8)

/-- The section part of `ElfW(Ehdr)`. -/
structure SectionLayout where
  eShoff : BitVec 64
  eShentsize : Nat
  eShnum : Nat
  eShstrndx : Nat

def SectionLayout.ofBytes (bytes : List Byte) : SectionLayout where
  eShoff := BitVec.ofNat 64 (fieldOf bytes 40 8)
  eShentsize := fieldOf bytes 58 2
  eShnum := fieldOf bytes 60 2
  eShstrndx := fieldOf bytes 62 2

/-- The symbol table copied to the heap; an empty copy stands for a null pointer. -/
structure Symtab where
  symtab : List Byte
  symtabCnt : Nat
  strtab : List Byte
deriving DecidableEq

/-- What `calloc` leaves in the fields. -/
def Symtab.zero : Symtab := ⟨[], 0, []⟩

/-- The checks of `xdl_read_file_to_heap`, `xdl_read_memory_to_heap` and
`xdl_get_memory`; the sum wraps. -/
def insideImage (image : List Byte) (dataOffset dataLen : BitVec 64) : Bool :=
  dataLen ≠ 0 && dataOffset.toNat < image.length && (dataOffset + dataLen).toNat ≤ image.length

/-- `xdl_read_file_to_heap`; one `read` transfers no more than the kernel's limit. -/
def xdlReadFileToHeap (file : List Byte) (dataOffset dataLen : BitVec 64) : Option (List Byte) :=
  if insideImage file dataOffset dataLen && decide (dataLen.toNat ≤ 0x7FFFF000) then
    some ((file.drop dataOffset.toNat).take dataLen.toNat)
  else none

/-- `xdl_read_memory_to_heap`; `malloc` refuses a length that made the sum wrap. -/
def xdlReadMemoryToHeap (mem : List Byte) (dataOffset dataLen : BitVec 64) : Option (List Byte) :=
  if insideImage mem dataOffset dataLen && decide (dataLen.toNat ≤ mem.length) then
    some ((mem.drop dataOffset.toNat).take dataLen.toNat)
  else none

/-- `xdl_get_memory`: a pointer, behind which the rest of the image can be read. -/
def xdlGetMemory (mem : List Byte) (dataOffset dataLen : BitVec 64) : Option (List Byte) :=
  if insideImage mem dataOffset dataLen then some (mem.drop dataOffset.toNat) else none

/-- `strcmp` with a literal, given with its terminator; faults behind the buffer. -/
def strcmpEq : List Byte → List Byte → Option Bool
  | [], _ => some true
  | _ :: _, [] => none
  | c :: rest, byte :: buffer => if byte = c then strcmpEq rest buffer else some false

/-- A literal with its terminator. -/
def cLiteral (text : Text) : List Byte := text.map (fun c => BitVec.ofNat 8 c.toNat) ++ [0]

/-- A way to get bytes of an image by offset and length. -/
abbrev ImageReader := BitVec 64 → BitVec 64 → Option (List Byte)

/-- The table of a `.symtab` section; none if the section is passed over. An
entry size of zero makes the division undefined. -/
def symtabOf (read : ImageReader) (shdrs : List Shdr) (shdr : Shdr) : Option (Option Symtab) :=
  match shdrs[shdr.shLink]? with
  | none => some none
  | some strtabShdr =>
      -- `SHT_STRTAB`
      if strtabShdr.shType ≠ 3 then some none
      else
        match read shdr.shOffset shdr.shSize, read strtabShdr.shOffset strtabShdr.shSize with
        | some symtab, some strtab =>
            if shdr.shEntsize = 0 then none
            else some (some ⟨symtab, (shdr.shSize / shdr.shEntsize).toNat, strtab⟩)
        | _, _ => some none

/-- The section headers of an image and the section with their names. -/
def sectionHeaders (read : ImageReader) (layout : SectionLayout) : Option (List Shdr × Shdr) :=
  if layout.eShnum = 0 ∨ layout.eShentsize ≠ Shdr.size then none
  else
    (read layout.eShoff (BitVec.ofNat 64 (layout.eShentsize * layout.eShnum))).bind fun bytes =>
      let shdrs := (List.range layout.eShnum).map fun i =>
        Shdr.ofBytes ((bytes.drop (Shdr.size * i)).take Shdr.size)
      -- `SHN_UNDEF`
      if layout.eShstrndx = 0 then none
      else shdrs[layout.eShstrndx]?.map fun strings => (shdrs, strings)

/-- `SHT_SYMTAB == shdr->sh_type && 0 == strcmp(".symtab", shdr_name)` and the
same for other sections. -/
def sectionIs (shType : Nat) (name : Text) (shstrtab : List Byte) (shdr : Shdr) : Option Bool :=
  if shdr.shType ≠ shType then some false
  else strcmpEq (cLiteral name) (shstrtab.drop shdr.shName)

/-- `xdl_symtab_load_from_debugdata` -/
def xdlSymtabLoadFromDebugdata (lzmaDecompress : List Byte → Option (List Byte))
    (file : List Byte) (shdr : Shdr) : Option (Option Symtab) :=
  match (xdlReadFileToHeap file shdr.shOffset shdr.shSize).bind lzmaDecompress with
  | none => some none
  | some debugdata =>
      -- the header of what was decompressed is read without a check
      if debugdata.length < 64 then none
      else
        match (sectionHeaders (xdlReadMemoryToHeap debugdata) (.ofBytes debugdata)).bind
          fun (shdrs, strings) =>
            (xdlGetMemory debugdata strings.shOffset strings.shSize).map fun shstrtab =>
              (shdrs, shstrtab) with
        | none => some none
        | some (shdrs, shstrtab) =>
            searchList (fun shdr =>
              (sectionIs 2 ".symtab".toList shstrtab shdr).bind fun isSymtab =>
                if isSymtab then symtabOf (xdlReadMemoryToHeap debugdata) shdrs shdr
                else some none) shdrs

/-- `xdl_symtab_load` once the file is open. -/
def xdlSymtabLoadFile (lzmaDecompress : List Byte → Option (List Byte)) (file : List Byte)
    (layout : SectionLayout) : Option (Option Symtab) :=
  match (sectionHeaders (xdlReadFileToHeap file) layout).bind fun (shdrs, strings) =>
    (xdlReadFileToHeap file strings.shOffset strings.shSize).map fun shstrtab =>
      (shdrs, shstrtab) with
  | none => some none
  | some (shdrs, shstrtab) =>
      searchList (fun shdr =>
        (sectionIs 2 ".symtab".toList shstrtab shdr).bind fun isSymtab =>
          if isSymtab then symtabOf (xdlReadFileToHeap file) shdrs shdr
          else
            (sectionIs 1 ".gnu_debugdata".toList shstrtab shdr).bind fun isDebugdata =>
              if isDebugdata then xdlSymtabLoadFromDebugdata lzmaDecompress file shdr
              else some none) shdrs

/-- `XDL_LIB_PATH` -/
def xdlLibPath : Text := "/system/lib64".toList

/-- The file `xdl_symtab_load` opens for an object. -/
def openObject (host : XdlHost) (pathname : Text) (base : BitVec 64) : Option (List Byte) :=
  if pathname.head? = some '/' then host.openFile pathname
  else
    match host.openFile (xdlLibPath ++ ['/'] ++ pathname) with
    | some file => some file
    | none => (xdlIterateGetFullPathname base host.maps).bind host.openFile

/-- `xdl_symtab_load`: the fields afterwards, unchanged when it fails. -/
def xdlSymtabLoad (host : XdlHost) (pathname : Text) (loadBias : BitVec 64)
    (dlpiPhdr : List Phdr) : Option Symtab :=
  if pathname.head? = some '[' then some .zero
  else if xdlIterateGetMinVaddr dlpiPhdr = BitVec.allOnes 64 then some .zero
  else
    let base := loadBias + xdlIterateGetMinVaddr dlpiPhdr
    match openObject host pathname base with
    | none => some .zero
    | some file =>
        (host.memory.load base 64).bind fun ehdr =>
          (xdlSymtabLoadFile host.lzmaDecompress file (.ofBytes ehdr)).map fun loaded =>
            loaded.getD .zero

namespace Symtab

/-- `symtab + i` -/
def symAt (tables : Symtab) (i : Nat) : Option ElfSym :=
  if ElfSym.size * (i + 1) ≤ tables.symtab.length then
    some (ElfSym.ofBytes ((tables.symtab.drop (ElfSym.size * i)).take ElfSym.size))
  else none

def visit (tables : Symtab) (offset : BitVec 64) (i : Nat) : Option (Option ElfSym) :=
  (tables.symAt i).map fun sym => if xdlSymIsMatch sym offset true then some sym else none

/-- The search of `xdl_dsym_by_addr`. -/
def search (tables : Symtab) (offset : BitVec 64) : Option (Option ElfSym) :=
  if tables.symtab = [] then some none
  else searchList (tables.visit offset) (List.range tables.symtabCnt)

end Symtab

end GumTVM
