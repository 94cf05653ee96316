import GumTVM.Elf.Header
import GumTVM.Logger.HexDump

/-!
# Loading an ELF file

`elfio::load` reads the headers of a file through one input stream, whose
failures stick. What it returns is the outcome of reading the segments; the
outcome of reading the sections is not looked at.
-/

namespace GumTVM

open Foundation

/-- `section_impl`: the header as read, the data and the name. -/
structure Section where
  header : List Byte
  data : Option (List Byte)
  name : List Byte
deriving DecidableEq

/-- `segment_impl`: the header as read and the data. -/
structure Segment where
  header : List Byte
  data : Option (List Byte)
deriving DecidableEq

/-- `elfio` after a successful load. -/
structure Elfio where
  ident : ElfIdent
  header : List Byte
  sections : List Section
  segments : List Segment
deriving DecidableEq

/-- `SHT_NULL` -/
def shtNull : Nat := 0

/-- `SHT_NOBITS` -/
def shtNobits : Nat := 8

/-- `SHN_UNDEF` -/
def shnUndef : Nat := 0

/-- `PT_NULL` -/
def ptNull : Nat := 0

namespace Section

def getSize (sec : Section) (ident : ElfIdent) : Nat :=
  ident.fileClass.shSize.get ident.encoding sec.header

def getAddress (sec : Section) (ident : ElfIdent) : Nat :=
  ident.fileClass.shAddr.get ident.encoding sec.header

def getNameStringOffset (sec : Section) (ident : ElfIdent) : Nat :=
  ident.fileClass.shName.get ident.encoding sec.header

def setAddress (sec : Section) (ident : ElfIdent) (value : Nat) : Section :=
  { sec with header := ident.fileClass.shAddr.set ident.encoding value sec.header }

/-- `load_data`, with the size of the stream at the time the header was read. -/
def loadData (ident : ElfIdent) (header : List Byte) (streamSize : Nat)
    (stream : InputStream Byte) : Option (List Byte) × InputStream Byte :=
  let type := ident.fileClass.shType.get ident.encoding header
  let size := ident.fileClass.shSize.get ident.encoding header
  if type ≠ shtNull ∧ type ≠ shtNobits ∧ size < streamSize then
    if size ≠ 0 then
      let (got, stream) :=
        stream.readAt (BitVec.ofNat 64 (ident.fileClass.shOffset.get ident.encoding header)) size
      if got.length ≠ size then (none, stream) else (some got, stream)
    else (some [], stream)
  else (none, stream)

/-- `load`: what is read of the header overwrites zeros. -/
def load (ident : ElfIdent) (stream : InputStream Byte) (headerOffset : BitVec 64) :
    Section × InputStream Byte :=
  let stream := stream.seekEnd
  let streamSize := stream.tellg.toNat
  let (got, stream) := stream.readAt headerOffset ident.fileClass.shdrSize
  let header := got ++ List.replicate (ident.fileClass.shdrSize - got.length) 0
  let (data, stream) := loadData ident header streamSize stream
  (⟨header, data, []⟩, stream)

end Section

/-- The length of the string at the front, at most `maxlen`. -/
def strnlen (bytes : List Byte) (maxlen : Nat) : Nat :=
  ((bytes.take maxlen).takeWhile (· ≠ 0)).length

/-- `string_section_accessor::get_string` -/
def getString (ident : ElfIdent) (stringSection : Option Section) (index : Nat) :
    Option (List Byte) :=
  stringSection.bind fun sec => sec.data.bind fun data =>
    let size := sec.getSize ident
    if index < size then
      let stringLength := strnlen (data.drop index) (size - index)
      if stringLength < size - index then some ((data.drop index).take stringLength) else none
    else none

/-- The entries of the section table from one index on. -/
def loadSectionEntries (ident : ElfIdent) (offset entrySize : Nat) :
    Nat → Nat → InputStream Byte → List Section × InputStream Byte
  | _, 0, stream => ([], stream)
  | i, count + 1, stream =>
      let (sec, stream) := Section.load ident stream (BitVec.ofNat 64 (offset + i * entrySize))
      let (rest, stream) := loadSectionEntries ident offset entrySize (i + 1) count stream
      (sec.setAddress ident (sec.getAddress ident) :: rest, stream)

/-- A section with the name that the string table has for it, if it has one. -/
def Section.named (ident : ElfIdent) (stringSection : Option Section) (sec : Section) : Section :=
  match getString ident stringSection (sec.getNameStringOffset ident) with
  | none => sec
  | some name => { sec with name }

/-- `load_sections`: the sections left in the reader. -/
def loadSections (ident : ElfIdent) (header : List Byte) (stream : InputStream Byte) :
    List Section × InputStream Byte :=
  let entrySize := ident.fileClass.eShentsize.get ident.encoding header
  let num := ident.fileClass.eShnum.get ident.encoding header
  let offset := ident.fileClass.eShoff.get ident.encoding header
  if num ≠ 0 ∧ entrySize < ident.fileClass.shdrSize then ([], stream)
  else
    let (sections, stream) := loadSectionEntries ident offset entrySize 0 num stream
    let shstrndx := ident.fileClass.eShstrndx.get ident.encoding header
    if shstrndx ≠ shnUndef then
      (sections.map (Section.named ident sections[shstrndx]?), stream)
    else (sections, stream)

namespace Segment

/-- `load_data`; refused when the data cannot be read. -/
def loadData (ident : ElfIdent) (header : List Byte) (streamSize : Nat)
    (stream : InputStream Byte) : Option (Option (List Byte) × InputStream Byte) :=
  let type := ident.fileClass.pType.get ident.encoding header
  let size := ident.fileClass.pFilesz.get ident.encoding header
  if type = ptNull ∨ size = 0 then some (none, stream)
  else
    let stream :=
      stream.seekg (BitVec.ofNat 64 (ident.fileClass.pOffset.get ident.encoding header))
    if size > streamSize then some (none, stream)
    else
      let (got, stream) := stream.read size
      if stream.failed then none else some (some got, stream)

/-- `load` -/
def load (ident : ElfIdent) (stream : InputStream Byte) (headerOffset : BitVec 64) :
    Option (Segment × InputStream Byte) :=
  let stream := stream.seekEnd
  let streamSize := stream.tellg.toNat
  let (got, stream) := stream.readAt headerOffset ident.fileClass.phdrSize
  let header := got ++ List.replicate (ident.fileClass.phdrSize - got.length) 0
  (loadData ident header streamSize stream).map fun (data, stream) => (⟨header, data⟩, stream)

end Segment

/-- The entries of the program header table from one index on. -/
def loadSegmentEntries (ident : ElfIdent) (offset entrySize : Nat) :
    Nat → Nat → InputStream Byte → Option (List Segment)
  | _, 0, _ => some []
  | i, count + 1, stream =>
      match Segment.load ident stream (BitVec.ofNat 64 (offset + i * entrySize)) with
      | none => none
      | some (seg, stream) =>
          if stream.failed then none
          else (loadSegmentEntries ident offset entrySize (i + 1) count stream).map (seg :: ·)

/-- `load_segments`; `none` stands for its result `false`. -/
def loadSegments (ident : ElfIdent) (header : List Byte) (stream : InputStream Byte) :
    Option (List Segment) :=
  let entrySize := ident.fileClass.ePhentsize.get ident.encoding header
  let num := ident.fileClass.ePhnum.get ident.encoding header
  let offset := ident.fileClass.ePhoff.get ident.encoding header
  if num ≠ 0 ∧ entrySize < ident.fileClass.phdrSize then none
  else loadSegmentEntries ident offset entrySize 0 num stream

/-- `elfio::load`; `none` stands for its result `false`. -/
def elfioLoad (contents : Contents Byte) : Option Elfio :=
  let (eIdent, stream) := (InputStream.opened contents).readAt 0 eiNident
  (ElfIdent.ofBytes eIdent).bind fun ident =>
    let (header, stream) := stream.readAt 0 ident.fileClass.ehdrSize
    if header.length ≠ ident.fileClass.ehdrSize then none
    else
      let (sections, stream) := loadSections ident header stream
      (loadSegments ident header stream).map fun segments => ⟨ident, header, sections, segments⟩

/-- `sections[name]`: the first section of that name. -/
def Elfio.sectionNamed (reader : Elfio) (name : Text) : Option Section :=
  reader.sections.find? fun sec => sec.name.map Byte.toChar == name

/-- `elfio::load` on the file of a path, as the tracer uses the result. -/
def loadElfFrom (files : Text → Option (Contents Byte)) (path : Text) : Option ElfFile :=
  (files path).bind fun contents => (elfioLoad contents).map fun reader name =>
    (reader.sectionNamed name).map fun sec =>
      ⟨BitVec.ofNat 64 (sec.getAddress reader.ident), BitVec.ofNat 64 (sec.getSize reader.ident)⟩

/-- A host that loads ELF files from the files of the device. -/
def Host.reading (host : Host) (files : Text → Option (Contents Byte)) : Host :=
  { host with loadElf := loadElfFrom files }

end GumTVM
