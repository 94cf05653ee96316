import GumTVM.Elf.Acceptance
import Mathlib.Data.List.Forall2

/-!
# The range of the procedure linkage table

What `get_plt_range` answers for the files of the device. A file with segments
gives the range its section table declares, or none; a damaged section table
shows only in files without segments.
-/

namespace GumTVM

open Foundation

/-- First address and end address of the first section named `.plt`. -/
def pltRangeOf (ident : ElfIdent) (sections : List Section) : BitVec 64 × BitVec 64 :=
  match sections.find? fun sec => sec.name.map Byte.toChar == ".plt".toList with
  | none => (0, 0)
  | some sec =>
      (BitVec.ofNat 64 (sec.getAddress ident),
        BitVec.ofNat 64 (sec.getAddress ident) + BitVec.ofNat 64 (sec.getSize ident))

/-! ## Intact and damaged files -/

/-- A header of zeros with some of its fields set. -/
def headerWith (ident : ElfIdent) (size : Nat) (fields : List (HeaderField × Nat)) : List Byte :=
  fields.foldl (fun header (field, value) => field.set ident.encoding value header)
    (List.replicate size 0)

/-- A 32-bit big-endian library with the sections `""`, `.plt` and `.shstrtab`,
and a segment that covers the file. -/
def libraryBytes (segments : Nat) : List Byte :=
  let elf32 : ElfClass := .elfclass32
  let ident : ElfIdent := ⟨elf32, .elfdata2msb⟩
  let ehdr := headerWith ident 52
    [(elf32.ePhoff, 52), (elf32.eShoff, 84), (elf32.ePhentsize, 32), (elf32.ePhnum, segments),
      (elf32.eShentsize, 40), (elf32.eShnum, 3), (elf32.eShstrndx, 2)]
  let phdr := headerWith ident 32 [(elf32.pType, 1), (elf32.pFilesz, 221)]
  let shdr (name type addr offset size : Nat) := headerWith ident 40
    [(elf32.shName, name), (elf32.shType, type), (elf32.shAddr, addr), (elf32.shOffset, offset),
      (elf32.shSize, size)]
  -- the strings are ".plt" at 1 and ".shstrtab" at 6
  elfMagic ++ [1, 2] ++ ehdr.drop 6 ++ phdr ++
    shdr 0 0 0 0 0 ++ shdr 1 1 0x1000 0 0x40 ++ shdr 6 3 0 204 17 ++
    [0x00, 0x2E, 0x70, 0x6C, 0x74, 0x00, 0x2E, 0x73, 0x68, 0x73, 0x74, 0x72, 0x74, 0x61, 0x62,
      0x00, 0x00]

/-- The library with one segment. -/
def library : Contents Byte := ⟨libraryBytes 1, by decide +kernel⟩

/-- The library without segments, cut off in the header of its `.plt`. -/
def damagedLibrary : Contents Byte := ⟨(libraryBytes 0).take 130, by decide +kernel⟩

/-- A host that finds no module, over the files of the device. -/
def filesHost (files : Text → Option (Contents Byte)) : Host :=
  Host.reading ⟨fun _ => none, fun _ => [], fun _ => none⟩ files

section Range

variable {host : Host} {files : Text → Option (Contents Byte)} {path : Text}
variable {contents : Contents Byte} {ident : ElfIdent} {reader : Elfio}

theorem getPltRange_reading (hfile : files path = some contents) :
    getPltRange (host.reading files) path =
      match elfioLoad contents with
      | none => (0, 0)
      | some reader => pltRangeOf reader.ident reader.sections := by
  unfold getPltRange Host.reading loadElfFrom pltRangeOf Elfio.sectionNamed
  dsimp only
  rw [hfile, Option.bind_some]
  cases elfioLoad contents with
  | none => rfl
  | some reader =>
      rw [Option.map_some]
      dsimp only
      cases reader.sections.find? fun sec => sec.name.map Byte.toChar == ".plt".toList <;> rfl

theorem Identified.unique {other : ElfIdent} (hident : Identified contents ident)
    (hother : Identified contents other) : ident = other :=
  Option.some.inj (hident.ident.symm.trans hother.ident)

/-- The sections that a loaded file has. -/
theorem Identified.sections_eq (hident : Identified contents ident)
    (hload : elfioLoad contents = some reader) :
    reader.ident = ident ∧ ∃ stream : InputStream Byte, stream.contents = contents ∧
      stream.failed = false ∧
      reader.sections = (loadSections ident (fileHeader contents ident) stream).1 := by
  obtain ⟨stream, hcontents, hgood, heq⟩ := hident.elfioLoad_eq
  obtain ⟨segments, -, rfl⟩ := Option.map_eq_some_iff.mp (heq.symm.trans hload)
  exact ⟨rfl, stream, hcontents, hgood, rfl⟩

theorem Identified.sections_intact (hident : Identified contents ident)
    (hload : elfioLoad contents = some reader) (hintact : SectionsIntact contents ident) :
    reader.ident = ident ∧ reader.sections = fileSections contents ident := by
  obtain ⟨hreader, stream, hcontents, hgood, hsections⟩ := hident.sections_eq hload
  exact ⟨hreader, hsections.trans (loadSections_fst hcontents hgood hintact)⟩

/-- For a file with segments, the range is the one its section table declares if
everything lies inside the file, and empty otherwise. -/
theorem getPltRange_declared (hfile : files path = some contents)
    (hident : Identified contents ident) (hsegments : segmentCount contents ident ≠ 0) :
    (SectionsIntact contents ident ∧ SegmentsIntact contents ident →
      getPltRange (host.reading files) path =
        pltRangeOf ident (fileSections contents ident)) ∧
    (¬ (SectionsIntact contents ident ∧ SegmentsIntact contents ident) →
      getPltRange (host.reading files) path = (0, 0)) := by
  have hsome := hident.isSome_iff
  rw [or_iff_right hsegments] at hsome
  rw [getPltRange_reading hfile]
  constructor
  · intro hintact
    obtain ⟨reader, hload⟩ := Option.isSome_iff_exists.mp (hsome.mpr hintact)
    obtain ⟨hreader, hsections⟩ := hident.sections_intact hload hintact.1
    rw [hload]
    dsimp only
    rw [hreader, hsections]
  · intro hdamaged
    have hnone : elfioLoad contents = none := by
      rw [← Option.not_isSome_iff_eq_none, hsome]
      exact hdamaged
    rw [hnone]

/-- The library is intact; its `.plt` is found through the swapped fields. -/
theorem getPltRange_library :
    getPltRange (filesHost fun _ => some library) "lib".toList = (0x1000, 0x1040) := by
  have hident : Identified library ⟨.elfclass32, .elfdata2msb⟩ :=
    ⟨by decide +kernel, by decide +kernel⟩
  exact ((getPltRange_declared rfl hident (by decide +kernel)).1 (by decide +kernel)).trans
    (by decide +kernel)

end Range

/-! ## Damaged section tables -/

section Damaged

variable {contents : Contents Byte} {ident : ElfIdent} {reader : Elfio}

theorem Section.named_header (ident : ElfIdent) (stringSection : Option Section)
    (sec : Section) : (sec.named ident stringSection).header = sec.header := by
  unfold Section.named
  split <;> rfl

theorem Section.named_data (ident : ElfIdent) (stringSection : Option Section)
    (sec : Section) : (sec.named ident stringSection).data = sec.data := by
  unfold Section.named
  split <;> rfl

/-- Naming sections keeps their headers and data. -/
theorem nameSections_getElem {sections : List Section} {i : Nat} {sec : Section}
    (hsection : sections[i]? = some sec) :
    ∃ named, (nameSections contents ident sections)[i]? = some named ∧
      named.header = sec.header ∧ named.data = sec.data := by
  unfold nameSections
  dsimp only
  split
  · rw [List.getElem?_map, hsection]
    exact ⟨_, rfl, Section.named_header .., Section.named_data ..⟩
  · exact ⟨sec, hsection, rfl, rfl⟩

/-- In every loaded file the section table is right up to the first entry that
does not lie inside the file with its data, and zeros after it. -/
theorem section_after_damage (hload : elfioLoad contents = some reader)
    (hread : SectionTableRead contents reader.ident) {i : Nat}
    (hi : i < sectionCount contents reader.ident) :
    ((∀ j ≤ i, SectionIntact reader.ident contents (sectionBase contents reader.ident j)) →
      ∃ sec, reader.sections[i]? = some sec ∧
        sec.header =
          contents.slice (sectionBase contents reader.ident i) reader.ident.fileClass.shdrSize ∧
        sec.data = (sectionAt reader.ident contents (sectionBase contents reader.ident i)).data) ∧
    ((∃ j < i, ¬ SectionIntact reader.ident contents (sectionBase contents reader.ident j)) →
      ∃ sec, reader.sections[i]? = some sec ∧
        sec.header = List.replicate reader.ident.fileClass.shdrSize 0 ∧ sec.data = none) := by
  have hident := elfioLoad_identified hload
  obtain ⟨-, stream, rfl, hgood, hsections⟩ := hident.sections_eq hload
  rw [loadSections_eq, if_pos hread] at hsections
  dsimp only at hsections
  rw [hsections]
  constructor
  · intro hintact
    have hentry : (readSectionEntries stream.contents reader.ident stream).1[i]? = _ :=
      loadSectionEntries_getElem_intact hgood hi (by
        intro j hj
        rw [Nat.zero_add]
        exact hintact j hj)
    rw [Nat.zero_add] at hentry
    exact nameSections_getElem hentry
  · rintro ⟨j, hj, hbad⟩
    have hentry : (readSectionEntries stream.contents reader.ident stream).1[i]? = _ :=
      loadSectionEntries_getElem_zero hi hj (by rwa [Nat.zero_add])
    exact nameSections_getElem hentry

theorem section_after_damage_library :
    ∃ sec, ((elfioLoad damagedLibrary).get (by decide +kernel)).sections[2]? = some sec ∧
      sec.header = List.replicate 40 0 ∧ sec.data = none :=
  (section_after_damage (Option.some_get _).symm (by decide +kernel) (by decide +kernel)).2
    ⟨1, by decide, by decide +kernel⟩

end Damaged

/-! ## Truncated files -/

section Truncated

variable {whole : Contents Byte} {ident : ElfIdent} {length : Nat}

theorem fileHeader_cut (hcovers : (whole.cut length).Covers 0 ident.fileClass.ehdrSize) :
    fileHeader (whole.cut length) ident = fileHeader whole ident :=
  hcovers.slice_cut

theorem Identified.of_cut (hident : Identified (whole.cut length) ident) :
    Identified whole ident := by
  have hfirst : (whole.cut length).Covers 0 eiNident := by
    have hheader := hident.header
    have hsize := ehdrSize_ge ident.fileClass
    unfold Contents.Covers at hheader ⊢
    omega
  refine ⟨hident.header.of_cut, ?_⟩
  rw [← hfirst.slice_cut]
  exact hident.ident

/-- A section read from the truncated file has the header it has in the whole
file, and the same data or none. -/
theorem sectionAt_cut {base : Nat} (hintact : SectionIntact ident (whole.cut length) base) :
    (sectionAt ident (whole.cut length) base).header = (sectionAt ident whole base).header ∧
      ((sectionAt ident (whole.cut length) base).data = none ∨
        (sectionAt ident (whole.cut length) base).data = (sectionAt ident whole base).data) := by
  have hslice := hintact.header.slice_cut
  refine ⟨hslice, ?_⟩
  have hdata := hintact.data
  unfold sectionAt
  dsimp only
  rw [hslice] at hdata ⊢
  split
  · next hloads =>
      right
      have hle : (whole.cut length).items.length ≤ whole.items.length :=
        List.length_take_le' ..
      rw [if_pos ⟨hloads.1, hloads.2.1, Nat.lt_of_lt_of_le hloads.2.2 hle⟩]
      congr 1
      by_cases hsize : ident.fileClass.shSize.get ident.encoding
          (whole.slice base ident.fileClass.shdrSize) = 0
      · rw [sectionData_of_empty _ hsize, sectionData_of_empty _ hsize]
      · exact ((sectionData_length_iff _ hsize).mp (hdata hloads)).slice_cut
  · exact Or.inl rfl

/-- Two sections with the same header and name. -/
def SameEntry (first second : Section) : Prop :=
  first.header = second.header ∧ first.name = second.name

theorem pltRangeOf_congr {first second : List Section}
    (hsame : List.Forall₂ SameEntry first second) :
    pltRangeOf ident first = pltRangeOf ident second := by
  induction hsame with
  | nil => rfl
  | @cons a b restA restB hhead hrest ih =>
      unfold pltRangeOf at ih ⊢
      rw [List.find?_cons, List.find?_cons, hhead.2]
      cases b.name.map Byte.toChar == ".plt".toList with
      | true =>
          dsimp only
          unfold Section.getAddress Section.getSize
          rw [hhead.1]
      | false => exact ih

theorem pltRangeOf_unnamed {sections : List Section} (hnames : ∀ sec ∈ sections, sec.name = []) :
    pltRangeOf ident sections = (0, 0) := by
  have hnone : (sections.find? fun sec => sec.name.map Byte.toChar == ".plt".toList) = none := by
    rw [List.find?_eq_none]
    intro sec hsec
    rw [hnames sec hsec]
    exact Bool.false_ne_true
  unfold pltRangeOf
  rw [hnone]

/-- A string section gives the same strings once header and data agree. -/
theorem getString_congr {first second : Section} (hheader : first.header = second.header)
    (hdata : first.data = second.data) :
    getString ident (some first) = getString ident (some second) := by
  funext index
  unfold getString Section.getSize
  rw [Option.bind_some, Option.bind_some, hheader, hdata]

theorem getString_of_no_data {sec : Section} (hdata : sec.data = none) (index : Nat) :
    getString ident (some sec) index = none := by
  unfold getString
  rw [Option.bind_some, hdata]
  rfl

/-- A section without name, and the same one in a truncated file. -/
structure CutFrom (first second : Section) : Prop where
  header : first.header = second.header
  data : first.data = none ∨ first.data = second.data
  unnamed : first.name = []
  unnamed' : second.name = []

theorem Section.named_of_none {strings : Option Section} {sec : Section}
    (hstrings : ∀ index, getString ident strings index = none) :
    sec.named ident strings = sec := by
  unfold Section.named
  rw [hstrings]

/-- With the same strings the two sections get the same name. -/
theorem CutFrom.named {first second : Section} {strings strings' : Option Section}
    (hcut : CutFrom first second) (hstrings : getString ident strings = getString ident strings') :
    SameEntry (first.named ident strings) (second.named ident strings') := by
  refine ⟨?_, ?_⟩
  · rw [Section.named_header, Section.named_header, hcut.header]
  · unfold Section.named Section.getNameStringOffset
    rw [hcut.header, hstrings]
    cases getString ident strings' _ with
    | none => exact hcut.unnamed.trans hcut.unnamed'.symm
    | some name => rfl

theorem getElem_range_map {f : Nat → Section} {count index : Nat} :
    ((List.range count).map f)[index]? = if index < count then some (f index) else none := by
  rw [List.getElem?_map]
  split
  · next hlt => rw [List.getElem?_range hlt, Option.map_some]
  · next hge => rw [List.getElem?_eq_none (by simpa using hge), Option.map_none]

/-- Naming either finds the same strings or finds none. -/
theorem nameSections_cutFrom (contents : Contents Byte) {count : Nat}
    {first second : Nat → Section} (hcut : ∀ i < count, CutFrom (first i) (second i)) :
    List.Forall₂ SameEntry (nameSections contents ident ((List.range count).map first))
        (nameSections contents ident ((List.range count).map second)) ∨
      ∀ sec ∈ nameSections contents ident ((List.range count).map first), sec.name = [] := by
  have hunnamed (strings : Option Section)
      (hstrings : ∀ offset, getString ident strings offset = none) :
      ∀ sec ∈ ((List.range count).map first).map (Section.named ident strings),
        sec.name = [] := by
    intro sec hsec
    rw [List.map_map] at hsec
    obtain ⟨i, hi, rfl⟩ := List.mem_map.mp hsec
    rw [Function.comp_apply, Section.named_of_none hstrings]
    exact (hcut i (List.mem_range.mp hi)).unnamed
  unfold nameSections
  dsimp only
  split
  · rw [getElem_range_map, getElem_range_map]
    split
    · next hindex =>
        have hstrings := hcut _ hindex
        rcases hstrings.data with hnone | hsame
        · exact Or.inr (hunnamed _ (getString_of_no_data hnone))
        · left
          rw [List.map_map, List.map_map, List.forall₂_map_left_iff, List.forall₂_map_right_iff,
            List.forall₂_same]
          intro i hi
          exact (hcut i (List.mem_range.mp hi)).named (getString_congr hstrings.header hsame)
    · exact Or.inr (hunnamed none fun _ => rfl)
  · right
    intro sec hsec
    obtain ⟨i, hi, rfl⟩ := List.mem_map.mp hsec
    exact (hcut i (List.mem_range.mp hi)).unnamed

/-- The sections of the truncated file are those of the whole file, or all of
them are without a name. -/
theorem fileSections_cut (hcovers : (whole.cut length).Covers 0 ident.fileClass.ehdrSize)
    (hintact : SectionsIntact (whole.cut length) ident) :
    List.Forall₂ SameEntry (fileSections (whole.cut length) ident) (fileSections whole ident) ∨
      ∀ sec ∈ fileSections (whole.cut length) ident, sec.name = [] := by
  have hheader := fileHeader_cut hcovers
  have hbase : sectionBase (whole.cut length) ident = sectionBase whole ident := by
    funext i
    rw [sectionBase, hheader, sectionBase]
  have hnames : nameSections (whole.cut length) ident = nameSections whole ident := by
    funext sections
    rw [nameSections, hheader, nameSections]
  have hread : SectionTableRead (whole.cut length) ident ↔ SectionTableRead whole ident := by
    rw [SectionTableRead, hheader, SectionTableRead]
  have hcount : sectionCount (whole.cut length) ident = sectionCount whole ident := by
    rw [sectionCount, hheader, sectionCount]
  unfold fileSections
  rw [hbase, hnames, hcount]
  by_cases hwhole : SectionTableRead whole ident
  · rw [if_pos hwhole, if_pos (hread.mpr hwhole)]
    apply nameSections_cutFrom
    intro i hi
    have hsection := hintact (hread.mpr hwhole) i (hcount.symm ▸ hi)
    obtain ⟨hsame, hdata⟩ := sectionAt_cut hsection
    rw [hbase] at hsame hdata
    exact ⟨hsame, hdata, rfl, rfl⟩
  · rw [if_neg hwhole, if_neg (hread.not.mpr hwhole)]
    exact Or.inl List.Forall₂.nil

/-- A truncated file with segments never gives a wrong range: the range of the
whole file, or none. -/
theorem getPltRange_cut {host : Host} {files : Text → Option (Contents Byte)}
    {path cutPath : Text} {reader : Elfio} (hwhole : files path = some whole)
    (hcut : files cutPath = some (whole.cut length)) (hload : elfioLoad whole = some reader)
    (hsegments : segmentCount whole reader.ident ≠ 0) :
    getPltRange (host.reading files) cutPath = (0, 0) ∨
      getPltRange (host.reading files) cutPath = getPltRange (host.reading files) path := by
  rw [getPltRange_reading hcut, getPltRange_reading hwhole, hload]
  have hident := elfioLoad_identified hload
  have hintact : SectionsIntact whole reader.ident :=
    ((hident.isSome_iff.mp (hload ▸ rfl)).resolve_left hsegments).1
  obtain ⟨-, hsections⟩ := hident.sections_intact hload hintact
  dsimp only
  cases hcutLoad : elfioLoad (whole.cut length) with
  | none => exact Or.inl rfl
  | some cutReader =>
      have hcutIdent := elfioLoad_identified hcutLoad
      have hsame : cutReader.ident = reader.ident := hcutIdent.of_cut.unique hident
      rw [hsame] at hcutIdent
      have hheader := fileHeader_cut hcutIdent.header
      have hcutSegments : segmentCount (whole.cut length) reader.ident ≠ 0 := by
        rw [segmentCount, hheader]
        exact hsegments
      have hcutIntact : SectionsIntact (whole.cut length) reader.ident :=
        ((hcutIdent.isSome_iff.mp (hcutLoad ▸ rfl)).resolve_left hcutSegments).1
      obtain ⟨-, hcutSections⟩ := hcutIdent.sections_intact hcutLoad hcutIntact
      dsimp only
      rw [hsame, hsections, hcutSections]
      rcases fileSections_cut hcutIdent.header hcutIntact with hentries | hunnamed
      · exact Or.inr (pltRangeOf_congr hentries)
      · exact Or.inl (pltRangeOf_unnamed hunnamed)

theorem getPltRange_cut_library :
    let host := filesHost fun path =>
      if path = [] then some library else some (library.cut 220)
    getPltRange host "cut".toList = (0, 0) ∨
      getPltRange host "cut".toList = getPltRange host [] :=
  getPltRange_cut rfl rfl (Option.some_get (by decide +kernel : (elfioLoad library).isSome)).symm
    (by decide +kernel)

end Truncated

end GumTVM
