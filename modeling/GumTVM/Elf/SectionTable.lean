import GumTVM.Elf.Loader

/-!
# The section table of a file

What the section table says is read off the contents directly. The loader finds
it as long as its stream has not failed; from the first entry that does not lie
inside the file with its data, it leaves headers of zeros.
-/

namespace GumTVM

open Foundation

/-- The type and size of a section for which data is read. -/
def LoadsData (ident : ElfIdent) (header : List Byte) (streamSize : Nat) : Prop :=
  ident.fileClass.shType.get ident.encoding header ≠ shtNull ∧
    ident.fileClass.shType.get ident.encoding header ≠ shtNobits ∧
    ident.fileClass.shSize.get ident.encoding header < streamSize

instance (ident : ElfIdent) (header : List Byte) (streamSize : Nat) :
    Decidable (LoadsData ident header streamSize) :=
  inferInstanceAs (Decidable (_ ∧ _ ∧ _))

/-- The data of a section, as its header places it. -/
def sectionData (ident : ElfIdent) (contents : Contents Byte) (header : List Byte) : List Byte :=
  contents.slice (ident.fileClass.shOffset.get ident.encoding header)
    (ident.fileClass.shSize.get ident.encoding header)

/-- The section whose header stands at a place of the file. -/
def sectionAt (ident : ElfIdent) (contents : Contents Byte) (base : Nat) : Section :=
  let header := contents.slice base ident.fileClass.shdrSize
  { header
    data := if LoadsData ident header contents.items.length then
      some (sectionData ident contents header) else none
    name := [] }

/-- The header lies inside the file, and the data too where data is read. -/
structure SectionIntact (ident : ElfIdent) (contents : Contents Byte) (base : Nat) : Prop where
  header : contents.Covers base ident.fileClass.shdrSize
  data : LoadsData ident (contents.slice base ident.fileClass.shdrSize) contents.items.length →
    (sectionData ident contents (contents.slice base ident.fileClass.shdrSize)).length =
      ident.fileClass.shSize.get ident.encoding (contents.slice base ident.fileClass.shdrSize)

instance (ident : ElfIdent) (contents : Contents Byte) (base : Nat) :
    Decidable (SectionIntact ident contents base) :=
  decidable_of_iff (_ ∧ (_ → _)) ⟨fun h => ⟨h.1, h.2⟩, fun h => ⟨h.1, h.2⟩⟩

/-- The section that a failed stream leaves behind. -/
def zeroSection (ident : ElfIdent) : Section where
  header := List.replicate ident.fileClass.shdrSize 0
  data := none
  name := []

theorem ElfClass.shdrSize_pos (fileClass : ElfClass) : 0 < fileClass.shdrSize := by
  cases fileClass <;> decide

theorem ElfClass.phdrSize_pos (fileClass : ElfClass) : 0 < fileClass.phdrSize := by
  cases fileClass <;> decide

theorem not_loadsData_zero (ident : ElfIdent) (streamSize : Nat) :
    ¬ LoadsData ident (List.replicate ident.fileClass.shdrSize 0) streamSize := by
  obtain ⟨fileClass, encoding⟩ := ident
  intro hloads
  apply hloads.1
  cases fileClass <;> cases encoding <;> rfl

/-- A header places its data in the file unless its offset is out of range. -/
theorem shOffset_lt {ident : ElfIdent} {header : List Byte}
    (hlength : header.length = ident.fileClass.shdrSize) :
    ident.fileClass.shOffset.get ident.encoding header < 2 ^ 64 := by
  have hstop : ident.fileClass.shOffset.stop ≤ header.length := by
    rw [hlength]
    exact ident.fileClass.shdr_fields_stop _ (by simp)
  calc ident.fileClass.shOffset.get ident.encoding header
      < 256 ^ ident.fileClass.shOffset.width.bytes := HeaderField.get_lt hstop
    _ ≤ 2 ^ 64 := by cases ident.fileClass <;> decide

/-! ## One section -/

section Load

variable {ident : ElfIdent} {stream : InputStream Byte} {header : List Byte}

theorem loadData_eq_of_not_loads {streamSize : Nat} (hloads : ¬ LoadsData ident header streamSize) :
    Section.loadData ident header streamSize stream = (none, stream) := by
  unfold Section.loadData
  exact if_neg hloads

theorem loadData_eq_of_empty {streamSize : Nat} (hloads : LoadsData ident header streamSize)
    (hsize : ident.fileClass.shSize.get ident.encoding header = 0) :
    Section.loadData ident header streamSize stream = (some [], stream) := by
  unfold Section.loadData
  exact (if_pos hloads).trans (if_neg (not_not.mpr hsize))

theorem loadData_eq_of_loads {streamSize : Nat} (hloads : LoadsData ident header streamSize)
    (hsize : ident.fileClass.shSize.get ident.encoding header ≠ 0) :
    Section.loadData ident header streamSize stream =
      let read := stream.readAt
        (BitVec.ofNat 64 (ident.fileClass.shOffset.get ident.encoding header))
        (ident.fileClass.shSize.get ident.encoding header)
      (if read.1.length ≠ ident.fileClass.shSize.get ident.encoding header then none
        else some read.1, read.2) := by
  unfold Section.loadData
  refine (if_pos hloads).trans ((if_pos hsize).trans ?_)
  dsimp only
  split <;> rfl

@[simp] theorem loadData_contents (ident : ElfIdent) (header : List Byte) (streamSize : Nat)
    (stream : InputStream Byte) :
    (Section.loadData ident header streamSize stream).2.contents = stream.contents := by
  by_cases hloads : LoadsData ident header streamSize
  · by_cases hsize : ident.fileClass.shSize.get ident.encoding header = 0
    · rw [loadData_eq_of_empty hloads hsize]
    · rw [loadData_eq_of_loads hloads hsize]
      exact InputStream.readAt_contents ..
  · rw [loadData_eq_of_not_loads hloads]

theorem loadData_of_failed {streamSize : Nat} (hfailed : stream.failed = true) :
    (Section.loadData ident header streamSize stream).2 = stream := by
  by_cases hloads : LoadsData ident header streamSize
  · by_cases hsize : ident.fileClass.shSize.get ident.encoding header = 0
    · rw [loadData_eq_of_empty hloads hsize]
    · rw [loadData_eq_of_loads hloads hsize, InputStream.readAt_of_failed hfailed]
  · rw [loadData_eq_of_not_loads hloads]

/-- Data lies in the file when its bytes can be covered. -/
theorem sectionData_length_iff (contents : Contents Byte)
    (hsize : ident.fileClass.shSize.get ident.encoding header ≠ 0) :
    (sectionData ident contents header).length =
        ident.fileClass.shSize.get ident.encoding header ↔
      contents.Covers (ident.fileClass.shOffset.get ident.encoding header)
        (ident.fileClass.shSize.get ident.encoding header) :=
  Contents.slice_length_eq_iff (Nat.pos_of_ne_zero hsize)

theorem sectionData_of_empty (contents : Contents Byte)
    (hsize : ident.fileClass.shSize.get ident.encoding header = 0) :
    sectionData ident contents header = [] := by
  simp [sectionData, Contents.slice, hsize]

/-- Reading the data leaves a good stream good exactly when the data is there. -/
theorem loadData_good_iff (hlength : header.length = ident.fileClass.shdrSize)
    (hgood : stream.failed = false) (streamSize : Nat) :
    (Section.loadData ident header streamSize stream).2.failed = false ↔
      (LoadsData ident header streamSize →
        (sectionData ident stream.contents header).length =
          ident.fileClass.shSize.get ident.encoding header) := by
  by_cases hloads : LoadsData ident header streamSize
  · rw [forall_prop_of_true hloads]
    by_cases hsize : ident.fileClass.shSize.get ident.encoding header = 0
    · rw [loadData_eq_of_empty hloads hsize, sectionData_of_empty _ hsize, hsize]
      exact iff_of_true hgood rfl
    · rw [loadData_eq_of_loads hloads hsize, sectionData_length_iff _ hsize]
      dsimp only
      rw [InputStream.readAt_good_iff _ _ (Nat.pos_of_ne_zero hsize), and_iff_right hgood,
        BitVec.toNat_ofNat, Nat.mod_eq_of_lt (shOffset_lt hlength)]
  · rw [loadData_eq_of_not_loads hloads]
    exact iff_of_true hgood fun hloads' => absurd hloads' hloads

/-- Data that is there is read. -/
theorem loadData_fst (hlength : header.length = ident.fileClass.shdrSize) {streamSize : Nat}
    (hstream : stream.failed = false)
    (hgood : (Section.loadData ident header streamSize stream).2.failed = false) :
    (Section.loadData ident header streamSize stream).1 =
      if LoadsData ident header streamSize then some (sectionData ident stream.contents header)
      else none := by
  rw [loadData_good_iff hlength hstream] at hgood
  split
  · next hloads =>
      by_cases hsize : ident.fileClass.shSize.get ident.encoding header = 0
      · rw [loadData_eq_of_empty hloads hsize, sectionData_of_empty _ hsize]
      · have hdata := hgood hloads
        have hoffset := Nat.mod_eq_of_lt (shOffset_lt hlength)
        have hcovers : stream.contents.Covers
            (BitVec.ofNat 64 (ident.fileClass.shOffset.get ident.encoding header)).toNat
            (ident.fileClass.shSize.get ident.encoding header) := by
          rw [BitVec.toNat_ofNat, hoffset]
          exact (sectionData_length_iff _ hsize).mp hdata
        rw [loadData_eq_of_loads hloads hsize, InputStream.readAt_covered hstream hcovers,
          BitVec.toNat_ofNat, hoffset]
        exact if_neg (not_not.mpr hdata)
  · next hloads => rw [loadData_eq_of_not_loads hloads]

/-- After the header was read, the section has it in full. -/
theorem Section.load_covered {headerOffset : BitVec 64} (hgood : stream.failed = false)
    (hcovers : stream.contents.Covers headerOffset.toNat ident.fileClass.shdrSize) :
    ∃ after : InputStream Byte, after.contents = stream.contents ∧ after.failed = false ∧
      Section.load ident stream headerOffset =
        let header := stream.contents.slice headerOffset.toNat ident.fileClass.shdrSize
        let loaded := Section.loadData ident header stream.contents.items.length after
        (⟨header, loaded.1, []⟩, loaded.2) := by
  have hsize := stream.tellg_seekEnd
  rw [hgood, if_neg Bool.false_ne_true] at hsize
  have hread : stream.seekEnd.readAt headerOffset ident.fileClass.shdrSize = _ :=
    InputStream.readAt_covered (stream.seekEnd_failed.trans hgood)
      (by rwa [InputStream.seekEnd_contents])
  rw [InputStream.seekEnd_contents] at hread
  refine ⟨{ stream with position := headerOffset.toNat + ident.fileClass.shdrSize },
    rfl, hgood, ?_⟩
  unfold Section.load
  dsimp only
  rw [hsize, hread]
  simp [hcovers.slice_length]

@[simp] theorem Section.load_contents (ident : ElfIdent) (stream : InputStream Byte)
    (headerOffset : BitVec 64) :
    (Section.load ident stream headerOffset).2.contents = stream.contents := by
  simp [Section.load]

/-- A failed stream leaves a header of zeros and no data. -/
theorem Section.load_of_failed {headerOffset : BitVec 64} (hfailed : stream.failed = true) :
    Section.load ident stream headerOffset = (zeroSection ident, stream) := by
  unfold Section.load
  dsimp only
  rw [InputStream.seekEnd_of_failed hfailed, InputStream.readAt_of_failed hfailed]
  dsimp only
  rw [List.nil_append, List.length_nil, Nat.sub_zero]
  rw [loadData_eq_of_not_loads (not_loadsData_zero ident _)]
  rfl

/-- A good stream stays good over an entry exactly when the entry is intact. -/
theorem Section.load_good_iff {headerOffset : BitVec 64} :
    (Section.load ident stream headerOffset).2.failed = false ↔
      stream.failed = false ∧ SectionIntact ident stream.contents headerOffset.toNat := by
  cases hfailed : stream.failed with
  | true =>
      rw [Section.load_of_failed hfailed]
      simp [hfailed]
  | false =>
      by_cases hcovers : stream.contents.Covers headerOffset.toNat ident.fileClass.shdrSize
      · obtain ⟨after, hcontents, hafter, hload⟩ := Section.load_covered hfailed hcovers
        rw [hload]
        dsimp only
        rw [loadData_good_iff hcovers.slice_length hafter, hcontents]
        exact ⟨fun hdata => ⟨rfl, hcovers, hdata⟩, fun hintact => hintact.2.data⟩
      · have hcovers' : ¬ stream.seekEnd.contents.Covers headerOffset.toNat
            ident.fileClass.shdrSize := by rwa [InputStream.seekEnd_contents]
        have hshort := InputStream.readAt_short ident.fileClass.shdrSize_pos hcovers'
        refine iff_of_false ?_ fun hintact => hcovers hintact.2.header
        unfold Section.load
        dsimp only
        rw [loadData_of_failed hshort.1, hshort.1]
        exact Bool.noConfusion

/-- The section of an intact entry is what the file says. -/
theorem Section.load_fst {headerOffset : BitVec 64}
    (hgood : (Section.load ident stream headerOffset).2.failed = false) :
    (Section.load ident stream headerOffset).1 =
      sectionAt ident stream.contents headerOffset.toNat := by
  obtain ⟨hstream, hintact⟩ := Section.load_good_iff.mp hgood
  obtain ⟨after, hcontents, hafter, hload⟩ := Section.load_covered hstream hintact.header
  rw [hload] at hgood ⊢
  dsimp only at hgood ⊢
  rw [loadData_fst hintact.header.slice_length hafter hgood, hcontents]
  rfl

/-- Setting the address a section has changes nothing. -/
theorem Section.setAddress_getAddress {sec : Section}
    (hlength : sec.header.length = ident.fileClass.shdrSize) :
    sec.setAddress ident (sec.getAddress ident) = sec := by
  have hstop : ident.fileClass.shAddr.stop ≤ sec.header.length := by
    rw [hlength]
    exact ident.fileClass.shdr_fields_stop _ (by simp)
  unfold Section.setAddress Section.getAddress
  rw [HeaderField.set_get hstop]

/-- The header of a section always has its full size. -/
theorem Section.load_header_length (ident : ElfIdent) (stream : InputStream Byte)
    (headerOffset : BitVec 64) :
    (Section.load ident stream headerOffset).1.header.length = ident.fileClass.shdrSize := by
  have hle := (stream.seekEnd).readAt_length_le headerOffset ident.fileClass.shdrSize
  unfold Section.load
  dsimp only
  rw [List.length_append, List.length_replicate]
  omega

end Load

/-! ## The table -/

/-- The place of an entry of a table. -/
def entryBase (offset entrySize i : Nat) : Nat := (offset + i * entrySize) % 2 ^ 64

section Entries

variable {ident : ElfIdent} {stream : InputStream Byte} {offset entrySize : Nat}

theorem loadSectionEntries_succ (i count : Nat) :
    loadSectionEntries ident offset entrySize i (count + 1) stream =
      let loaded := Section.load ident stream (BitVec.ofNat 64 (offset + i * entrySize))
      let rest := loadSectionEntries ident offset entrySize (i + 1) count loaded.2
      (loaded.1 :: rest.1, rest.2) := by
  rw [loadSectionEntries]
  dsimp only
  rw [Section.setAddress_getAddress (Section.load_header_length ..)]

theorem loadSectionEntries_contents (ident : ElfIdent) (offset entrySize i count : Nat)
    (stream : InputStream Byte) :
    (loadSectionEntries ident offset entrySize i count stream).2.contents = stream.contents := by
  induction count generalizing i stream with
  | zero => rfl
  | succ count ih =>
      rw [loadSectionEntries_succ]
      exact (ih ..).trans (Section.load_contents ..)

theorem loadSectionEntries_length (ident : ElfIdent) (offset entrySize i count : Nat)
    (stream : InputStream Byte) :
    (loadSectionEntries ident offset entrySize i count stream).1.length = count := by
  induction count generalizing i stream with
  | zero => rfl
  | succ count ih =>
      rw [loadSectionEntries_succ, List.length_cons, ih]

theorem loadSectionEntries_of_failed (hfailed : stream.failed = true) (i count : Nat) :
    loadSectionEntries ident offset entrySize i count stream =
      (List.replicate count (zeroSection ident), stream) := by
  induction count generalizing i with
  | zero => rfl
  | succ count ih =>
      rw [loadSectionEntries_succ, Section.load_of_failed hfailed]
      dsimp only
      rw [ih, List.replicate_succ]

/-- The stream is good after the table exactly when every entry is intact. -/
theorem loadSectionEntries_good_iff (i count : Nat) :
    (loadSectionEntries ident offset entrySize i count stream).2.failed = false ↔
      stream.failed = false ∧
        ∀ k < count, SectionIntact ident stream.contents (entryBase offset entrySize (i + k)) := by
  induction count generalizing i stream with
  | zero => simp [loadSectionEntries]
  | succ count ih =>
      rw [loadSectionEntries_succ]
      dsimp only
      rw [ih, Section.load_good_iff, Section.load_contents, BitVec.toNat_ofNat, and_assoc,
        Nat.forall_lt_succ_left']
      simp only [entryBase, Nat.add_zero, Nat.add_assoc, Nat.add_comm 1]

/-- Up to the first entry that is not intact the table is read as it stands. -/
theorem loadSectionEntries_getElem_intact (hstream : stream.failed = false) {i count k : Nat}
    (hk : k < count)
    (hintact : ∀ j ≤ k, SectionIntact ident stream.contents (entryBase offset entrySize (i + j))) :
    (loadSectionEntries ident offset entrySize i count stream).1[k]? =
      some (sectionAt ident stream.contents (entryBase offset entrySize (i + k))) := by
  induction count generalizing i k stream with
  | zero => cases hk
  | succ count ih =>
      have hbase : (BitVec.ofNat 64 (offset + i * entrySize)).toNat =
          entryBase offset entrySize i := BitVec.toNat_ofNat ..
      have hload : (Section.load ident stream
          (BitVec.ofNat 64 (offset + i * entrySize))).2.failed = false := by
        rw [Section.load_good_iff, hbase]
        exact ⟨hstream, hintact 0 (Nat.zero_le k)⟩
      rw [loadSectionEntries_succ]
      cases k with
      | zero =>
          change some _ = _
          rw [Section.load_fst hload, hbase, Nat.add_zero]
      | succ k =>
          have hshift (j : Nat) : i + 1 + j = i + (j + 1) := by omega
          have htail : ∀ j ≤ k, SectionIntact ident (Section.load ident stream
              (BitVec.ofNat 64 (offset + i * entrySize))).2.contents
              (entryBase offset entrySize (i + 1 + j)) := by
            intro j hj
            rw [Section.load_contents, hshift]
            exact hintact (j + 1) (Nat.succ_le_succ hj)
          have hrest := ih hload (Nat.lt_of_succ_lt_succ hk) htail
          rw [Section.load_contents, hshift] at hrest
          exact hrest

/-- After an entry that is not intact, the table is zeros. -/
theorem loadSectionEntries_getElem_zero {i count j k : Nat} (hk : k < count) (hj : j < k)
    (hbad : ¬ SectionIntact ident stream.contents (entryBase offset entrySize (i + j))) :
    (loadSectionEntries ident offset entrySize i count stream).1[k]? =
      some (zeroSection ident) := by
  induction count generalizing i j k stream with
  | zero => cases hk
  | succ count ih =>
      obtain ⟨k, rfl⟩ := Nat.exists_eq_succ_of_ne_zero (Nat.ne_of_gt (Nat.zero_lt_of_lt hj))
      rw [loadSectionEntries_succ]
      change (loadSectionEntries ident offset entrySize (i + 1) count _).1[k]? = _
      cases j with
      | zero =>
          have hfailed : (Section.load ident stream
              (BitVec.ofNat 64 (offset + i * entrySize))).2.failed = true := by
            rw [← Bool.not_eq_false, Section.load_good_iff, BitVec.toNat_ofNat]
            exact fun hgood => hbad hgood.2
          rw [loadSectionEntries_of_failed hfailed]
          exact List.getElem?_replicate_of_lt (Nat.lt_of_succ_lt_succ hk)
      | succ j =>
          apply ih (Nat.lt_of_succ_lt_succ hk) (Nat.lt_of_succ_lt_succ hj)
          rw [Section.load_contents]
          rwa [show i + 1 + j = i + (j + 1) by omega]

/-- With every entry intact, the table is the one in the file. -/
theorem loadSectionEntries_intact (hstream : stream.failed = false) {count : Nat}
    (hintact : ∀ k < count, SectionIntact ident stream.contents (entryBase offset entrySize k)) :
    (loadSectionEntries ident offset entrySize 0 count stream).1 =
      (List.range count).map
        fun k => sectionAt ident stream.contents (entryBase offset entrySize k) := by
  apply List.ext_getElem?
  intro k
  by_cases hk : k < count
  · rw [loadSectionEntries_getElem_intact hstream hk, Nat.zero_add]
    · simp [hk]
    · intro j hj
      rw [Nat.zero_add]
      exact hintact j (Nat.lt_of_le_of_lt hj hk)
  · rw [List.getElem?_eq_none, List.getElem?_eq_none]
    · simpa using hk
    · rw [loadSectionEntries_length]
      exact Nat.le_of_not_lt hk

end Entries

end GumTVM
