import GumTVM.Elf.SectionTable

/-!
# Which files are loaded

`elfio::load` accepts a file exactly when its identification and header are
there, and, if it has segments, everything that was read before and with them
lies inside the file.
-/

namespace GumTVM

open Foundation

/-! ## Segments -/

/-- A segment whose data is looked for. -/
def SeeksData (ident : ElfIdent) (header : List Byte) : Prop :=
  ident.fileClass.pType.get ident.encoding header ≠ ptNull ∧
    ident.fileClass.pFilesz.get ident.encoding header ≠ 0

instance (ident : ElfIdent) (header : List Byte) : Decidable (SeeksData ident header) :=
  inferInstanceAs (Decidable (_ ∧ _))

/-- The header lies inside the file. Its data can be sought, and lies inside the
file unless it claims to be larger than the file. -/
structure SegmentIntact (ident : ElfIdent) (contents : Contents Byte) (base : Nat) : Prop where
  header : contents.Covers base ident.fileClass.phdrSize
  seeks : SeeksData ident (contents.slice base ident.fileClass.phdrSize) →
    ident.fileClass.pOffset.get ident.encoding
      (contents.slice base ident.fileClass.phdrSize) < 2 ^ 63
  data : SeeksData ident (contents.slice base ident.fileClass.phdrSize) →
    ident.fileClass.pFilesz.get ident.encoding
      (contents.slice base ident.fileClass.phdrSize) ≤ contents.items.length →
    contents.Covers
      (ident.fileClass.pOffset.get ident.encoding (contents.slice base ident.fileClass.phdrSize))
      (ident.fileClass.pFilesz.get ident.encoding (contents.slice base ident.fileClass.phdrSize))

instance (ident : ElfIdent) (contents : Contents Byte) (base : Nat) :
    Decidable (SegmentIntact ident contents base) :=
  decidable_of_iff (_ ∧ (_ → _) ∧ (_ → _ → _))
    ⟨fun h => ⟨h.1, h.2.1, h.2.2⟩, fun h => ⟨h.1, h.2, h.3⟩⟩

/-- A segment was read and the stream is still good. -/
def ReadsGood {β : Type*} (outcome : Option (β × InputStream Byte)) : Prop :=
  ∃ value stream, outcome = some (value, stream) ∧ stream.failed = false

section Segments

variable {ident : ElfIdent} {stream : InputStream Byte} {header : List Byte}

theorem pOffset_lt (hlength : header.length = ident.fileClass.phdrSize) :
    ident.fileClass.pOffset.get ident.encoding header < 2 ^ 64 := by
  have hstop : ident.fileClass.pOffset.stop ≤ header.length := by
    rw [hlength]
    exact ident.fileClass.phdr_fields_stop _ (by simp)
  calc ident.fileClass.pOffset.get ident.encoding header
      < 256 ^ ident.fileClass.pOffset.width.bytes := HeaderField.get_lt hstop
    _ ≤ 2 ^ 64 := by cases ident.fileClass <;> decide

theorem segmentData_of_not_seeks {streamSize : Nat} (hseeks : ¬ SeeksData ident header) :
    Segment.loadData ident header streamSize stream = some (none, stream) := by
  have hskip : ident.fileClass.pType.get ident.encoding header = ptNull ∨
      ident.fileClass.pFilesz.get ident.encoding header = 0 := by
    unfold SeeksData at hseeks
    tauto
  unfold Segment.loadData
  exact if_pos hskip

theorem segmentData_of_seeks {streamSize : Nat} (hseeks : SeeksData ident header) :
    Segment.loadData ident header streamSize stream =
      let sought :=
        stream.seekg (BitVec.ofNat 64 (ident.fileClass.pOffset.get ident.encoding header))
      let size := ident.fileClass.pFilesz.get ident.encoding header
      if size > streamSize then some (none, sought)
      else if (sought.read size).2.failed then none
      else some (some (sought.read size).1, (sought.read size).2) := by
  unfold Segment.loadData
  exact if_neg (not_or.mpr hseeks)

theorem segmentData_contents {streamSize : Nat} {data : Option (List Byte)}
    {after : InputStream Byte}
    (hload : Segment.loadData ident header streamSize stream = some (data, after)) :
    after.contents = stream.contents := by
  by_cases hseeks : SeeksData ident header
  · rw [segmentData_of_seeks hseeks] at hload
    dsimp only at hload
    split at hload
    · obtain ⟨-, rfl⟩ := Prod.mk.inj (Option.some.inj hload)
      exact InputStream.seekg_contents ..
    · split at hload
      · cases hload
      · obtain ⟨-, rfl⟩ := Prod.mk.inj (Option.some.inj hload)
        exact InputStream.readAt_contents ..
  · rw [segmentData_of_not_seeks hseeks] at hload
    obtain ⟨-, rfl⟩ := Prod.mk.inj (Option.some.inj hload)
    rfl

theorem toNat_pOffset (hlength : header.length = ident.fileClass.phdrSize) :
    (BitVec.ofNat 64 (ident.fileClass.pOffset.get ident.encoding header)).toNat =
      ident.fileClass.pOffset.get ident.encoding header := by
  rw [BitVec.toNat_ofNat, Nat.mod_eq_of_lt (pOffset_lt hlength)]

/-- Data that is larger than the file is skipped, but only after the seek. -/
theorem segmentData_good_of_large (hlength : header.length = ident.fileClass.phdrSize)
    {streamSize : Nat} (hseeks : SeeksData ident header)
    (hlarge : ident.fileClass.pFilesz.get ident.encoding header > streamSize) :
    ReadsGood (Segment.loadData ident header streamSize stream) ↔
      stream.failed = false ∧ ident.fileClass.pOffset.get ident.encoding header < 2 ^ 63 := by
  have hsought := stream.seekg_good_iff
    (BitVec.ofNat 64 (ident.fileClass.pOffset.get ident.encoding header))
  rw [toNat_pOffset hlength] at hsought
  rw [segmentData_of_seeks hseeks]
  dsimp only
  rw [if_pos hlarge]
  constructor
  · rintro ⟨_, _, heq, hgood⟩
    obtain ⟨-, rfl⟩ := Prod.mk.inj (Option.some.inj heq)
    exact hsought.mp hgood
  · exact fun hgood => ⟨_, _, rfl, hsought.mpr hgood⟩

theorem segmentData_good_of_fits (hlength : header.length = ident.fileClass.phdrSize)
    {streamSize : Nat} (hseeks : SeeksData ident header)
    (hfits : ident.fileClass.pFilesz.get ident.encoding header ≤ streamSize) :
    ReadsGood (Segment.loadData ident header streamSize stream) ↔
      stream.failed = false ∧
        stream.contents.Covers (ident.fileClass.pOffset.get ident.encoding header)
          (ident.fileClass.pFilesz.get ident.encoding header) := by
  have hread := InputStream.readAt_good_iff stream
    (BitVec.ofNat 64 (ident.fileClass.pOffset.get ident.encoding header))
    (Nat.pos_of_ne_zero hseeks.2)
  rw [toNat_pOffset hlength, InputStream.readAt] at hread
  rw [segmentData_of_seeks hseeks]
  dsimp only
  rw [if_neg (Nat.not_lt.mpr hfits)]
  constructor
  · rintro ⟨_, _, heq, hgood⟩
    split at heq
    · cases heq
    · next hgood => exact hread.mp (eq_false_of_ne_true hgood)
  · intro hgood
    have hcovered := hread.mpr hgood
    rw [if_neg (Bool.not_eq_true _ ▸ hcovered)]
    exact ⟨_, _, rfl, hcovered⟩

theorem segmentData_good_iff (hlength : header.length = ident.fileClass.phdrSize)
    (streamSize : Nat) :
    ReadsGood (Segment.loadData ident header streamSize stream) ↔
      stream.failed = false ∧ (SeeksData ident header →
        ident.fileClass.pOffset.get ident.encoding header < 2 ^ 63) ∧
      (SeeksData ident header →
        ident.fileClass.pFilesz.get ident.encoding header ≤ streamSize →
        stream.contents.Covers (ident.fileClass.pOffset.get ident.encoding header)
          (ident.fileClass.pFilesz.get ident.encoding header)) := by
  by_cases hseeks : SeeksData ident header
  · rw [forall_prop_of_true hseeks, forall_prop_of_true hseeks]
    by_cases hlarge : ident.fileClass.pFilesz.get ident.encoding header > streamSize
    · rw [segmentData_good_of_large hlength hseeks hlarge]
      exact and_congr_right fun _ => (and_iff_left fun hle => absurd hle (by omega)).symm
    · have hfits := Nat.not_lt.mp hlarge
      rw [segmentData_good_of_fits hlength hseeks hfits, forall_prop_of_true hfits]
      refine and_congr_right fun _ => (and_iff_right_of_imp fun hcovers => ?_).symm
      have hshort := stream.contents.length_lt
      unfold Contents.Covers at hcovers
      omega
  · rw [segmentData_of_not_seeks hseeks]
    constructor
    · rintro ⟨_, _, heq, hgood⟩
      obtain ⟨-, rfl⟩ := Prod.mk.inj (Option.some.inj heq)
      exact ⟨hgood, fun h => absurd h hseeks, fun h => absurd h hseeks⟩
    · intro hgood
      exact ⟨_, _, rfl, hgood.1⟩

theorem ReadsGood.map_iff {β γ : Type*} {outcome : Option (β × InputStream Byte)} (f : β → γ) :
    ReadsGood (outcome.map fun (value, after) => (f value, after)) ↔ ReadsGood outcome := by
  constructor
  · rintro ⟨_, _, heq, hgood⟩
    obtain ⟨⟨value, after⟩, hvalue, hmap⟩ := Option.map_eq_some_iff.mp heq
    obtain ⟨-, rfl⟩ := Prod.mk.inj hmap
    exact ⟨value, after, hvalue, hgood⟩
  · rintro ⟨value, after, rfl, hgood⟩
    exact ⟨f value, after, rfl, hgood⟩

/-- A segment is read, leaving the stream good, exactly when it is intact. -/
theorem Segment.load_good_iff {headerOffset : BitVec 64} :
    ReadsGood (Segment.load ident stream headerOffset) ↔
      stream.failed = false ∧ SegmentIntact ident stream.contents headerOffset.toNat := by
  have hread := InputStream.readAt_good_iff stream.seekEnd headerOffset
    ident.fileClass.phdrSize_pos
  rw [InputStream.seekEnd_failed, InputStream.seekEnd_contents] at hread
  have hlength := stream.seekEnd.readAt_length_le headerOffset ident.fileClass.phdrSize
  unfold Segment.load
  dsimp only
  rw [ReadsGood.map_iff fun data => Segment.mk _ data]
  rw [segmentData_good_iff (by
    rw [List.length_append, List.length_replicate]
    omega)]
  rw [hread, InputStream.readAt_contents, InputStream.seekEnd_contents, and_assoc]
  refine and_congr_right fun hgood => ?_
  have hsize := stream.tellg_seekEnd
  rw [hgood, if_neg Bool.false_ne_true] at hsize
  rw [hsize]
  constructor
  · rintro ⟨hcovers, hseeks, hdata⟩
    rw [InputStream.readAt_covered (stream.seekEnd_failed.trans hgood)
      (by rwa [InputStream.seekEnd_contents])] at hseeks hdata
    rw [InputStream.seekEnd_contents, hcovers.slice_length, Nat.sub_self, List.replicate_zero,
      List.append_nil] at hseeks hdata
    exact ⟨hcovers, hseeks, hdata⟩
  · intro hintact
    refine ⟨hintact.header, ?_⟩
    rw [InputStream.readAt_covered (stream.seekEnd_failed.trans hgood)
      (by rw [InputStream.seekEnd_contents]; exact hintact.header)]
    rw [InputStream.seekEnd_contents, hintact.header.slice_length, Nat.sub_self,
      List.replicate_zero, List.append_nil]
    exact ⟨hintact.seeks, hintact.data⟩

theorem Segment.load_contents {headerOffset : BitVec 64} {seg : Segment}
    {after : InputStream Byte}
    (hload : Segment.load ident stream headerOffset = some (seg, after)) :
    after.contents = stream.contents := by
  unfold Segment.load at hload
  dsimp only at hload
  obtain ⟨⟨data, last⟩, hdata, hmap⟩ := Option.map_eq_some_iff.mp hload
  obtain ⟨-, rfl⟩ := Prod.mk.inj hmap
  rw [segmentData_contents hdata, InputStream.readAt_contents, InputStream.seekEnd_contents]

/-- The segment table is read exactly when all its entries are intact. -/
theorem loadSegmentEntries_isSome_iff {offset entrySize : Nat} (i count : Nat) :
    (loadSegmentEntries ident offset entrySize i count stream).isSome ↔
      ∀ k < count, stream.failed = false ∧
        SegmentIntact ident stream.contents (entryBase offset entrySize (i + k)) := by
  induction count generalizing i stream with
  | zero => simp [loadSegmentEntries]
  | succ count ih =>
      have hhead : ReadsGood (Segment.load ident stream
            (BitVec.ofNat 64 (offset + i * entrySize))) ↔
          stream.failed = false ∧
            SegmentIntact ident stream.contents (entryBase offset entrySize (i + 0)) := by
        rw [Segment.load_good_iff, BitVec.toNat_ofNat]
        rfl
      rw [Nat.forall_lt_succ_left', ← hhead, loadSegmentEntries]
      split
      · next hnone =>
          refine iff_of_false Bool.false_ne_true ?_
          rintro ⟨⟨_, _, hsome, -⟩, -⟩
          rw [hnone] at hsome
          cases hsome
      · next seg after hsome =>
          split
          · next hfailed =>
              refine iff_of_false Bool.false_ne_true ?_
              rintro ⟨⟨_, _, heq, hgood⟩, -⟩
              obtain ⟨-, rfl⟩ := Prod.mk.inj (Option.some.inj (hsome.symm.trans heq))
              exact Bool.noConfusion (hfailed.symm.trans hgood)
          · next hgood =>
              have hgood := eq_false_of_ne_true hgood
              have hstream := hhead.mp ⟨seg, after, hsome, hgood⟩
              rw [Option.isSome_map, ih, Segment.load_contents hsome]
              have hshift (k : Nat) : i + 1 + k = i + (k + 1) := by omega
              simp only [hshift, hgood, hstream.1, true_and]
              exact (and_iff_right ⟨seg, after, hsome, hgood⟩).symm

end Segments

/-! ## The whole file -/

/-- The file starts with a complete header that identifies it. -/
structure Identified (contents : Contents Byte) (ident : ElfIdent) : Prop where
  header : contents.Covers 0 ident.fileClass.ehdrSize
  ident : ElfIdent.ofBytes (contents.slice 0 eiNident) = some ident

/-- The header of a file. -/
def fileHeader (contents : Contents Byte) (ident : ElfIdent) : List Byte :=
  contents.slice 0 ident.fileClass.ehdrSize

section Tables

variable (contents : Contents Byte) (ident : ElfIdent)

def sectionCount : Nat := ident.fileClass.eShnum.get ident.encoding (fileHeader contents ident)

def segmentCount : Nat := ident.fileClass.ePhnum.get ident.encoding (fileHeader contents ident)

/-- The section table is left alone when its entries are too small. -/
def SectionTableRead : Prop :=
  ident.fileClass.shdrSize ≤
    ident.fileClass.eShentsize.get ident.encoding (fileHeader contents ident)

instance : Decidable (SectionTableRead contents ident) := inferInstanceAs (Decidable (_ ≤ _))

/-- Where an entry of the section table stands. -/
def sectionBase (i : Nat) : Nat :=
  entryBase (ident.fileClass.eShoff.get ident.encoding (fileHeader contents ident))
    (ident.fileClass.eShentsize.get ident.encoding (fileHeader contents ident)) i

/-- Where an entry of the program header table stands. -/
def segmentBase (i : Nat) : Nat :=
  entryBase (ident.fileClass.ePhoff.get ident.encoding (fileHeader contents ident))
    (ident.fileClass.ePhentsize.get ident.encoding (fileHeader contents ident)) i

/-- Every section that is read lies inside the file. -/
def SectionsIntact : Prop :=
  SectionTableRead contents ident → ∀ i < sectionCount contents ident,
    SectionIntact ident contents (sectionBase contents ident i)

instance : Decidable (SectionsIntact contents ident) := inferInstanceAs (Decidable (_ → _))

/-- The segment table can be read, and every segment lies inside the file. -/
def SegmentsIntact : Prop :=
  ident.fileClass.phdrSize ≤
      ident.fileClass.ePhentsize.get ident.encoding (fileHeader contents ident) ∧
    ∀ i < segmentCount contents ident, SegmentIntact ident contents (segmentBase contents ident i)

instance : Decidable (SegmentsIntact contents ident) := inferInstanceAs (Decidable (_ ∧ _))

/-- Sections with the names that the section header string table has for them. -/
def nameSections (sections : List Section) : List Section :=
  let shstrndx := ident.fileClass.eShstrndx.get ident.encoding (fileHeader contents ident)
  if shstrndx ≠ shnUndef then sections.map (Section.named ident sections[shstrndx]?) else sections

/-- The sections of a file. -/
def fileSections : List Section :=
  if SectionTableRead contents ident then
    nameSections contents ident ((List.range (sectionCount contents ident)).map
      fun i => sectionAt ident contents (sectionBase contents ident i))
  else []

/-- The entries of the section table as a stream delivers them. -/
def readSectionEntries (stream : InputStream Byte) : List Section × InputStream Byte :=
  loadSectionEntries ident
    (ident.fileClass.eShoff.get ident.encoding (fileHeader contents ident))
    (ident.fileClass.eShentsize.get ident.encoding (fileHeader contents ident)) 0
    (sectionCount contents ident) stream

end Tables

section Accept

variable {contents : Contents Byte} {ident : ElfIdent}

theorem ehdrSize_ge (fileClass : ElfClass) : eiNident ≤ fileClass.ehdrSize := by
  cases fileClass <;> decide

/-- Only identified files are loaded. -/
theorem elfioLoad_identified {reader : Elfio} (hload : elfioLoad contents = some reader) :
    Identified contents reader.ident := by
  unfold elfioLoad at hload
  dsimp only at hload
  obtain ⟨ident, hident, hrest⟩ := Option.bind_eq_some_iff.mp hload
  have hfirst : contents.Covers 0 eiNident := by
    by_contra hshort
    have hlength : ((InputStream.opened contents).readAt 0 eiNident).1.length ≠ eiNident :=
      fun hfull => hshort ((InputStream.readAt_full_iff _ _ (by decide)).mp hfull).2
    unfold ElfIdent.ofBytes at hident
    rw [if_pos (Or.inl hlength)] at hident
    cases hident
  have hread : (InputStream.opened contents).readAt 0 eiNident = _ :=
    InputStream.readAt_covered rfl hfirst
  rw [hread] at hident hrest
  split at hrest
  · cases hrest
  · next hlength =>
      obtain ⟨segments, -, rfl⟩ := Option.map_eq_some_iff.mp hrest
      have hsize : 0 < ident.fileClass.ehdrSize :=
        Nat.lt_of_lt_of_le (by decide) (ehdrSize_ge ident.fileClass)
      exact ⟨((InputStream.readAt_full_iff _ _ hsize).mp (not_not.mp hlength)).2, hident⟩

/-- An identified file is loaded from a good stream. -/
theorem Identified.elfioLoad_eq (hident : Identified contents ident) :
    ∃ stream : InputStream Byte, stream.contents = contents ∧ stream.failed = false ∧
      elfioLoad contents =
        let loaded := loadSections ident (fileHeader contents ident) stream
        (loadSegments ident (fileHeader contents ident) loaded.2).map
          fun segments => ⟨ident, fileHeader contents ident, loaded.1, segments⟩ := by
  have hfirst : contents.Covers 0 eiNident := by
    have hheader := hident.header
    have hsize := ehdrSize_ge ident.fileClass
    unfold Contents.Covers at hheader ⊢
    omega
  have hread : (InputStream.opened contents).readAt 0 eiNident =
      (contents.slice 0 eiNident, ⟨contents, eiNident, false⟩) :=
    InputStream.readAt_covered rfl hfirst
  have hheader : (InputStream.mk contents eiNident false).readAt 0 ident.fileClass.ehdrSize =
      (fileHeader contents ident, ⟨contents, 0 + ident.fileClass.ehdrSize, false⟩) :=
    InputStream.readAt_covered rfl hident.header
  refine ⟨⟨contents, 0 + ident.fileClass.ehdrSize, false⟩, rfl, rfl, ?_⟩
  unfold elfioLoad
  rw [hread]
  dsimp only
  rw [hident.ident, Option.bind_some, hheader]
  exact if_neg (not_not.mpr hident.header.slice_length)

/-! ### The tables -/

variable {stream : InputStream Byte}

/-- Either the section table is read and its entries are named, or it is skipped. -/
theorem loadSections_eq (contents : Contents Byte) (ident : ElfIdent)
    (stream : InputStream Byte) :
    loadSections ident (fileHeader contents ident) stream =
      if SectionTableRead contents ident then
        (nameSections contents ident (readSectionEntries contents ident stream).1,
          (readSectionEntries contents ident stream).2)
      else ([], stream) := by
  unfold loadSections
  dsimp only
  by_cases hread : SectionTableRead contents ident
  · have hlarge := Nat.not_lt.mpr hread
    rw [if_pos hread, if_neg fun hsmall => hlarge hsmall.2]
    unfold nameSections
    dsimp only
    split <;> rfl
  · have hsmall := Nat.lt_of_not_le hread
    rw [if_neg hread]
    by_cases hcount : ident.fileClass.eShnum.get ident.encoding (fileHeader contents ident) = 0
    · rw [if_neg fun hnum => hnum.1 hcount, hcount]
      split <;> rfl
    · exact if_pos ⟨hcount, hsmall⟩

theorem loadSections_contents (contents : Contents Byte) (ident : ElfIdent)
    (stream : InputStream Byte) :
    (loadSections ident (fileHeader contents ident) stream).2.contents = stream.contents := by
  rw [loadSections_eq]
  split
  · exact loadSectionEntries_contents ..
  · rfl

/-- The stream survives the section table exactly when the sections are intact. -/
theorem loadSections_good_iff (hcontents : stream.contents = contents)
    (hgood : stream.failed = false) :
    (loadSections ident (fileHeader contents ident) stream).2.failed = false ↔
      SectionsIntact contents ident := by
  rw [loadSections_eq, SectionsIntact]
  split
  · next hread =>
      rw [forall_prop_of_true hread]
      change (readSectionEntries contents ident stream).2.failed = false ↔ _
      rw [readSectionEntries, loadSectionEntries_good_iff, and_iff_right hgood, hcontents]
      simp only [Nat.zero_add]
      rfl
  · next hskip => exact iff_of_true hgood fun hread => absurd hread hskip

/-- Intact sections are loaded as they stand in the file. -/
theorem loadSections_fst (hcontents : stream.contents = contents) (hgood : stream.failed = false)
    (hintact : SectionsIntact contents ident) :
    (loadSections ident (fileHeader contents ident) stream).1 = fileSections contents ident := by
  rw [loadSections_eq, fileSections]
  split
  · next hread =>
      have hentries : (readSectionEntries contents ident stream).1 = _ :=
        loadSectionEntries_intact hgood (by
          rw [hcontents]
          exact hintact hread)
      dsimp only
      rw [hentries, hcontents]
      rfl
  · rfl

/-- Reading the segments succeeds when there are none, or on a good stream when
they are intact. -/
theorem loadSegments_isSome_iff (hcontents : stream.contents = contents) :
    (loadSegments ident (fileHeader contents ident) stream).isSome ↔
      segmentCount contents ident = 0 ∨
        stream.failed = false ∧ SegmentsIntact contents ident := by
  unfold loadSegments
  dsimp only
  split
  · next hsmall =>
      refine iff_of_false Bool.false_ne_true ?_
      rintro (hcount | ⟨-, hintact⟩)
      · exact hsmall.1 hcount
      · exact Nat.not_lt.mpr hintact.1 hsmall.2
  · next hlarge =>
      rw [loadSegmentEntries_isSome_iff, hcontents]
      simp only [Nat.zero_add]
      rcases Nat.eq_zero_or_pos (segmentCount contents ident) with hzero | hpos
      · refine iff_of_true (fun k hk => ?_) (Or.inl hzero)
        change k < segmentCount contents ident at hk
        omega
      · have hentry : ident.fileClass.phdrSize ≤
            ident.fileClass.ePhentsize.get ident.encoding (fileHeader contents ident) :=
          Nat.le_of_not_lt fun hsmall => hlarge ⟨Nat.ne_of_gt hpos, hsmall⟩
        rw [or_iff_right (Nat.ne_of_gt hpos)]
        constructor
        · intro hall
          exact ⟨(hall 0 hpos).1, hentry, fun k hk => (hall k hk).2⟩
        · intro hintact k hk
          exact ⟨hintact.1, hintact.2.2 k hk⟩

/-- An identified file is loaded exactly when, if it has segments, its sections
and segments lie inside it. -/
theorem Identified.isSome_iff (hident : Identified contents ident) :
    (elfioLoad contents).isSome ↔ segmentCount contents ident = 0 ∨
      SectionsIntact contents ident ∧ SegmentsIntact contents ident := by
  obtain ⟨stream, hcontents, hgood, hload⟩ := hident.elfioLoad_eq
  rw [hload]
  dsimp only
  rw [Option.isSome_map, loadSegments_isSome_iff
    ((loadSections_contents contents ident stream).trans hcontents),
    loadSections_good_iff hcontents hgood]

/-- The files that `elfio::load` accepts. -/
theorem elfioLoad_isSome_iff (contents : Contents Byte) :
    (elfioLoad contents).isSome ↔
      ∃ ident, Identified contents ident ∧ (segmentCount contents ident = 0 ∨
        SectionsIntact contents ident ∧ SegmentsIntact contents ident) := by
  constructor
  · intro hsome
    obtain ⟨reader, hreader⟩ := Option.isSome_iff_exists.mp hsome
    have hident := elfioLoad_identified hreader
    exact ⟨reader.ident, hident, hident.isSome_iff.mp hsome⟩
  · rintro ⟨ident, hident, hintact⟩
    exact hident.isSome_iff.mpr hintact

end Accept

end GumTVM
