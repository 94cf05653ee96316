import GumTVM.Foundation.ByteMemory
import GumTVM.Foundation.InputStream
import GumTVM.Host.Process
import Mathlib.Tactic.IntervalCases

/-!
# ELF headers

Headers are kept as the bytes of the file. A field is read through the
endianness convertor: the machine is little-endian, so the convertor swaps the
bytes of a field exactly for files that say they are big-endian.
-/

namespace GumTVM

open Foundation

/-! ## Identification -/

/-- `EI_CLASS` -/
inductive ElfClass where
  | elfclass32
  | elfclass64
deriving DecidableEq

/-- `EI_DATA` -/
inductive ElfData where
  | elfdata2lsb
  | elfdata2msb
deriving DecidableEq

def ElfClass.ofByte (byte : Byte) : Option ElfClass :=
  if byte = 2 then some .elfclass64
  else if byte = 1 then some .elfclass32
  else none

def ElfData.ofByte (byte : Byte) : Option ElfData :=
  if byte = 1 then some .elfdata2lsb
  else if byte = 2 then some .elfdata2msb
  else none

structure ElfIdent where
  fileClass : ElfClass
  encoding : ElfData
deriving DecidableEq

/-- `EI_NIDENT` -/
def eiNident : Nat := 16

/-- `ELFMAG0` to `ELFMAG3` -/
def elfMagic : List Byte := [0x7F, 0x45, 0x4C, 0x46]

/-- The checks `elfio::load` makes on the bytes read into `e_ident`. -/
def ElfIdent.ofBytes (eIdent : List Byte) : Option ElfIdent :=
  if eIdent.length ≠ eiNident ∨ eIdent.take 4 ≠ elfMagic then none
  else
    (ElfClass.ofByte (eIdent.getD 4 0)).bind fun fileClass =>
      (ElfData.ofByte (eIdent.getD 5 0)).map fun encoding => ⟨fileClass, encoding⟩

/-! ## The endianness convertor -/

/-- `Elf_Half`, `Elf_Word` and `Elf_Xword` -/
inductive ElfWidth where
  | half
  | word
  | xword
deriving DecidableEq

def ElfWidth.bytes : ElfWidth → Nat
  | .half => 2
  | .word => 4
  | .xword => 8

namespace EndianessConvertor

def convert16 (value : BitVec 16) : BitVec 16 :=
  ((value &&& 0x00FF) <<< 8) ||| ((value &&& 0xFF00) >>> 8)

def convert32 (value : BitVec 32) : BitVec 32 :=
  ((value &&& 0x000000FF) <<< 24) ||| ((value &&& 0x0000FF00) <<< 8) |||
    ((value &&& 0x00FF0000) >>> 8) ||| ((value &&& 0xFF000000) >>> 24)

def convert64 (value : BitVec 64) : BitVec 64 :=
  ((value &&& 0x00000000000000FF) <<< 56) ||| ((value &&& 0x000000000000FF00) <<< 40) |||
    ((value &&& 0x0000000000FF0000) <<< 24) ||| ((value &&& 0x00000000FF000000) <<< 8) |||
    ((value &&& 0x000000FF00000000) >>> 8) ||| ((value &&& 0x0000FF0000000000) >>> 24) |||
    ((value &&& 0x00FF000000000000) >>> 40) ||| ((value &&& 0xFF00000000000000) >>> 56)

/-- `endianess_convertor::operator()` for the type of a field; `need_conversion`
is set up from the encoding of the file. -/
def convert (encoding : ElfData) (width : ElfWidth) (value : Nat) : Nat :=
  match encoding, width with
  | .elfdata2lsb, _ => value
  | .elfdata2msb, .half => (convert16 (BitVec.ofNat 16 value)).toNat
  | .elfdata2msb, .word => (convert32 (BitVec.ofNat 32 value)).toNat
  | .elfdata2msb, .xword => (convert64 (BitVec.ofNat 64 value)).toNat

theorem convert16_getLsbD (value : BitVec 16) {i : Nat} (hi : i < 16) :
    (convert16 value).getLsbD i = value.getLsbD (8 * (1 - i / 8) + i % 8) := by
  interval_cases i <;> simp [convert16]

theorem convert32_getLsbD (value : BitVec 32) {i : Nat} (hi : i < 32) :
    (convert32 value).getLsbD i = value.getLsbD (8 * (3 - i / 8) + i % 8) := by
  interval_cases i <;> simp [convert32]

theorem convert64_getLsbD (value : BitVec 64) {i : Nat} (hi : i < 64) :
    (convert64 value).getLsbD i = value.getLsbD (8 * (7 - i / 8) + i % 8) := by
  interval_cases i <;> simp [convert64]

/-- For a big-endian file the convertor moves each byte to the mirrored place. -/
theorem testBit_convert_msb (width : ElfWidth) (value : Nat) (i : Nat) :
    (convert .elfdata2msb width value).testBit i =
      (decide (i < 8 * width.bytes) &&
        value.testBit (8 * (width.bytes - 1 - i / 8) + i % 8)) := by
  have hin (n : Nat) (hn : 0 < n) (j : Nat) (_ : j < 8 * n) :
      8 * (n - 1 - j / 8) + j % 8 < 8 * n := by omega
  cases width with
  | half =>
      change (convert16 _).getLsbD i = _
      by_cases hi : i < 16
      · rw [convert16_getLsbD _ hi, BitVec.getLsbD_ofNat]
        simp [ElfWidth.bytes, hi, hin 2 (by decide) i hi]
      · rw [BitVec.getLsbD_of_ge _ _ (by omega)]
        simp [ElfWidth.bytes, hi]
  | word =>
      change (convert32 _).getLsbD i = _
      by_cases hi : i < 32
      · rw [convert32_getLsbD _ hi, BitVec.getLsbD_ofNat]
        simp [ElfWidth.bytes, hi, hin 4 (by decide) i hi]
      · rw [BitVec.getLsbD_of_ge _ _ (by omega)]
        simp [ElfWidth.bytes, hi]
  | xword =>
      change (convert64 _).getLsbD i = _
      by_cases hi : i < 64
      · rw [convert64_getLsbD _ hi, BitVec.getLsbD_ofNat]
        simp [ElfWidth.bytes, hi, hin 8 (by decide) i hi]
      · rw [BitVec.getLsbD_of_ge _ _ (by omega)]
        simp [ElfWidth.bytes, hi]

end EndianessConvertor

theorem testBit_eq_false_of_lt {value : Nat} {width : ElfWidth} (hvalue : value < 256 ^ width.bytes)
    {i : Nat} (hi : 8 * width.bytes ≤ i) : value.testBit i = false := by
  apply Nat.testBit_lt_two_pow
  calc value < 256 ^ width.bytes := hvalue
    _ = 2 ^ (8 * width.bytes) := by rw [Nat.pow_mul]
    _ ≤ 2 ^ i := Nat.pow_le_pow_right (by decide) hi

theorem convert_lt (encoding : ElfData) (width : ElfWidth) {value : Nat}
    (hvalue : value < 256 ^ width.bytes) :
    EndianessConvertor.convert encoding width value < 256 ^ width.bytes := by
  cases encoding with
  | elfdata2lsb => exact hvalue
  | elfdata2msb =>
      cases width with
      | half => exact (EndianessConvertor.convert16 _).isLt
      | word => exact (EndianessConvertor.convert32 _).isLt
      | xword => exact (EndianessConvertor.convert64 _).isLt

/-- Converting twice gives back the value. -/
theorem convert_convert (encoding : ElfData) (width : ElfWidth) {value : Nat}
    (hvalue : value < 256 ^ width.bytes) :
    EndianessConvertor.convert encoding width
      (EndianessConvertor.convert encoding width value) = value := by
  cases encoding with
  | elfdata2lsb => rfl
  | elfdata2msb =>
      apply Nat.eq_of_testBit_eq
      intro i
      rw [EndianessConvertor.testBit_convert_msb, EndianessConvertor.testBit_convert_msb]
      by_cases hi : i < 8 * width.bytes
      · have hmirror : 8 * (width.bytes - 1 - i / 8) + i % 8 < 8 * width.bytes := by omega
        have hback : 8 * (width.bytes - 1 - (8 * (width.bytes - 1 - i / 8) + i % 8) / 8) +
            (8 * (width.bytes - 1 - i / 8) + i % 8) % 8 = i := by omega
        rw [decide_eq_true hmirror, decide_eq_true hi, Bool.true_and, Bool.true_and, hback]
      · rw [testBit_eq_false_of_lt hvalue (Nat.le_of_not_lt hi)]
        simp [hi]

/-- The number that bytes stand for in an encoding. -/
def ElfData.decode : ElfData → List Byte → Nat
  | .elfdata2lsb, bytes => littleEndian bytes
  | .elfdata2msb, bytes => littleEndian bytes.reverse

theorem ElfData.decode_lt (encoding : ElfData) (bytes : List Byte) :
    encoding.decode bytes < 256 ^ bytes.length := by
  cases encoding with
  | elfdata2lsb => exact littleEndian_lt bytes
  | elfdata2msb => simpa [ElfData.decode] using littleEndian_lt bytes.reverse

/-- Converting the machine's value of a field gives the value the file means. -/
theorem convert_littleEndian (encoding : ElfData) (width : ElfWidth) {bytes : List Byte}
    (hlength : bytes.length = width.bytes) :
    EndianessConvertor.convert encoding width (littleEndian bytes) = encoding.decode bytes := by
  cases encoding with
  | elfdata2lsb => rfl
  | elfdata2msb =>
      apply Nat.eq_of_testBit_eq
      intro i
      rw [EndianessConvertor.testBit_convert_msb, testBit_littleEndian, ElfData.decode,
        testBit_littleEndian]
      have hmod : (8 * (width.bytes - 1 - i / 8) + i % 8) % 8 = i % 8 := by omega
      have hdiv : (8 * (width.bytes - 1 - i / 8) + i % 8) / 8 = width.bytes - 1 - i / 8 := by
        omega
      rw [hmod, hdiv, List.getD_eq_getElem?_getD, List.getD_eq_getElem?_getD]
      by_cases hi : i < 8 * width.bytes
      · have hbyte : i / 8 < bytes.length := by omega
        rw [List.getElem?_reverse hbyte, hlength]
        simp [hi]
      · have hbyte : bytes.reverse.length ≤ i / 8 := by
          rw [List.length_reverse]
          omega
        rw [List.getElem?_eq_none hbyte]
        simp [hi]

/-! ## Fields -/

/-- Where a field stands in its header. -/
structure HeaderField where
  offset : Nat
  width : ElfWidth
deriving DecidableEq

/-- The end of a field. -/
def HeaderField.stop (field : HeaderField) : Nat := field.offset + field.width.bytes

/-- `get_…`: the bytes of the field as the machine reads them, converted. -/
def HeaderField.get (field : HeaderField) (encoding : ElfData) (header : List Byte) : Nat :=
  EndianessConvertor.convert encoding field.width
    (littleEndian ((header.drop field.offset).take field.width.bytes))

/-- `set_…`: the converted value, stored in the bytes of the field. -/
def HeaderField.set (field : HeaderField) (encoding : ElfData) (value : Nat)
    (header : List Byte) : List Byte :=
  header.take field.offset ++
    littleEndianBytes field.width.bytes
      (EndianessConvertor.convert encoding field.width (value % 256 ^ field.width.bytes)) ++
    header.drop field.stop

section Fields

variable {field : HeaderField} {encoding : ElfData} {header : List Byte}

/-- The value of a field that lies inside the header. -/
theorem HeaderField.get_eq (hinside : field.stop ≤ header.length) :
    field.get encoding header =
      encoding.decode ((header.drop field.offset).take field.width.bytes) := by
  apply convert_littleEndian
  unfold HeaderField.stop at hinside
  simp only [List.length_take, List.length_drop]
  omega

theorem HeaderField.get_lt (hinside : field.stop ≤ header.length) :
    field.get encoding header < 256 ^ field.width.bytes := by
  have hlt := encoding.decode_lt ((header.drop field.offset).take field.width.bytes)
  unfold HeaderField.stop at hinside
  rw [HeaderField.get_eq hinside]
  rw [List.length_take, List.length_drop, Nat.min_eq_left (by omega)] at hlt
  exact hlt

/-- The bytes of a header around one field. -/
theorem split_at_field (field : HeaderField) (header : List Byte) :
    header.take field.offset ++ (header.drop field.offset).take field.width.bytes ++
      header.drop field.stop = header := by
  rw [HeaderField.stop, ← List.drop_drop, List.append_assoc, List.take_append_drop,
    List.take_append_drop]

/-- Storing the value that a field has changes nothing. -/
theorem HeaderField.set_get (hinside : field.stop ≤ header.length) :
    field.set encoding (field.get encoding header) header = header := by
  have hlength : ((header.drop field.offset).take field.width.bytes).length =
      field.width.bytes := by
    unfold HeaderField.stop at hinside
    simp only [List.length_take, List.length_drop]
    omega
  have hvalue : littleEndian ((header.drop field.offset).take field.width.bytes) <
      256 ^ field.width.bytes := by
    have hlt := littleEndian_lt ((header.drop field.offset).take field.width.bytes)
    rwa [hlength] at hlt
  have hbytes := littleEndianBytes_littleEndian
    ((header.drop field.offset).take field.width.bytes)
  rw [hlength] at hbytes
  unfold HeaderField.set
  rw [Nat.mod_eq_of_lt (HeaderField.get_lt hinside), HeaderField.get,
    convert_convert encoding field.width hvalue, hbytes, split_at_field]

/-- A field reads back what was stored in it, cut to its width. -/
theorem HeaderField.get_set (value : Nat) (hinside : field.stop ≤ header.length) :
    field.get encoding (field.set encoding value header) = value % 256 ^ field.width.bytes := by
  have hvalue : value % 256 ^ field.width.bytes < 256 ^ field.width.bytes :=
    Nat.mod_lt _ (Nat.pow_pos (by decide))
  have hoffset : (header.take field.offset).length = field.offset := by
    unfold HeaderField.stop at hinside
    rw [List.length_take]
    omega
  unfold HeaderField.get HeaderField.set
  rw [List.append_assoc, List.drop_append_of_le_length (le_of_eq hoffset.symm),
    List.drop_of_length_le (le_of_eq hoffset), List.nil_append,
    List.take_append_of_le_length (by rw [littleEndianBytes_length]),
    List.take_of_length_le (by rw [littleEndianBytes_length]),
    littleEndian_littleEndianBytes,
    Nat.mod_eq_of_lt (convert_lt encoding field.width hvalue),
    convert_convert encoding field.width hvalue]

/-- Storing a field leaves the other bytes of the header. -/
theorem HeaderField.set_getElem? (value : Nat) (hinside : field.stop ≤ header.length) {i : Nat}
    (houtside : i < field.offset ∨ field.stop ≤ i) :
    (field.set encoding value header)[i]? = header[i]? := by
  have hoffset : (header.take field.offset).length = field.offset := by
    unfold HeaderField.stop at hinside
    rw [List.length_take]
    omega
  unfold HeaderField.set
  rcases houtside with hbefore | hafter
  · rw [List.append_assoc, List.getElem?_append_left (by omega), List.getElem?_take_of_lt hbefore]
  · have hfront : (header.take field.offset ++ littleEndianBytes field.width.bytes
        (EndianessConvertor.convert encoding field.width
          (value % 256 ^ field.width.bytes))).length = field.stop := by
      rw [List.length_append, hoffset, littleEndianBytes_length]
      rfl
    rw [List.getElem?_append_right (by omega), hfront, List.getElem?_drop,
      Nat.add_sub_cancel' hafter]

/-- Storing a field does not disturb a field that shares no byte with it. -/
theorem HeaderField.get_set_of_disjoint {other : HeaderField} (value : Nat)
    (hinside : field.stop ≤ header.length)
    (hdisjoint : other.stop ≤ field.offset ∨ field.stop ≤ other.offset) :
    other.get encoding (field.set encoding value header) = other.get encoding header := by
  have hbytes : ((field.set encoding value header).drop other.offset).take other.width.bytes =
      (header.drop other.offset).take other.width.bytes := by
    apply List.ext_getElem?
    intro i
    by_cases hi : i < other.width.bytes
    · have houtside : other.offset + i < field.offset ∨ field.stop ≤ other.offset + i := by
        unfold HeaderField.stop at hdisjoint ⊢
        omega
      rw [List.getElem?_take_of_lt hi, List.getElem?_take_of_lt hi, List.getElem?_drop,
        List.getElem?_drop, HeaderField.set_getElem? value hinside houtside]
    · rw [List.getElem?_eq_none (by rw [List.length_take]; omega),
        List.getElem?_eq_none (by rw [List.length_take]; omega)]
  unfold HeaderField.get
  rw [hbytes]

/-- The accessors of a header are those of a record of numbers, for either byte
order: a field reads back what was stored in it, cut to its width, storing what
it has changes nothing, and fields that share no byte are independent. -/
theorem headerField_accessors (hinside : field.stop ≤ header.length) (value : Nat) :
    field.get encoding (field.set encoding value header) = value % 256 ^ field.width.bytes ∧
      field.set encoding (field.get encoding header) header = header ∧
      ∀ other : HeaderField, other.stop ≤ field.offset ∨ field.stop ≤ other.offset →
        other.get encoding (field.set encoding value header) = other.get encoding header :=
  ⟨HeaderField.get_set value hinside, HeaderField.set_get hinside,
    fun _ => HeaderField.get_set_of_disjoint value hinside⟩

end Fields

/-! ## The three headers -/

/-- The type of addresses, offsets and sizes. -/
def ElfClass.native : ElfClass → ElfWidth
  | .elfclass32 => .word
  | .elfclass64 => .xword

/-- `sizeof(Elf32_Ehdr)` and `sizeof(Elf64_Ehdr)` -/
def ElfClass.ehdrSize : ElfClass → Nat
  | .elfclass32 => 52
  | .elfclass64 => 64

/-- `sizeof(Elf32_Shdr)` and `sizeof(Elf64_Shdr)` -/
def ElfClass.shdrSize : ElfClass → Nat
  | .elfclass32 => 40
  | .elfclass64 => 64

/-- `sizeof(Elf32_Phdr)` and `sizeof(Elf64_Phdr)` -/
def ElfClass.phdrSize : ElfClass → Nat
  | .elfclass32 => 32
  | .elfclass64 => 56

/-- A field whose place depends on the class. -/
def ElfClass.field (fileClass : ElfClass) (offset32 offset64 : Nat) (width : ElfWidth) :
    HeaderField where
  offset := match fileClass with
    | .elfclass32 => offset32
    | .elfclass64 => offset64
  width := width

namespace ElfClass

variable (fileClass : ElfClass)

def ePhoff := fileClass.field 28 32 fileClass.native
def eShoff := fileClass.field 32 40 fileClass.native
def ePhentsize := fileClass.field 42 54 .half
def ePhnum := fileClass.field 44 56 .half
def eShentsize := fileClass.field 46 58 .half
def eShnum := fileClass.field 48 60 .half
def eShstrndx := fileClass.field 50 62 .half

def shName := fileClass.field 0 0 .word
def shType := fileClass.field 4 4 .word
def shAddr := fileClass.field 12 16 fileClass.native
def shOffset := fileClass.field 16 24 fileClass.native
def shSize := fileClass.field 20 32 fileClass.native

def pType := fileClass.field 0 0 .word
def pOffset := fileClass.field 4 8 fileClass.native
def pFilesz := fileClass.field 16 32 fileClass.native

/-- The fields that the loader reads lie inside their headers. -/
theorem ehdr_fields_stop : ∀ field ∈ [fileClass.ePhoff, fileClass.eShoff, fileClass.ePhentsize,
    fileClass.ePhnum, fileClass.eShentsize, fileClass.eShnum, fileClass.eShstrndx],
    field.stop ≤ fileClass.ehdrSize := by
  cases fileClass <;> decide

theorem shdr_fields_stop : ∀ field ∈ [fileClass.shName, fileClass.shType, fileClass.shAddr,
    fileClass.shOffset, fileClass.shSize], field.stop ≤ fileClass.shdrSize := by
  cases fileClass <;> decide

theorem phdr_fields_stop : ∀ field ∈ [fileClass.pType, fileClass.pOffset, fileClass.pFilesz],
    field.stop ≤ fileClass.phdrSize := by
  cases fileClass <;> decide

end ElfClass

/-- `set_shnum` on the header of a big-endian 32-bit file -/
theorem headerField_accessors_shnum :
    ElfClass.elfclass32.eShnum.get .elfdata2msb
        (ElfClass.elfclass32.eShnum.set .elfdata2msb 0x1000D (List.replicate 52 0xFF)) = 13 ∧
      ElfClass.elfclass32.eShstrndx.get .elfdata2msb
        (ElfClass.elfclass32.eShnum.set .elfdata2msb 0x1000D (List.replicate 52 0xFF)) =
          0xFFFF := by
  have hinside : ElfClass.elfclass32.eShnum.stop ≤ (List.replicate 52 (0xFF : Byte)).length := by
    rw [List.length_replicate]
    exact ElfClass.elfclass32.ehdr_fields_stop _ (by simp)
  have haccessors := @headerField_accessors ElfClass.elfclass32.eShnum .elfdata2msb
    (List.replicate 52 0xFF) hinside 0x1000D
  refine ⟨haccessors.1.trans (by decide), ?_⟩
  exact (haccessors.2.2 ElfClass.elfclass32.eShstrndx (by decide)).trans (by decide +kernel)

end GumTVM
