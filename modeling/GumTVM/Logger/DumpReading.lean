import GumTVM.Foundation.CountedArray
import GumTVM.Logger.HexDump
import Mathlib.Data.List.ReduceOption

/-!
# Reading a dump back

Every row of a dump has one layout after its address: sixteen cells of two
digits, a second blank after the eighth, and the characters between bars. The
cells are read at fixed positions, and all of them together give back the
buffer. The source counts offsets in `size_t`; without wrap-around its loop
prints the rows of the dump.
-/

namespace GumTVM

open Foundation

namespace HexDump

/-! ## Layout of a row -/

/-- Sixteen cells of two characters. -/
def rowCells (digits : Nat → Char × Char) : Text :=
  (List.range 16).flatMap fun i =>
    [(digits i).1, (digits i).2, ' '] ++ if i = 7 then [' '] else []

/-- What follows the address of a row. -/
def rowTail (digits : Nat → Char × Char) (ascii : Text) : Text :=
  ": ".toList ++ rowCells digits ++ " |".toList ++ ascii ++ "|".toList

def addressText (address : BitVec 64) : Text := (hex address.toNat).leftpad 8 '0'

/-- Where the digits of a cell stand after the colon and its blank. -/
def cellPosition (i : Nat) : Nat := 3 * i + if 7 < i then 1 else 0

def afterColon (line : Text) : Text := (line.dropWhile (· ≠ ':')).drop 2

def cellText (line : Text) (i : Nat) : Text := ((afterColon line).drop (cellPosition i)).take 2

/-- The byte of a cell; a padding cell has none. -/
def readCell (line : Text) (i : Nat) : Option Byte :=
  (readHex (cellText line i)).map (BitVec.ofNat 8)

def readRow (line : Text) : List (Option Byte) := (List.range 16).map (readCell line)

/-- The sixteen characters between the bars. -/
def readAscii (line : Text) : Text := ((afterColon line).drop 51).take 16

/-- The digits of a byte, or the blanks of a padding cell. -/
def cellDigits (data : List Byte) (position : Nat) : Char × Char :=
  match data[position]? with
  | some byte => ((byte.toNat / 16).digitChar, (byte.toNat % 16).digitChar)
  | none => (' ', ' ')

theorem leftpad_hex_byte (byte : Byte) :
    (hex byte.toNat).leftpad 2 '0' =
      [(byte.toNat / 16).digitChar, (byte.toNat % 16).digitChar] := by
  have hlt := byte.isLt
  rw [hex, Nat.toDigits_eq_if (by omega)]
  split
  next hsmall =>
    rw [Nat.div_eq_of_lt hsmall, Nat.mod_eq_of_lt hsmall]
    rfl
  next hlarge =>
    rw [Nat.toDigits_of_lt_base (by omega)]
    rfl

/-- The bytes a dump shows are the first ones of its buffer. -/
theorem getElem?_shown {buffer : List Byte} {byteCount position : Nat}
    (hcount : byteCount ≤ buffer.length) :
    (buffer.take byteCount)[position]? =
      if position < byteCount then some (buffer.getD position 0) else none := by
  rw [List.getElem?_take]
  split
  next hlt => rw [List.getD_eq_getElem?_getD, List.getElem?_eq_getElem (by omega)]; rfl
  next => rfl

theorem cell_eq {buffer : List Byte} {byteCount : Nat} (hcount : byteCount ≤ buffer.length)
    (offset i : Nat) :
    cell buffer byteCount offset i =
      [(cellDigits (buffer.take byteCount) (offset + i)).1,
        (cellDigits (buffer.take byteCount) (offset + i)).2, ' '] ++
        if i = 7 then [' '] else [] := by
  unfold cell cellDigits
  rw [getElem?_shown hcount]
  split
  · rw [leftpad_hex_byte]
    rfl
  · rfl

theorem row_eq {buffer : List Byte} {byteCount : Nat} (hcount : byteCount ≤ buffer.length)
    (address : BitVec 64) (offset : Nat) :
    row buffer byteCount address offset =
      addressText (address + BitVec.ofNat 64 offset) ++
        rowTail (fun i => cellDigits (buffer.take byteCount) (offset + i))
          ((List.range 16).map (asciiCell buffer byteCount offset)) := by
  have hcells : (List.range 16).flatMap (cell buffer byteCount offset) =
      rowCells fun i => cellDigits (buffer.take byteCount) (offset + i) := by
    unfold rowCells
    congr 1
    funext i
    exact cell_eq hcount offset i
  unfold row rowTail addressText
  rw [hcells]
  simp only [List.append_assoc]

/-! ## Reading one row -/

theorem colon_not_mem_addressText (address : BitVec 64) : ':' ∉ addressText address := by
  unfold addressText List.leftpad
  rw [List.mem_append]
  rintro (hpad | hdigit)
  · exact absurd (List.eq_of_mem_replicate hpad) (by decide)
  · exact not_mem_hex (by decide) hdigit

theorem afterColon_row (address : BitVec 64) (digits : Nat → Char × Char) (ascii : Text) :
    afterColon (addressText address ++ rowTail digits ascii) =
      rowCells digits ++ (" |".toList ++ (ascii ++ "|".toList)) := by
  unfold afterColon
  rw [List.dropWhile_append_of_pos]
  · unfold rowTail
    simp only [List.append_assoc]
    rfl
  · intro c hc
    have hne : c ≠ ':' := fun heq => colon_not_mem_addressText address (heq ▸ hc)
    simpa using hne

theorem cellText_row (address : BitVec 64) (digits : Nat → Char × Char) (ascii : Text) {i : Nat}
    (hi : i < 16) :
    cellText (addressText address ++ rowTail digits ascii) i = [(digits i).1, (digits i).2] := by
  unfold cellText
  rw [afterColon_row]
  interval_cases i <;> rfl

theorem readAscii_row (address : BitVec 64) (digits : Nat → Char × Char) {ascii : Text}
    (hascii : ascii.length = 16) :
    readAscii (addressText address ++ rowTail digits ascii) = ascii := by
  have hcells : (rowCells digits ++ " |".toList).length = 51 := rfl
  unfold readAscii
  rw [afterColon_row, ← List.append_assoc, List.drop_left' hcells, List.take_left' hascii]

theorem readHex_cellDigits (data : List Byte) (position : Nat) :
    (readHex [(cellDigits data position).1, (cellDigits data position).2]).map (BitVec.ofNat 8) =
      data[position]? := by
  unfold cellDigits
  cases data[position]? with
  | none => rfl
  | some byte =>
      have hlt := byte.isLt
      have hvalue : 16 * (byte.toNat / 16) + byte.toNat % 16 = byte.toNat :=
        Nat.div_add_mod byte.toNat 16
      simp only [readHex, readHexFrom, Option.bind_some, Option.map_some, Nat.mul_zero, Nat.zero_add,
        hexDigitValue?_digitChar (show byte.toNat / 16 < 16 by omega),
        hexDigitValue?_digitChar (show byte.toNat % 16 < 16 by omega), hvalue,
        BitVec.ofNat_toNat, BitVec.setWidth_eq]

section

variable {buffer : List Byte} {byteCount : Nat} (hcount : byteCount ≤ buffer.length)
include hcount

/-- Each cell of a row holds the byte at its position, or is padding. -/
theorem readCell_row (address : BitVec 64) (offset : Nat) {i : Nat} (hi : i < 16) :
    readCell (row buffer byteCount address offset) i =
      (buffer.take byteCount)[offset + i]? := by
  unfold readCell
  rw [row_eq hcount, cellText_row _ _ _ hi, readHex_cellDigits]

theorem readRow_row (address : BitVec 64) (offset : Nat) :
    readRow (row buffer byteCount address offset) =
      (List.range 16).map fun i => (buffer.take byteCount)[offset + i]? := by
  unfold readRow
  apply List.map_congr_left
  intro i hi
  exact readCell_row hcount address offset (List.mem_range.mp hi)

end

/-! ## Reading all rows -/

theorem reduceOption_range_map {α : Type*} (items : List α) (count : Nat) :
    ((List.range count).map fun i => items[i]?).reduceOption = items.take count := by
  rw [List.reduceOption, List.filterMap_map]
  exact filterMap_range_getElem? items count

/-- Reading the rows from an offset on gives the shown bytes from there. -/
theorem readRows_rowsFrom {buffer : List Byte} {byteCount : Nat}
    (hcount : byteCount ≤ buffer.length) (address : BitVec 64) (offset : Nat) :
    ((rowsFrom buffer byteCount address offset).flatMap readRow).reduceOption =
      (buffer.take byteCount).drop offset := by
  induction offset using rowsFrom.induct byteCount with
  | case1 offset hlt ih =>
      have hrow : (readRow (row buffer byteCount address offset)).reduceOption =
          ((buffer.take byteCount).drop offset).take 16 := by
        rw [readRow_row hcount, ← reduceOption_range_map ((buffer.take byteCount).drop offset)]
        simp only [List.getElem?_drop]
      rw [rowsFrom, if_pos hlt, List.flatMap_cons, List.reduceOption_append, hrow, ih,
        ← List.drop_drop, List.take_append_drop]
  | case2 offset hge =>
      rw [rowsFrom, if_neg hge, List.drop_of_length_le]
      · rfl
      · rw [List.length_take]
        omega

/-- The rows are numbered from the first on. -/
theorem rowsFrom_eq_map (buffer : List Byte) (byteCount : Nat) (address : BitVec 64)
    (offset : Nat) :
    rowsFrom buffer byteCount address offset =
      (List.range ((byteCount - offset + 15) / 16)).map fun k =>
        row buffer byteCount address (offset + 16 * k) := by
  induction offset using rowsFrom.induct byteCount with
  | case1 offset hlt ih =>
      have hcount : (byteCount - offset + 15) / 16 = (byteCount - (offset + 16) + 15) / 16 + 1 := by
        omega
      rw [rowsFrom, if_pos hlt, ih, hcount, List.range_succ_eq_map, List.map_cons, List.map_map]
      congr 1
      apply List.map_congr_left
      intro k _
      simp only [Function.comp_apply]
      congr 1
      omega
  | case2 offset hge =>
      have hcount : (byteCount - offset + 15) / 16 = 0 := by omega
      rw [rowsFrom, if_neg hge, hcount]
      rfl

/-! ## The loop over `size_t` -/

/-- `cell` with the sum `offset + i` of the source. -/
def sizeCell (buffer : List Byte) (byteCount offset : BitVec 64) (i : Nat) : Text :=
  let position := offset + BitVec.ofNat 64 i
  (if position < byteCount then
    (hex (buffer.getD position.toNat 0).toNat).leftpad 2 '0' ++ [' ']
  else "   ".toList) ++
  (if i = 7 then [' '] else [])

def sizeAscii (buffer : List Byte) (byteCount offset : BitVec 64) (i : Nat) : Char :=
  let position := offset + BitVec.ofNat 64 i
  if position < byteCount then
    let byte := buffer.getD position.toNat 0
    if isprint byte then byte.toChar else '.'
  else ' '

def sizeRow (buffer : List Byte) (byteCount address offset : BitVec 64) : Text :=
  (hex (address + offset).toNat).leftpad 8 '0' ++ ": ".toList ++
    (List.range 16).flatMap (sizeCell buffer byteCount offset) ++
    " |".toList ++ (List.range 16).map (sizeAscii buffer byteCount offset) ++ "|".toList

/-- The outer loop of `Dump`, for at most a number of iterations; `none` if it
is not done by then. -/
def sizeRows (buffer : List Byte) (byteCount address : BitVec 64) :
    Nat → BitVec 64 → Option (List Text)
  | 0, _ => none
  | fuel + 1, offset =>
      if offset < byteCount then
        (sizeRows buffer byteCount address fuel (offset + 16)).map
          (sizeRow buffer byteCount address offset :: ·)
      else some []

/-- `Dump` as the source computes it. -/
def sizeDump (buffer : List Byte) (byteCount address : BitVec 64) (fuel : Nat) : Option Text :=
  (sizeRows buffer byteCount address fuel 0).map (terminated '\n')

theorem position_toNat {offset i : Nat} (hoffset : offset + 15 < 2 ^ 64) (hi : i < 16) :
    (BitVec.ofNat 64 offset + BitVec.ofNat 64 i).toNat = offset + i := by
  rw [BitVec.toNat_add, BitVec.toNat_ofNat, BitVec.toNat_ofNat]
  omega

theorem position_lt_iff {offset i byteCount : Nat} (hoffset : offset + 15 < 2 ^ 64) (hi : i < 16)
    (hcount : byteCount < 2 ^ 64) :
    BitVec.ofNat 64 offset + BitVec.ofNat 64 i < BitVec.ofNat 64 byteCount ↔
      offset + i < byteCount := by
  rw [BitVec.lt_def, position_toNat hoffset hi, BitVec.toNat_ofNat, Nat.mod_eq_of_lt hcount]

theorem sizeRow_eq (buffer : List Byte) {byteCount : Nat} (address : BitVec 64) {offset : Nat}
    (hoffset : offset + 15 < 2 ^ 64) (hcount : byteCount < 2 ^ 64) :
    sizeRow buffer (BitVec.ofNat 64 byteCount) address (BitVec.ofNat 64 offset) =
      row buffer byteCount address offset := by
  have hcells : (List.range 16).flatMap
      (sizeCell buffer (BitVec.ofNat 64 byteCount) (BitVec.ofNat 64 offset)) =
      (List.range 16).flatMap (cell buffer byteCount offset) := by
    apply List.flatMap_congr
    intro i hi
    have hlt := List.mem_range.mp hi
    simp only [sizeCell, cell, position_lt_iff hoffset hlt hcount, position_toNat hoffset hlt]
  have hascii : (List.range 16).map
      (sizeAscii buffer (BitVec.ofNat 64 byteCount) (BitVec.ofNat 64 offset)) =
      (List.range 16).map (asciiCell buffer byteCount offset) := by
    apply List.map_congr_left
    intro i hi
    have hlt := List.mem_range.mp hi
    simp only [sizeAscii, asciiCell, position_lt_iff hoffset hlt hcount,
      position_toNat hoffset hlt]
  unfold sizeRow row
  rw [hcells, hascii]

/-- With an iteration for each row and one to see the end, the loop prints the
rows: no offset wraps around. -/
theorem sizeRows_eq (buffer : List Byte) {byteCount : Nat} (address : BitVec 64)
    (hcount : byteCount ≤ 2 ^ 64 - 16) {fuel offset : Nat} (hoffset : offset < 2 ^ 64)
    (hfuel : (byteCount - offset + 15) / 16 < fuel) :
    sizeRows buffer (BitVec.ofNat 64 byteCount) address fuel (BitVec.ofNat 64 offset) =
      some (rowsFrom buffer byteCount address offset) := by
  have hlt_iff : BitVec.ofNat 64 offset < BitVec.ofNat 64 byteCount ↔ offset < byteCount := by
    rw [BitVec.lt_def, BitVec.toNat_ofNat, BitVec.toNat_ofNat]
    omega
  induction fuel generalizing offset with
  | zero => omega
  | succ fuel ih =>
      rw [sizeRows, rowsFrom]
      by_cases hlt : offset < byteCount
      · have hnext : BitVec.ofNat 64 offset + 16 = BitVec.ofNat 64 (offset + 16) := by
          apply BitVec.eq_of_toNat_eq
          simp
        rw [if_pos (hlt_iff.mpr hlt), if_pos hlt, hnext, ih (by omega) (by omega),
          sizeRow_eq buffer address (by omega) (by omega), Option.map_some]
        rw [BitVec.lt_def, BitVec.toNat_ofNat, BitVec.toNat_ofNat]
        omega
      · rw [if_neg (fun hless => hlt (hlt_iff.mp hless)), if_neg hlt]

theorem sizeDump_eq (buffer : List Byte) {byteCount : Nat} (address : BitVec 64)
    (hcount : byteCount ≤ 2 ^ 64 - 16) {fuel : Nat} (hfuel : (byteCount + 15) / 16 < fuel) :
    sizeDump buffer (BitVec.ofNat 64 byteCount) address fuel =
      some (dump buffer byteCount address) := by
  have hrows : sizeRows buffer (BitVec.ofNat 64 byteCount) address fuel 0 =
      some (rowsFrom buffer byteCount address 0) :=
    sizeRows_eq buffer address hcount (by decide : 0 < 2 ^ 64) hfuel
  unfold sizeDump dump
  rw [hrows, Option.map_some]

/-! ## The round trip -/

/-- The character that stands for a byte, or for a position beyond the end. -/
def shownChar : Option Byte → Char
  | some byte => if 0x20#8 ≤ byte ∧ byte ≤ 0x7E#8 then byte.toChar else '.'
  | none => ' '

theorem asciiCell_eq {buffer : List Byte} {byteCount : Nat} (hcount : byteCount ≤ buffer.length)
    (offset i : Nat) :
    asciiCell buffer byteCount offset i = shownChar (buffer.take byteCount)[offset + i]? := by
  unfold asciiCell
  rw [getElem?_shown hcount]
  split
  · simp [shownChar, isprint]
  · rfl

/-- Line `k` of a dump: the address of its first byte, then the common layout
with the bytes from there on. -/
structure DumpLine (data : List Byte) (address : BitVec 64) (k : Nat) (line : Text) : Prop where
  layout : ∃ digits ascii, ascii.length = 16 ∧
    line = (hex ((address.toNat + 16 * k) % 2 ^ 64)).leftpad 8 '0' ++ rowTail digits ascii
  cells : ∀ i < 16, readCell line i = data[16 * k + i]?
  padding : ∀ i < 16, data[16 * k + i]? = none → cellText line i = [' ', ' ']
  ascii : readAscii line = (List.range 16).map fun i => shownChar data[16 * k + i]?

theorem dumpLine_row {buffer : List Byte} {byteCount : Nat} (hcount : byteCount ≤ buffer.length)
    (address : BitVec 64) (k : Nat) :
    DumpLine (buffer.take byteCount) address k (row buffer byteCount address (16 * k)) := by
  have hlength : ((List.range 16).map (asciiCell buffer byteCount (16 * k))).length = 16 := by
    rw [List.length_map, List.length_range]
  refine ⟨?_, ?_, ?_, ?_⟩
  · refine ⟨fun i => cellDigits (buffer.take byteCount) (16 * k + i), _, hlength, ?_⟩
    rw [row_eq hcount, addressText, BitVec.toNat_add, BitVec.toNat_ofNat, Nat.add_mod_mod]
  · intro i hi
    exact readCell_row hcount address (16 * k) hi
  · intro i hi hnone
    rw [row_eq hcount, cellText_row _ _ _ hi]
    simp only [cellDigits, hnone]
  · rw [row_eq hcount, readAscii_row _ _ hlength]
    apply List.map_congr_left
    intro i _
    exact asciiCell_eq hcount (16 * k) i

theorem rowsFrom_length (buffer : List Byte) (byteCount : Nat) (address : BitVec 64) :
    (rowsFrom buffer byteCount address 0).length = (byteCount + 15) / 16 := by
  rw [rowsFrom_eq_map, List.length_map, List.length_range, Nat.sub_zero]

theorem dumpLine_of_getElem? {buffer : List Byte} {byteCount : Nat}
    (hcount : byteCount ≤ buffer.length) {address : BitVec 64} {k : Nat} {line : Text}
    (hline : (rowsFrom buffer byteCount address 0)[k]? = some line) :
    DumpLine (buffer.take byteCount) address k line := by
  rw [rowsFrom_eq_map, List.getElem?_map] at hline
  obtain ⟨index, hindex, rfl⟩ := Option.map_eq_some_iff.mp hline
  obtain ⟨_, rfl⟩ := List.getElem?_eq_some_iff.mp hindex
  simpa using dumpLine_row hcount address k

/-- A dump terminates with one line for each sixteen bytes, and its cells give
the buffer back. -/
theorem dump_readable (buffer : List Byte) (address : BitVec 64)
    (hsize : buffer.length ≤ 2 ^ 64 - 16) :
    ∃ lines : List Text,
      (∀ fuel, (buffer.length + 15) / 16 < fuel →
        sizeDump buffer (BitVec.ofNat 64 buffer.length) address fuel =
          some (terminated '\n' lines)) ∧
      splitTerminated '\n' (terminated '\n' lines) = lines ∧
      lines.length = (buffer.length + 15) / 16 ∧
      (∀ k line, lines[k]? = some line → DumpLine buffer address k line) ∧
      (lines.flatMap readRow).reduceOption = buffer := by
  have hline : ∀ line ∈ rowsFrom buffer buffer.length address 0, '\n' ∉ line := by
    intro line hmem
    rw [rowsFrom_eq_map] at hmem
    obtain ⟨k, _, rfl⟩ := List.mem_map.mp hmem
    exact newline_not_mem_row buffer buffer.length address (0 + 16 * k)
  refine ⟨rowsFrom buffer buffer.length address 0, ?_, ?_, ?_, ?_, ?_⟩
  · intro fuel hfuel
    exact sizeDump_eq buffer address hsize hfuel
  · have hsplit := splitTerminated_terminated_append hline List.not_mem_nil
    rwa [List.append_nil] at hsplit
  · exact rowsFrom_length buffer buffer.length address
  · intro k line hk
    have hdump := dumpLine_of_getElem? (Nat.le_refl buffer.length) hk
    rwa [List.take_length] at hdump
  · have hread := readRows_rowsFrom (Nat.le_refl buffer.length) address 0
    rwa [List.take_length, List.drop_zero] at hread

/-- Seventeen bytes take two lines, the second with fifteen padding cells. -/
theorem dump_readable_seventeen :
    ∃ lines : List Text,
      sizeDump (List.replicate 17 0x41) 17 0x7FF0 3 = some (terminated '\n' lines) ∧
      lines.length = 2 ∧ (lines.flatMap readRow).reduceOption = List.replicate 17 0x41 := by
  obtain ⟨lines, hdump, _, hlength, _, hread⟩ :=
    dump_readable (List.replicate 17 0x41) 0x7FF0 (by decide)
  exact ⟨lines, hdump 3 (by decide), hlength, hread⟩

end HexDump

end GumTVM
