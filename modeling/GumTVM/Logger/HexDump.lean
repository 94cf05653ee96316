import GumTVM.Host.Process

/-!
# Hexadecimal dump of a buffer

`HexDump::Dump` with the stream state its only caller hands over: hexadecimal
base and right alignment. Every row covers sixteen bytes; a short last row is
padded with blanks.
-/

namespace GumTVM

open Foundation

def Byte.toChar (byte : Byte) : Char := Char.ofNat byte.toNat

/-- `std::isprint` in the C locale. -/
def isprint (byte : Byte) : Bool := 0x20#8 ≤ byte && byte ≤ 0x7E#8

namespace HexDump

/-- One two-digit cell, or its padding, with the separator after the eighth. -/
def cell (buffer : List Byte) (byteCount offset i : Nat) : Text :=
  (if offset + i < byteCount then
    (hex (buffer.getD (offset + i) 0).toNat).leftpad 2 '0' ++ [' ']
  else "   ".toList) ++
  (if i = 7 then [' '] else [])

def asciiCell (buffer : List Byte) (byteCount offset i : Nat) : Char :=
  if offset + i < byteCount then
    let byte := buffer.getD (offset + i) 0
    if isprint byte then byte.toChar else '.'
  else ' '

/-- One row without its line end. -/
def row (buffer : List Byte) (byteCount : Nat) (address : BitVec 64) (offset : Nat) : Text :=
  (hex (address + BitVec.ofNat 64 offset).toNat).leftpad 8 '0' ++ ": ".toList ++
    (List.range 16).flatMap (cell buffer byteCount offset) ++
    " |".toList ++ (List.range 16).map (asciiCell buffer byteCount offset) ++ "|".toList

/-- The rows printed from an offset on. -/
def rowsFrom (buffer : List Byte) (byteCount : Nat) (address : BitVec 64) (offset : Nat) :
    List Text :=
  if offset < byteCount then
    row buffer byteCount address offset :: rowsFrom buffer byteCount address (offset + 16)
  else []
termination_by byteCount - offset

/-- `HexDump::Dump` -/
def dump (buffer : List Byte) (byteCount : Nat) (address : BitVec 64) : Text :=
  terminated '\n' (rowsFrom buffer byteCount address 0)

/-! ## Shape of the rows -/

theorem rowsFrom_32 (buffer : List Byte) (address : BitVec 64) :
    rowsFrom buffer 32 address 0 = [row buffer 32 address 0, row buffer 32 address 16] := by
  rw [rowsFrom, if_pos (by omega), rowsFrom, if_pos (by omega), rowsFrom, if_neg (by omega)]

theorem toChar_ne_newline {byte : Byte} (hprint : isprint byte = true) :
    byte.toChar ≠ '\n' := by
  revert byte
  decide

theorem newline_not_mem_cell (buffer : List Byte) (byteCount offset i : Nat) :
    '\n' ∉ cell buffer byteCount offset i := by
  have hhex : '\n' ∉ hex (buffer.getD (offset + i) 0).toNat := not_mem_hex (by decide)
  unfold cell
  intro hmem
  rcases List.mem_append.mp hmem with hcell | hsep
  · split at hcell
    · simp only [List.leftpad, List.mem_append, List.mem_replicate, List.mem_singleton] at hcell
      rcases hcell with (⟨_, heq⟩ | hdigit) | heq
      · exact absurd heq (by decide)
      · exact hhex hdigit
      · exact absurd heq (by decide)
    · revert hcell
      decide
  · split at hsep
    · simp at hsep
    · simp at hsep

theorem asciiCell_ne_newline (buffer : List Byte) (byteCount offset i : Nat) :
    asciiCell buffer byteCount offset i ≠ '\n' := by
  unfold asciiCell
  split
  · dsimp only
    split
    next hprint => exact toChar_ne_newline hprint
    next => decide
  · decide

/-- Whatever the buffer holds, a row is a single line. -/
theorem newline_not_mem_row (buffer : List Byte) (byteCount : Nat) (address : BitVec 64)
    (offset : Nat) : '\n' ∉ row buffer byteCount address offset := by
  have haddress : '\n' ∉ hex (address + BitVec.ofNat 64 offset).toNat := not_mem_hex (by decide)
  intro hmem
  simp only [row, List.leftpad, List.mem_append, List.mem_replicate, List.mem_flatMap,
    List.mem_map] at hmem
  rcases hmem with (((((⟨_, heq⟩ | hdigit) | hsep) | ⟨i, _, hcell⟩) | hbar) | ⟨i, _, hascii⟩) | hbar
  · exact absurd heq (by decide)
  · exact haddress hdigit
  · revert hsep; decide
  · exact newline_not_mem_cell buffer byteCount offset i hcell
  · revert hbar; decide
  · exact asciiCell_ne_newline buffer byteCount offset i hascii
  · revert hbar; decide

end HexDump

end GumTVM
