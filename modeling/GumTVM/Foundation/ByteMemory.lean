import Mathlib.Tactic.Common
import Mathlib.Data.Nat.Digits.Defs

/-!
# Partial byte memories

A memory holds a byte at the addresses that can be read. Addresses wrap. A load
of several bytes succeeds if each of them can be read; values are laid out with
the least significant byte first.
-/

namespace Foundation

/-- Bytes by address; `none` where nothing can be read. -/
abbrev ByteMemory (w : Nat) := BitVec w → Option (BitVec 8)

/-! ## Little-endian values -/

/-- The value whose least significant byte comes first. -/
def littleEndian (bytes : List (BitVec 8)) : Nat := Nat.ofDigits 256 (bytes.map BitVec.toNat)

/-- The lowest bytes of a value, least significant first. -/
def littleEndianBytes : Nat → Nat → List (BitVec 8)
  | 0, _ => []
  | count + 1, value => BitVec.ofNat 8 value :: littleEndianBytes count (value / 256)

@[simp] theorem littleEndian_nil : littleEndian [] = 0 := rfl

@[simp] theorem littleEndian_cons (byte : BitVec 8) (rest : List (BitVec 8)) :
    littleEndian (byte :: rest) = byte.toNat + 256 * littleEndian rest := rfl

theorem littleEndian_eq_foldr (bytes : List (BitVec 8)) :
    littleEndian bytes = bytes.foldr (fun byte acc => byte.toNat + 256 * acc) 0 := by
  induction bytes with
  | nil => rfl
  | cons byte rest ih => rw [littleEndian_cons, ih, List.foldr_cons]

theorem lt_256_of_mem_map_toNat (bytes : List (BitVec 8)) :
    ∀ digit ∈ bytes.map BitVec.toNat, digit < 256 := by
  intro digit hdigit
  obtain ⟨byte, _, rfl⟩ := List.mem_map.mp hdigit
  exact byte.isLt

theorem littleEndian_lt (bytes : List (BitVec 8)) : littleEndian bytes < 256 ^ bytes.length := by
  have hlt := Nat.ofDigits_lt_base_pow_length (by decide : 1 < 256)
    (lt_256_of_mem_map_toNat bytes)
  rwa [List.length_map] at hlt

/-- A value determines its bytes once their number is known. -/
theorem littleEndian_inj {first second : List (BitVec 8)} (hlength : first.length = second.length)
    (hvalue : littleEndian first = littleEndian second) : first = second := by
  have hdigits := Nat.ofDigits_inj_of_len_eq (by decide : 1 < 256)
    (by rw [List.length_map, List.length_map, hlength])
    (lt_256_of_mem_map_toNat first) (lt_256_of_mem_map_toNat second) hvalue
  exact (List.map_inj_right fun _ _ => BitVec.eq_of_toNat_eq).mp hdigits

/-- Bytes above the laid out ones do not matter. -/
theorem littleEndianBytes_mod (count value : Nat) :
    littleEndianBytes count (value % 256 ^ count) = littleEndianBytes count value := by
  induction count generalizing value with
  | zero => rfl
  | succ count ih =>
      have hlow : value % 256 ^ (count + 1) % 256 = value % 256 :=
        Nat.mod_mod_of_dvd value (Dvd.intro_left _ rfl)
      have hhigh : value % 256 ^ (count + 1) / 256 = value / 256 % 256 ^ count := by
        rw [Nat.pow_succ', Nat.mod_mul_right_div_self]
      simp only [littleEndianBytes, hhigh, ih]
      congr 1
      apply BitVec.eq_of_toNat_eq
      simp

/-- Each bit of a value is a bit of one of its bytes. -/
theorem testBit_littleEndian (bytes : List (BitVec 8)) (i : Nat) :
    (littleEndian bytes).testBit i = (bytes.getD (i / 8) 0).getLsbD (i % 8) := by
  induction bytes generalizing i with
  | nil => simp
  | cons byte rest ih =>
      have hsplit : littleEndian (byte :: rest) = 2 ^ 8 * littleEndian rest + byte.toNat := by
        rw [littleEndian_cons]
        omega
      rw [hsplit, Nat.testBit_two_pow_mul_add _ byte.isLt]
      split
      · next hlow =>
          rw [Nat.div_eq_of_lt hlow, Nat.mod_eq_of_lt hlow]
          rfl
      · next hhigh =>
          have hdiv : i / 8 = (i - 8) / 8 + 1 := by omega
          have hmod : i % 8 = (i - 8) % 8 := by omega
          rw [ih (i - 8), hdiv, hmod]
          rfl

@[simp] theorem littleEndianBytes_length (count value : Nat) :
    (littleEndianBytes count value).length = count := by
  induction count generalizing value with
  | zero => rfl
  | succ count ih => simp only [littleEndianBytes, List.length_cons, ih]

/-- Laying out a value and reading it back keeps what fits. -/
theorem littleEndian_littleEndianBytes (count value : Nat) :
    littleEndian (littleEndianBytes count value) = value % 256 ^ count := by
  induction count generalizing value with
  | zero => rw [Nat.pow_zero, Nat.mod_one]; rfl
  | succ count ih =>
      rw [littleEndianBytes, littleEndian_cons, ih, Nat.pow_succ', Nat.mod_mul]
      simp

/-- Reading bytes and laying the value out again gives the bytes. -/
theorem littleEndianBytes_littleEndian (bytes : List (BitVec 8)) :
    littleEndianBytes bytes.length (littleEndian bytes) = bytes := by
  apply littleEndian_inj (littleEndianBytes_length _ _)
  rw [littleEndian_littleEndianBytes, Nat.mod_eq_of_lt (littleEndian_lt bytes)]

/-! ## Loads and stores -/

namespace ByteMemory

variable {w : Nat}

/-- The bytes at consecutive addresses, if all can be read. -/
def load (memory : ByteMemory w) : BitVec w → Nat → Option (List (BitVec 8))
  | _, 0 => some []
  | address, count + 1 =>
      (memory address).bind fun byte => (load memory (address + 1) count).map (byte :: ·)

/-- Overwrite consecutive addresses. -/
def store (memory : ByteMemory w) : BitVec w → List (BitVec 8) → ByteMemory w
  | _, [] => memory
  | address, byte :: rest =>
      store (Function.update memory address (some byte)) (address + 1) rest

/-- The bytes that can be read from an address on, up to a number of them. -/
def readable (memory : ByteMemory w) : BitVec w → Nat → List (BitVec 8)
  | _, 0 => []
  | address, count + 1 =>
      match memory address with
      | none => []
      | some byte => byte :: readable memory (address + 1) count

theorem load_length {memory : ByteMemory w} {address : BitVec w} {count : Nat}
    {bytes : List (BitVec 8)} (hload : memory.load address count = some bytes) :
    bytes.length = count := by
  induction count generalizing address bytes with
  | zero =>
      obtain rfl := Option.some.inj hload
      rfl
  | succ count ih =>
      obtain ⟨byte, _, hmap⟩ := Option.bind_eq_some_iff.mp hload
      obtain ⟨rest, hrest, rfl⟩ := Option.map_eq_some_iff.mp hmap
      rw [List.length_cons, ih hrest]

theorem readable_length_le (memory : ByteMemory w) (address : BitVec w) (count : Nat) :
    (memory.readable address count).length ≤ count := by
  induction count generalizing address with
  | zero => exact Nat.le_refl 0
  | succ count ih =>
      unfold readable
      split
      · exact Nat.zero_le _
      · exact Nat.succ_le_succ (ih (address + 1))

theorem load_readable (memory : ByteMemory w) (address : BitVec w) (count : Nat) :
    memory.load address (memory.readable address count).length =
      some (memory.readable address count) := by
  induction count generalizing address with
  | zero => rfl
  | succ count ih =>
      cases hbyte : memory address with
      | none => simp only [readable, hbyte, List.length_nil, load]
      | some byte =>
          simp only [readable, hbyte, List.length_cons, load, Option.bind_some,
            ih (address + 1), Option.map_some]

theorem readable_of_load {memory : ByteMemory w} {address : BitVec w} {count : Nat}
    {bytes : List (BitVec 8)} (hload : memory.load address count = some bytes) :
    memory.readable address count = bytes := by
  induction count generalizing address bytes with
  | zero => exact Option.some.inj hload
  | succ count ih =>
      obtain ⟨byte, hbyte, hmap⟩ := Option.bind_eq_some_iff.mp hload
      obtain ⟨rest, hrest, rfl⟩ := Option.map_eq_some_iff.mp hmap
      simp only [readable, hbyte, ih hrest]

end ByteMemory

end Foundation
