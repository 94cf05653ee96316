import Mathlib.Tactic.Common
import Mathlib.Tactic.NormNum

/-!
# Low halves and shifts of words

Masking a word to its low half is truncation followed by zero extension. A left
shift that changes nothing shifts by nothing or shifts the zero word.
-/

namespace Foundation

theorem and_low_mask (value : BitVec 64) :
    value &&& 0xFFFFFFFF#64 = (value.setWidth 32).setWidth 64 := by
  apply BitVec.eq_of_toNat_eq
  have hmask := Nat.and_two_pow_sub_one_eq_mod value.toNat 32
  simp only [BitVec.toNat_and, BitVec.toNat_setWidth, BitVec.toNat_ofNat]
  norm_num at hmask ⊢
  omega

/-! ## Shifts that change nothing -/

/-- Shifting moves the lowest set bit: if a shifted word has the low bits of the
word itself, these are all clear. -/
theorem low_bits_clear_of_shiftLeft {w n s : Nat} {extended value : BitVec w} (hs : 0 < s)
    (hagree : ∀ i < n, extended.getLsbD i = value.getLsbD i)
    (hshift : extended <<< s = value) : ∀ i < n, value.getLsbD i = false := by
  intro i
  induction i using Nat.strongRecOn with
  | ind i ih =>
      intro hi
      rw [← hshift, BitVec.getLsbD_shiftLeft]
      by_cases hlow : i < s
      · simp [hlow]
      · -- bit `i` of the shifted word is bit `i - s` before the shift
        have hprior : value.getLsbD (i - s) = false := ih (i - s) (by omega) (by omega)
        rw [hagree (i - s) (by omega), hprior, Bool.and_false]

theorem shiftLeft_eq_self_iff {value : BitVec 64} {s : Nat} :
    value <<< s = value ↔ s = 0 ∨ value = 0#64 := by
  constructor
  · intro hshift
    by_cases hs : s = 0
    · exact Or.inl hs
    · right
      have hagree : ∀ i < 64, value.getLsbD i = value.getLsbD i := fun _ _ => rfl
      apply BitVec.eq_of_getLsbD_eq
      intro i hi
      rw [low_bits_clear_of_shiftLeft (Nat.pos_of_ne_zero hs) hagree hshift i hi,
        BitVec.getLsbD_zero]
  · rintro (rfl | rfl)
    · exact BitVec.shiftLeft_zero value
    · exact BitVec.zero_shiftLeft s

/-- The sign-extended low half of a word, scaled, is the zero-extended one only
if nothing is scaled and the half is not negative, or the half is zero. -/
theorem signExtend_shiftLeft_eq_setWidth_iff {half : BitVec 32} {s : Nat} :
    half.signExtend 64 <<< s = half.setWidth 64 ↔ s = 0 ∧ half.msb = false ∨ half = 0#32 := by
  constructor
  · intro hshift
    by_cases hs : s = 0
    · subst hs
      left
      refine ⟨rfl, ?_⟩
      have htop := congrArg (fun word : BitVec 64 => word.getLsbD 63) hshift
      simp only [BitVec.shiftLeft_zero, BitVec.getLsbD_signExtend, BitVec.getLsbD_setWidth] at htop
      simpa using htop
    · right
      have hagree (j : Nat) (hj : j < 32) :
          (half.signExtend 64).getLsbD j = (half.setWidth 64).getLsbD j := by
        simp only [BitVec.getLsbD_signExtend, BitVec.getLsbD_setWidth, hj, if_true]
      apply BitVec.eq_of_getLsbD_eq
      intro i hi
      have hclear := low_bits_clear_of_shiftLeft (Nat.pos_of_ne_zero hs) hagree hshift i hi
      rw [BitVec.getLsbD_setWidth, show decide (i < 64) = true by simp; omega,
        Bool.true_and] at hclear
      rw [hclear, BitVec.getLsbD_zero]
  · rintro (⟨rfl, hmsb⟩ | rfl)
    · rw [BitVec.shiftLeft_zero, BitVec.signExtend_eq_setWidth_of_msb_false hmsb]
    · simp

end Foundation
