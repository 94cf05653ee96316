import Mathlib.Tactic.Common
import Mathlib.Data.List.Basic
import Mathlib.Algebra.Group.Nat.Defs

/-!
# Input streams over finite contents

The positioning and reading part of a C++ `istream`. A failure sticks: once a
seek or a read has failed, later seeks and reads leave the stream as it is and
transfer nothing. A read that comes short is a failure.
-/

namespace Foundation

variable {α : Type*}

/-- What a stream reads from; offsets into it are nonnegative 64-bit integers. -/
structure Contents (α : Type*) where
  items : List α
  length_lt : items.length < 2 ^ 63

namespace Contents

/-- The items from an offset on, up to a number of them. -/
def slice (contents : Contents α) (start count : Nat) : List α :=
  (contents.items.drop start).take count

/-- All items of the slice exist. -/
def Covers (contents : Contents α) (start count : Nat) : Prop :=
  start + count ≤ contents.items.length

instance (contents : Contents α) (start count : Nat) : Decidable (contents.Covers start count) :=
  inferInstanceAs (Decidable (_ ≤ _))

theorem slice_length (contents : Contents α) (start count : Nat) :
    (contents.slice start count).length = min count (contents.items.length - start) := by
  simp [slice]

theorem Covers.slice_length {contents : Contents α} {start count : Nat}
    (hcovers : contents.Covers start count) : (contents.slice start count).length = count := by
  unfold Covers at hcovers
  rw [Contents.slice_length]
  omega

theorem slice_length_eq_iff {contents : Contents α} {start count : Nat} (hcount : 0 < count) :
    (contents.slice start count).length = count ↔ contents.Covers start count := by
  unfold Covers
  rw [slice_length]
  omega

/-- The contents cut off after some of their items. -/
def cut (contents : Contents α) (length : Nat) : Contents α where
  items := contents.items.take length
  length_lt := Nat.lt_of_le_of_lt (List.length_take_le' length contents.items) contents.length_lt

theorem Covers.of_cut {contents : Contents α} {length start count : Nat}
    (hcovers : (contents.cut length).Covers start count) : contents.Covers start count :=
  Nat.le_trans hcovers (List.length_take_le' length contents.items)

/-- What the cut contents cover is what it was. -/
theorem Covers.slice_cut {contents : Contents α} {length start count : Nat}
    (hcovers : (contents.cut length).Covers start count) :
    (contents.cut length).slice start count = contents.slice start count := by
  unfold Covers cut at hcovers
  rw [List.length_take] at hcovers
  unfold slice cut
  rw [List.drop_take, List.take_take]
  congr 1
  omega

end Contents

structure InputStream (α : Type*) where
  contents : Contents α
  position : Nat
  failed : Bool

namespace InputStream

/-- A stream that was just opened. -/
def opened (contents : Contents α) : InputStream α where
  contents := contents
  position := 0
  failed := false

/-- `seekg(offset)`. A position after the end is accepted, a negative one is not. -/
def seekg (stream : InputStream α) (offset : BitVec 64) : InputStream α :=
  if stream.failed then stream
  else if offset.msb then { stream with failed := true }
  else { stream with position := offset.toNat }

/-- `seekg(0, end)` -/
def seekEnd (stream : InputStream α) : InputStream α :=
  if stream.failed then stream
  else { stream with position := stream.contents.items.length }

/-- `tellg()` -/
def tellg (stream : InputStream α) : BitVec 64 :=
  if stream.failed then -1 else BitVec.ofNat 64 stream.position

/-- `read(buffer, count)`: the items transferred, whose number is `gcount()`. -/
def read (stream : InputStream α) (count : Nat) : List α × InputStream α :=
  if stream.failed then ([], stream)
  else
    let got := stream.contents.slice stream.position count
    (got, { stream with
      position := stream.position + got.length
      failed := decide (got.length ≠ count) })

/-- A seek followed by a read. -/
def readAt (stream : InputStream α) (offset : BitVec 64) (count : Nat) :
    List α × InputStream α :=
  (stream.seekg offset).read count

section Laws

variable {stream : InputStream α} {offset : BitVec 64} {count : Nat}

@[simp] theorem seekg_contents (stream : InputStream α) (offset : BitVec 64) :
    (stream.seekg offset).contents = stream.contents := by
  unfold seekg
  split
  · rfl
  · split <;> rfl

@[simp] theorem seekEnd_contents (stream : InputStream α) :
    stream.seekEnd.contents = stream.contents := by
  unfold seekEnd
  split <;> rfl

@[simp] theorem seekEnd_failed (stream : InputStream α) :
    stream.seekEnd.failed = stream.failed := by
  unfold seekEnd
  split <;> rfl

@[simp] theorem read_contents (stream : InputStream α) (count : Nat) :
    (stream.read count).2.contents = stream.contents := by
  unfold read
  split <;> rfl

@[simp] theorem readAt_contents (stream : InputStream α) (offset : BitVec 64) (count : Nat) :
    (stream.readAt offset count).2.contents = stream.contents := by
  simp [readAt]

theorem seekEnd_of_failed (hfailed : stream.failed = true) : stream.seekEnd = stream := by
  simp [seekEnd, hfailed]

/-- Nothing is read from a failed stream. -/
theorem readAt_of_failed (hfailed : stream.failed = true) :
    stream.readAt offset count = ([], stream) := by
  simp [readAt, read, seekg, hfailed]

/-- A seek fails a good stream only at a negative offset. -/
theorem seekg_good_iff (stream : InputStream α) (offset : BitVec 64) :
    (stream.seekg offset).failed = false ↔ stream.failed = false ∧ offset.toNat < 2 ^ 63 := by
  have hmsb : offset.msb = false ↔ offset.toNat < 2 ^ 63 := by
    rw [BitVec.msb_eq_false_iff_two_mul_lt]
    omega
  unfold seekg
  split
  · next hfailed => simp [hfailed]
  · next hgood =>
      rw [← hmsb, and_iff_right (eq_false_of_ne_true hgood)]
      split
      · next hnegative => simp [hnegative]
      · next hpositive => simp [hpositive, hgood]

/-- The size of the contents, or the largest number once the stream has failed. -/
theorem tellg_seekEnd (stream : InputStream α) :
    stream.seekEnd.tellg.toNat =
      if stream.failed then 2 ^ 64 - 1 else stream.contents.items.length := by
  have hlength := stream.contents.length_lt
  unfold tellg
  rw [seekEnd_failed]
  split
  · rfl
  · next hfailed =>
      simp only [seekEnd, if_neg hfailed, BitVec.toNat_ofNat]
      omega

theorem readAt_length_le (stream : InputStream α) (offset : BitVec 64) (count : Nat) :
    (stream.readAt offset count).1.length ≤ count := by
  unfold readAt read
  split
  · exact Nat.zero_le count
  · exact List.length_take_le ..

/-- A read inside the contents succeeds. -/
theorem readAt_covered (hgood : stream.failed = false)
    (hcovers : stream.contents.Covers offset.toNat count) :
    stream.readAt offset count =
      (stream.contents.slice offset.toNat count,
        { stream with position := offset.toNat + count }) := by
  have hmsb : offset.msb = false := by
    have hlength := stream.contents.length_lt
    unfold Contents.Covers at hcovers
    rw [BitVec.msb_eq_false_iff_two_mul_lt]
    omega
  simp [readAt, seekg, read, hgood, hmsb, hcovers.slice_length]

/-- A read that needs more than the contents have fails the stream. -/
theorem readAt_short (hcount : 0 < count)
    (hshort : ¬ stream.contents.Covers offset.toNat count) :
    (stream.readAt offset count).2.failed = true ∧
      (stream.readAt offset count).1.length < count := by
  cases hfailed : stream.failed with
  | true =>
      rw [readAt_of_failed hfailed]
      exact ⟨hfailed, hcount⟩
  | false =>
      cases hmsb : offset.msb with
      | true => simp [readAt, seekg, read, hfailed, hmsb, hcount]
      | false =>
          have hlength : (stream.contents.slice offset.toNat count).length ≠ count :=
            fun hfull => hshort ((Contents.slice_length_eq_iff hcount).mp hfull)
          have hbound := stream.contents.slice_length offset.toNat count
          simp only [readAt, seekg, read, hfailed, hmsb, Bool.false_eq_true, if_false]
          exact ⟨by simpa using hlength, by omega⟩

/-- A read leaves the stream good exactly when it was good and the items exist. -/
theorem readAt_good_iff (stream : InputStream α) (offset : BitVec 64) (hcount : 0 < count) :
    (stream.readAt offset count).2.failed = false ↔
      stream.failed = false ∧ stream.contents.Covers offset.toNat count := by
  constructor
  · intro hgood
    have hcovers : stream.contents.Covers offset.toNat count := by
      by_contra hshort
      rw [(readAt_short hcount hshort).1] at hgood
      cases hgood
    refine ⟨?_, hcovers⟩
    cases hfailed : stream.failed with
    | false => rfl
    | true =>
        rw [readAt_of_failed hfailed] at hgood
        exact hfailed.symm.trans hgood
  · intro hcovered
    rw [readAt_covered hcovered.1 hcovered.2]
    exact hcovered.1

/-- All items are transferred exactly when the stream was good and they exist. -/
theorem readAt_full_iff (stream : InputStream α) (offset : BitVec 64) (hcount : 0 < count) :
    (stream.readAt offset count).1.length = count ↔
      stream.failed = false ∧ stream.contents.Covers offset.toNat count := by
  rw [← readAt_good_iff stream offset hcount]
  constructor
  · intro hfull
    by_contra hfailed
    have hcovers : ¬ (stream.failed = false ∧ stream.contents.Covers offset.toNat count) :=
      fun hcovered => hfailed ((readAt_good_iff stream offset hcount).mpr hcovered)
    cases hstream : stream.failed with
    | true =>
        rw [readAt_of_failed hstream] at hfull
        exact Nat.ne_of_lt hcount hfull
    | false =>
        have hshort := readAt_short hcount fun hcover => hcovers ⟨hstream, hcover⟩
        omega
  · intro hgood
    have hcovered := (readAt_good_iff stream offset hcount).mp hgood
    rw [readAt_covered hcovered.1 hcovered.2]
    exact hcovered.2.slice_length

end Laws

end InputStream

end Foundation
