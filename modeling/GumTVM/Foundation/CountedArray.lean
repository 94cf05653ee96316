import Mathlib.Tactic.Common
import Mathlib.Data.List.Basic

/-!
# Arrays with a count

An array of fixed size whose first entries are in use. Appending stores at the
count without a bound check; as long as the count stays below the size, the
entries in use are the appended items in order.
-/

namespace Foundation

/-- Reading a list by index up to a count gives its first items. -/
theorem filterMap_range_getElem? {α : Type*} (items : List α) (count : Nat) :
    (List.range count).filterMap (fun i => items[i]?) = items.take count := by
  induction count with
  | zero => rfl
  | succ count ih =>
      have hlast : [count].filterMap (fun i => items[i]?) = items[count]?.toList := by
        cases hitem : items[count]? with
        | none => exact List.filterMap_cons_none hitem
        | some item => exact List.filterMap_cons_some hitem
      rw [List.range_succ, List.filterMap_append, ih, hlast, List.take_add_one]

structure CountedArray (α : Type*) (size : Nat) where
  num : Nat
  entries : Vector α size

namespace CountedArray

variable {α : Type*} {size : Nat}

def empty (item : α) : CountedArray α size := ⟨0, Vector.replicate size item⟩

/-- The entries in use. -/
def used (array : CountedArray α size) : List α := array.entries.toList.take array.num

/-- Store at the count and advance it. A store outside the array has no place
in it. -/
def append (array : CountedArray α size) (item : α) : CountedArray α size :=
  ⟨array.num + 1, array.entries.setIfInBounds array.num item⟩

def clear (array : CountedArray α size) : CountedArray α size := { array with num := 0 }

@[simp] theorem append_num (array : CountedArray α size) (item : α) :
    (array.append item).num = array.num + 1 := rfl

@[simp] theorem clear_num (array : CountedArray α size) : array.clear.num = 0 := rfl

theorem used_of_num_eq_zero {array : CountedArray α size} (hnum : array.num = 0) :
    array.used = [] := by
  rw [used, hnum, List.take_zero]

/-- Reading entry after entry up to the count gives those in use. -/
theorem filterMap_entries (array : CountedArray α size) :
    (List.range array.num).filterMap (fun i => array.entries[i]?) = array.used := by
  simp only [← Vector.getElem?_toList]
  exact filterMap_range_getElem? array.entries.toList array.num

theorem used_append {array : CountedArray α size} (hnum : array.num < size) (item : α) :
    (array.append item).used = array.used ++ [item] := by
  have hstored : (array.entries.toList.set array.num item)[array.num]? = some item := by
    apply List.getElem?_set_self
    rwa [Vector.length_toList]
  rw [used, append_num, append, Vector.toList_setIfInBounds, List.take_add_one, hstored,
    List.take_set_of_le (Nat.le_refl _)]
  rfl

end CountedArray

end Foundation
