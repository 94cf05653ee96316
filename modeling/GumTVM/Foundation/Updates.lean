import Mathlib.Data.List.Basic
import Mathlib.Logic.Function.Basic

/-!
# Lists of updates

A list of keys with values updates a function one entry after the other. If no
key comes twice the order does not matter: the listed keys have their values
and the others keep theirs.
-/

namespace Foundation

variable {κ β : Type*} [DecidableEq κ]

def assign (f : κ → β) (updates : List (κ × β)) : κ → β :=
  updates.foldl (fun g update => Function.update g update.1 update.2) f

@[simp] theorem assign_nil (f : κ → β) : assign f [] = f := rfl

theorem assign_cons (f : κ → β) (key : κ) (value : β) (rest : List (κ × β)) :
    assign f ((key, value) :: rest) = assign (Function.update f key value) rest := rfl

theorem assign_of_not_mem (f : κ → β) {updates : List (κ × β)} {key : κ}
    (hkey : key ∉ updates.map Prod.fst) : assign f updates key = f key := by
  induction updates generalizing f with
  | nil => rfl
  | cons update rest ih =>
      obtain ⟨first, value⟩ := update
      rw [List.map_cons, List.mem_cons, not_or] at hkey
      rw [assign_cons, ih _ hkey.2, Function.update_of_ne hkey.1]

theorem assign_of_mem (f : κ → β) {updates : List (κ × β)} {key : κ} {value : β}
    (hnodup : (updates.map Prod.fst).Nodup) (hmem : (key, value) ∈ updates) :
    assign f updates key = value := by
  induction updates generalizing f with
  | nil => cases hmem
  | cons update rest ih =>
      obtain ⟨first, other⟩ := update
      obtain ⟨hfirst, hrest⟩ := List.nodup_cons.mp hnodup
      rw [assign_cons]
      rcases List.mem_cons.mp hmem with heq | hlater
      · obtain ⟨rfl, rfl⟩ := Prod.mk.inj heq
        rw [assign_of_not_mem _ hfirst, Function.update_self]
      · exact ih _ hrest hlater

/-- When the updates of distinct keys lead to a given function. -/
theorem assign_eq_iff {f g : κ → β} {updates : List (κ × β)}
    (hnodup : (updates.map Prod.fst).Nodup) :
    assign f updates = g ↔
      (∀ key, key ∉ updates.map Prod.fst → f key = g key) ∧
        ∀ update ∈ updates, update.2 = g update.1 := by
  constructor
  · rintro rfl
    refine ⟨?_, ?_⟩
    · intro key hkey
      exact (assign_of_not_mem f hkey).symm
    · intro update hmem
      exact (assign_of_mem f hnodup hmem).symm
  · rintro ⟨hkept, hlisted⟩
    funext key
    by_cases hkey : key ∈ updates.map Prod.fst
    · obtain ⟨update, hmem, rfl⟩ := List.mem_map.mp hkey
      rw [assign_of_mem f hnodup hmem, hlisted update hmem]
    · rw [assign_of_not_mem f hkey, hkept key hkey]

end Foundation
