import Mathlib.Tactic.Common
import Mathlib.Data.List.Pairwise
import Mathlib.Data.List.Induction

/-!
# Half-open spans and last-match scans

A span contains its lower end and not its upper one, and is never empty. In a
list of pairwise disjoint spans at most one contains a given point. A left fold
that overwrites its accumulator at every match ends with the last match.
-/

namespace Foundation

/-- The half-open interval from `lower` to `upper`. -/
structure Span (α : Type*) [LT α] where
  lower : α
  upper : α
  nonempty : lower < upper

namespace Span

variable {α : Type*} [LE α] [LT α]

def Contains (span : Span α) (point : α) : Prop := span.lower ≤ point ∧ point < span.upper

instance [DecidableLE α] [DecidableLT α] (span : Span α) (point : α) :
    Decidable (span.Contains point) :=
  inferInstanceAs (Decidable (_ ∧ _))

/-- No point lies in both spans. -/
def Disjoint (first second : Span α) : Prop :=
  ∀ point, first.Contains point → ¬ second.Contains point

instance : Std.Symm (@Span.Disjoint α _ _) where
  symm _ _ hdisjoint point hsecond hfirst := hdisjoint point hfirst hsecond

/-- Among pairwise disjoint spans the one containing a point is unique. -/
theorem eq_of_contains {spans : List (Span α)} (hspans : spans.Pairwise Span.Disjoint)
    {first second : Span α} (hfirst : first ∈ spans) (hsecond : second ∈ spans) {point : α}
    (hpoint : first.Contains point) (hother : second.Contains point) : first = second := by
  by_contra hne
  exact hspans.forall hfirst hsecond hne point hpoint hother

section

variable [Std.IsLinearOrder α]

theorem contains_lower (span : Span α) : span.Contains span.lower :=
  ⟨Std.le_refl _, span.nonempty⟩

variable [Std.LawfulOrderLT α]

/-- A point of a span is its lower end or lies strictly inside. -/
theorem contains_iff (span : Span α) (point : α) :
    span.Contains point ↔ point = span.lower ∨ (span.lower < point ∧ point < span.upper) := by
  constructor
  · intro hcontains
    obtain ⟨hlower, hupper⟩ := hcontains
    by_cases heq : point = span.lower
    · exact Or.inl heq
    · exact Or.inr ⟨Std.lt_of_le_of_ne hlower (Ne.symm heq), hupper⟩
  · rintro (rfl | ⟨hlower, hupper⟩)
    · exact span.contains_lower
    · exact ⟨Std.le_of_lt hlower, hupper⟩

end

end Span

/-! ## Last match -/

section LastMatch

variable {ι β : Type*} (select : ι → Prop) [DecidablePred select] (value : ι → β)

def lastMatch (init : β) (items : List ι) : β :=
  items.foldl (fun acc item => if select item then value item else acc) init

theorem lastMatch_snoc (init : β) (items : List ι) (item : ι) :
    lastMatch select value init (items ++ [item]) =
      if select item then value item else lastMatch select value init items := by
  simp [lastMatch]

/-- When all matching items carry one value, a scan that matches yields it. -/
theorem lastMatch_of_unique {items : List ι} {item : ι} (init : β) (hitem : item ∈ items)
    (hselect : select item)
    (hunique : ∀ other ∈ items, select other → value other = value item) :
    lastMatch select value init items = value item := by
  -- the last item decides if it matches, and is skipped otherwise
  induction items using List.reverseRecOn with
  | nil => cases hitem
  | append_singleton items last ih =>
      rw [lastMatch_snoc]
      by_cases hlast : select last
      · rw [if_pos hlast, hunique last (by simp) hlast]
      · rw [if_neg hlast]
        have hne : item ≠ last := by
          rintro rfl
          exact hlast hselect
        refine ih ?_ fun other hother => hunique other (List.mem_append_left _ hother)
        simpa [hne] using hitem

/-- A scan over items some of which match yields the value of one of them. -/
theorem exists_lastMatch {items : List ι} {item : ι} (init : β) (hitem : item ∈ items)
    (hselect : select item) :
    ∃ found ∈ items, select found ∧ lastMatch select value init items = value found := by
  induction items using List.reverseRecOn with
  | nil => cases hitem
  | append_singleton items last ih =>
      rw [lastMatch_snoc]
      by_cases hlast : select last
      · exact ⟨last, by simp, hlast, if_pos hlast⟩
      · have hearlier : item ∈ items := by
          rcases List.mem_append.mp hitem with hearlier | hsame
          · exact hearlier
          · exact absurd (List.mem_singleton.mp hsame ▸ hselect) hlast
        obtain ⟨found, hfound, hmatch, hvalue⟩ := ih hearlier
        exact ⟨found, List.mem_append_left _ hfound, hmatch, (if_neg hlast).trans hvalue⟩

end LastMatch

end Foundation
