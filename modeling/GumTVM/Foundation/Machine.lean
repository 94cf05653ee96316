import Mathlib.Tactic.Common
import Mathlib.Data.List.Basic
import Mathlib.Data.List.Induction

/-!
# Runs of partial machines with output

A machine consumes inputs one at a time; a step may be refused. A run collects
the outputs in order and exists exactly when no step of it was refused. The
invariant rules below are the only inductions over runs that users need.
-/

namespace Foundation

variable {σ ι ο : Type*}

/-- Feed a list of inputs to a machine, collecting its outputs. -/
def runFrom (step : σ → ι → Option (σ × ο)) : σ → List ι → Option (σ × List ο)
  | state, [] => some (state, [])
  | state, input :: rest =>
      (step state input).bind fun (next, output) =>
        (runFrom step next rest).map fun (last, outputs) => (last, output :: outputs)

variable {step : σ → ι → Option (σ × ο)}

@[simp] theorem runFrom_nil (state : σ) : runFrom step state [] = some (state, []) := rfl

theorem runFrom_cons_eq_some {state last : σ} {input : ι} {rest : List ι} {outputs : List ο} :
    runFrom step state (input :: rest) = some (last, outputs) ↔
      ∃ next output later, step state input = some (next, output) ∧
        runFrom step next rest = some (last, later) ∧ outputs = output :: later := by
  rw [runFrom, Option.bind_eq_some_iff]
  constructor
  · intro hsome
    obtain ⟨⟨next, output⟩, hstep, hrest⟩ := hsome
    obtain ⟨⟨final, later⟩, hlater, heq⟩ := Option.map_eq_some_iff.mp hrest
    obtain ⟨rfl, rfl⟩ := Prod.mk.inj heq
    exact ⟨next, output, later, hstep, hlater, rfl⟩
  · intro hsplit
    obtain ⟨next, output, later, hstep, hlater, rfl⟩ := hsplit
    exact ⟨(next, output), hstep, by simp only [hlater, Option.map_some]⟩

theorem runFrom_append_eq_some {state last : σ} {first second : List ι} {outputs : List ο} :
    runFrom step state (first ++ second) = some (last, outputs) ↔
      ∃ middle early late, runFrom step state first = some (middle, early) ∧
        runFrom step middle second = some (last, late) ∧ outputs = early ++ late := by
  induction first generalizing state outputs with
  | nil => simp
  | cons input rest ih =>
      simp only [List.cons_append, runFrom_cons_eq_some, ih]
      constructor
      · intro hsplit
        obtain ⟨next, output, _, hstep, ⟨middle, early, late, hearly, hlate, rfl⟩, rfl⟩ := hsplit
        exact ⟨middle, output :: early, late, ⟨next, output, early, hstep, hearly, rfl⟩,
          hlate, rfl⟩
      · intro hsplit
        obtain ⟨middle, _, late, ⟨next, output, early, hstep, hearly, rfl⟩, hlate, rfl⟩ := hsplit
        exact ⟨next, output, early ++ late, hstep, ⟨middle, early, late, hearly, hlate, rfl⟩, rfl⟩

theorem runFrom_snoc_eq_some {state last : σ} {inputs : List ι} {input : ι} {outputs : List ο} :
    runFrom step state (inputs ++ [input]) = some (last, outputs) ↔
      ∃ middle early output, runFrom step state inputs = some (middle, early) ∧
        step middle input = some (last, output) ∧ outputs = early ++ [output] := by
  rw [runFrom_append_eq_some]
  constructor
  · intro hsplit
    obtain ⟨middle, early, late, hearly, hlate, rfl⟩ := hsplit
    obtain ⟨next, output, _, hstep, hnil, rfl⟩ := runFrom_cons_eq_some.mp hlate
    obtain ⟨rfl, rfl⟩ := Prod.mk.inj (Option.some.inj hnil)
    exact ⟨middle, early, output, hearly, hstep, rfl⟩
  · intro hsplit
    obtain ⟨middle, early, output, hearly, hstep, rfl⟩ := hsplit
    exact ⟨middle, early, [output], hearly,
      runFrom_cons_eq_some.mpr ⟨last, output, [], hstep, rfl, rfl⟩, rfl⟩

/-- A run has one output for each input. -/
theorem runFrom_length {state last : σ} {inputs : List ι} {outputs : List ο}
    (hrun : runFrom step state inputs = some (last, outputs)) :
    outputs.length = inputs.length := by
  induction inputs generalizing state outputs with
  | nil =>
      obtain ⟨-, rfl⟩ := Prod.mk.inj (Option.some.inj hrun)
      rfl
  | cons input rest ih =>
      obtain ⟨next, output, later, _, hlater, rfl⟩ := runFrom_cons_eq_some.mp hrun
      rw [List.length_cons, List.length_cons, ih hlater]

/-- A predicate on the outputs so far and the state, preserved by every step on
an allowed input, holds after a run of allowed inputs. -/
theorem runFrom_history_invariant (allowed : ι → Prop) (invariant : List ο → σ → Prop)
    (hstep : ∀ log state input next output, allowed input → invariant log state →
      step state input = some (next, output) → invariant (log ++ [output]) next)
    {state last : σ} {inputs : List ι} {outputs : List ο}
    (hallowed : ∀ input ∈ inputs, allowed input) (hstart : invariant [] state)
    (hrun : runFrom step state inputs = some (last, outputs)) : invariant outputs last := by
  -- on the end of the run, where the log grows
  induction inputs using List.reverseRecOn generalizing last outputs with
  | nil =>
      obtain ⟨rfl, rfl⟩ := Prod.mk.inj (Option.some.inj hrun)
      exact hstart
  | append_singleton inputs input ih =>
      obtain ⟨middle, early, output, hearly, hlast, rfl⟩ := runFrom_snoc_eq_some.mp hrun
      have hprior := ih (fun other hother =>
        hallowed other (List.mem_append_left _ hother)) hearly
      exact hstep early middle input last output (hallowed input (by simp)) hprior hlast

/-- The same for a predicate that also sees the inputs so far. Inputs are allowed
at their places. -/
theorem runFrom_run_invariant (allowed : List ι → ι → Prop)
    (invariant : List ι → List ο → σ → Prop)
    (hstep : ∀ done log state input next output, allowed done input →
      invariant done log state → step state input = some (next, output) →
        invariant (done ++ [input]) (log ++ [output]) next)
    {state last : σ} {inputs : List ι} {outputs : List ο}
    (hallowed : ∀ done input rest, inputs = done ++ input :: rest → allowed done input)
    (hstart : invariant [] [] state)
    (hrun : runFrom step state inputs = some (last, outputs)) : invariant inputs outputs last := by
  induction inputs using List.reverseRecOn generalizing last outputs with
  | nil =>
      obtain ⟨rfl, rfl⟩ := Prod.mk.inj (Option.some.inj hrun)
      exact hstart
  | append_singleton inputs input ih =>
      obtain ⟨middle, early, output, hearly, hlast, rfl⟩ := runFrom_snoc_eq_some.mp hrun
      have hprior : invariant inputs early middle := by
        refine ih ?_ hearly
        rintro done other rest rfl
        exact hallowed done other (rest ++ [input]) (by simp)
      exact hstep inputs early middle input last output (hallowed inputs input [] rfl) hprior hlast

/-- What every step relates to its input holds of each output of a run. -/
theorem runFrom_forall₂ (relation : ι → ο → Prop)
    (hstep : ∀ state input next output, step state input = some (next, output) →
      relation input output)
    {state last : σ} {inputs : List ι} {outputs : List ο}
    (hrun : runFrom step state inputs = some (last, outputs)) :
    List.Forall₂ relation inputs outputs := by
  induction inputs generalizing state outputs with
  | nil =>
      obtain ⟨-, rfl⟩ := Prod.mk.inj (Option.some.inj hrun)
      exact List.Forall₂.nil
  | cons input rest ih =>
      obtain ⟨next, output, later, hnext, hlater, rfl⟩ := runFrom_cons_eq_some.mp hrun
      exact List.Forall₂.cons (hstep state input next output hnext) (ih hlater)

/-- What every step from a state with an invariant relates to its input holds of
each output of a run. -/
theorem runFrom_forall₂_invariant (invariant : σ → Prop) (relation : ι → ο → Prop)
    (hstep : ∀ state input next output, invariant state →
      step state input = some (next, output) → invariant next ∧ relation input output)
    {state last : σ} {inputs : List ι} {outputs : List ο} (hstart : invariant state)
    (hrun : runFrom step state inputs = some (last, outputs)) :
    List.Forall₂ relation inputs outputs := by
  induction inputs generalizing state outputs with
  | nil =>
      obtain ⟨-, rfl⟩ := Prod.mk.inj (Option.some.inj hrun)
      exact List.Forall₂.nil
  | cons input rest ih =>
      obtain ⟨next, output, later, hnext, hlater, rfl⟩ := runFrom_cons_eq_some.mp hrun
      obtain ⟨hinvariant, hrelated⟩ := hstep state input next output hstart hnext
      exact List.Forall₂.cons hrelated (ih hinvariant hlater)

/-- A machine whose steps are steps of another one, seen through an abstraction
of its states and a view of its outputs, has runs of the other one. -/
theorem runFrom_refines {σ' ο' : Type*} {abstractStep : σ' → ι → Option (σ' × ο')}
    (abstraction : σ → σ') (view : ο → ο')
    (hstep : ∀ state input next output, step state input = some (next, output) →
      abstractStep (abstraction state) input = some (abstraction next, view output))
    {state last : σ} {inputs : List ι} {outputs : List ο}
    (hrun : runFrom step state inputs = some (last, outputs)) :
    runFrom abstractStep (abstraction state) inputs =
      some (abstraction last, outputs.map view) := by
  induction inputs generalizing state outputs with
  | nil =>
      obtain ⟨rfl, rfl⟩ := Prod.mk.inj (Option.some.inj hrun)
      rfl
  | cons input rest ih =>
      obtain ⟨next, output, later, hnext, hlater, rfl⟩ := runFrom_cons_eq_some.mp hrun
      exact runFrom_cons_eq_some.mpr
        ⟨abstraction next, view output, later.map view, hstep state input next output hnext,
          ih hlater, rfl⟩

/-- Two machines that answer every input alike in related states, and stay related,
have the same outputs on every run. -/
theorem runFrom_related {σ' : Type*} {otherStep : σ' → ι → Option (σ' × ο)} (allowed : ι → Prop)
    (relation : σ → σ' → Prop)
    (hstep : ∀ state other input, allowed input → relation state other →
      Option.Rel (fun first second => relation first.1 second.1 ∧ first.2 = second.2)
        (step state input) (otherStep other input))
    {state : σ} {other : σ'} (hrelated : relation state other) {inputs : List ι}
    (hinputs : ∀ input ∈ inputs, allowed input) :
    Option.Rel (fun first second => relation first.1 second.1 ∧ first.2 = second.2)
      (runFrom step state inputs) (runFrom otherStep other inputs) := by
  induction inputs generalizing state other with
  | nil => exact .some ⟨hrelated, rfl⟩
  | cons input rest ih =>
      rw [runFrom, runFrom]
      have hhere := hstep state other input (hinputs input List.mem_cons_self) hrelated
      generalize step state input = answer at hhere
      generalize otherStep other input = otherAnswer at hhere
      cases hhere with
      | none => exact .none
      | @some first second hboth =>
          obtain ⟨next, output⟩ := first
          obtain ⟨otherNext, otherOutput⟩ := second
          obtain ⟨hnext, rfl⟩ := hboth
          have hlater := ih hnext fun later hlater => hinputs later (List.mem_cons_of_mem _ hlater)
          dsimp only [Option.bind_some]
          generalize runFrom step next rest = run at hlater
          generalize runFrom otherStep otherNext rest = otherRun at hlater
          cases hlater with
          | none => exact .none
          | some hlast => exact .some ⟨hlast.1, congrArg _ hlast.2⟩

/-! ## Runs of a labelled relation -/

/-- One step for each label, from the first state to the last. -/
def stepsAlong (step : ι → σ → σ → Prop) : List ι → σ → σ → Prop
  | [], before, after => after = before
  | label :: rest, before, after =>
      ∃ middle, step label before middle ∧ stepsAlong step rest middle after

end Foundation
