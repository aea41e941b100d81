import Mathlib.Data.List.Basic

/-!
# Runs of a machine

A machine is a step function from a state and an input to the next state, and a run folds it over a
list of inputs. `Always` states a property of every step of a run, over the state before the step
and the input of the step; it is how properties of whole runs are written and how conditions on the
inputs of a run are assumed. The rules below turn one-step facts into facts about runs.
-/

namespace WebServer.Execution

variable {σ ι : Type*} {step : σ → ι → σ}

/-- The state after a list of inputs. -/
def run (step : σ → ι → σ) (state : σ) (inputs : List ι) : σ :=
  inputs.foldl step state

@[simp]
theorem run_nil (state : σ) : run step state [] = state := rfl

@[simp]
theorem run_cons (state : σ) (input : ι) (inputs : List ι) :
    run step state (input :: inputs) = run step (step state input) inputs := rfl

theorem run_append (state : σ) (first second : List ι) :
    run step state (first ++ second) = run step (run step state first) second :=
  List.foldl_append

/-- Every step of the run satisfies `property` of the state before it and its input. -/
def Always (step : σ → ι → σ) (property : σ → ι → Prop) : σ → List ι → Prop
  | _, [] => True
  | state, input :: inputs => property state input ∧ Always step property (step state input) inputs

instance (property : σ → ι → Prop) [∀ state input, Decidable (property state input)] :
    ∀ (inputs : List ι) (state : σ), Decidable (Always step property state inputs)
  | [], _ => inferInstanceAs (Decidable True)
  | input :: inputs, state =>
    have := instDecidableAlways property inputs (step state input)
    inferInstanceAs (Decidable (_ ∧ _))

theorem always_append {property : σ → ι → Prop} {state : σ} {first second : List ι} :
    Always step property state (first ++ second) ↔
      Always step property state first ∧ Always step property (run step state first) second := by
  induction first generalizing state with
  | nil => exact (and_iff_right trivial).symm
  | cons input first ih =>
    rw [List.cons_append, Always, Always, ih, run_cons, and_assoc]

section Rules

variable {invariant : σ → Prop} {property condition : σ → ι → Prop}

/-- An invariant kept by every step that meets the condition holds after a run that meets it. -/
theorem run_invariant
    (hstep : ∀ state input, invariant state → condition state input →
      invariant (step state input))
    {state : σ} {inputs : List ι} (hstart : invariant state)
    (hcond : Always step condition state inputs) : invariant (run step state inputs) := by
  induction inputs generalizing state with
  | nil => exact hstart
  | cons input inputs ih => exact ih (hstep state input hstart hcond.1) hcond.2

/-- An invariant kept by every step holds after every run. -/
theorem run_invariant_of_forall (hstep : ∀ state input, invariant state →
    invariant (step state input)) {state : σ} (hstart : invariant state) (inputs : List ι) :
    invariant (run step state inputs) := by
  induction inputs generalizing state with
  | nil => exact hstart
  | cons input inputs ih => exact ih (hstep state input hstart)

/-- What an invariant kept by every step that meets the condition gives for such a step holds of every
step of a run that meets it. -/
theorem always_of_kept (invariant : σ → Prop)
    (hstep : ∀ state input, invariant state → condition state input →
      invariant (step state input))
    (hproperty : ∀ state input, invariant state → condition state input → property state input)
    {state : σ} {inputs : List ι} (hstart : invariant state)
    (hcond : Always step condition state inputs) : Always step property state inputs := by
  induction inputs generalizing state with
  | nil => trivial
  | cons input inputs ih =>
    exact ⟨hproperty state input hstart hcond.1, ih (hstep state input hstart hcond.1) hcond.2⟩

/-- A condition on the inputs alone. -/
theorem always_of_forall (step : σ → ι → σ) {allowed : ι → Prop} {inputs : List ι}
    (h : ∀ input ∈ inputs, allowed input) (state : σ) :
    Always step (fun _ input ↦ allowed input) state inputs := by
  induction inputs generalizing state with
  | nil => trivial
  | cons input inputs ih =>
    obtain ⟨hinput, hinputs⟩ := List.forall_mem_cons.mp h
    exact ⟨hinput, ih hinputs (step state input)⟩

/-- Two machines that take the same steps where the condition holds have the same runs there. -/
theorem run_congr {step' : σ → ι → σ}
    (hstep : ∀ state input, condition state input → step' state input = step state input)
    {state : σ} {inputs : List ι} (hcond : Always step condition state inputs) :
    run step' state inputs = run step state inputs := by
  induction inputs generalizing state with
  | nil => rfl
  | cons input inputs ih =>
    rw [run_cons, run_cons, hstep state input hcond.1]
    exact ih hcond.2

/-- Two step properties that agree under an invariant agree along every run, if the steps that have
the second one keep the invariant. -/
theorem always_congr_of_kept (invariant : σ → Prop)
    (hstep : ∀ state input, invariant state → condition state input →
      invariant (step state input))
    (hiff : ∀ state input, invariant state → (property state input ↔ condition state input))
    {state : σ} (hstart : invariant state) (inputs : List ι) :
    Always step property state inputs ↔ Always step condition state inputs := by
  induction inputs generalizing state with
  | nil => rfl
  | cons input inputs ih =>
    unfold Always
    rw [hiff state input hstart]
    exact and_congr_right fun hcond ↦ ih (hstep state input hstart hcond)

/-- Under an invariant of all runs, two step properties that agree agree along every run. -/
theorem always_congr (invariant : σ → Prop)
    (hstep : ∀ state input, invariant state → invariant (step state input))
    (hiff : ∀ state input, invariant state → (property state input ↔ condition state input))
    {state : σ} (hstart : invariant state) (inputs : List ι) :
    Always step property state inputs ↔ Always step condition state inputs :=
  always_congr_of_kept invariant (fun state input h _ ↦ hstep state input h) hiff hstart inputs

end Rules

end WebServer.Execution
