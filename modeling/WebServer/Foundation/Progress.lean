import Mathlib.Order.Nat
import WebServer.Foundation.Execution

/-!
# Progress under fair schedules

Several parties take steps on one state in any order. A schedule is fair if it can be cut into rounds in
each of which every party takes a step. A `Progress` is what it takes to come to an end under every
such schedule: a measure that no step increases, and at every moment a party whose next step decreases
it, whatever the other parties do before. All of it is about schedules of allowed inputs.
-/

namespace WebServer.Execution

variable {σ ι : Type*} {step : σ → ι → σ} {allowed : ι → Prop}

/-- `finished` is reached under every schedule in which every party moves again and again. -/
structure Progress (step : σ → ι → σ) (allowed : ι → Prop) (party : Type*) where
  invariant : σ → Prop
  finished : σ → Prop
  measure : σ → ℕ
  moves : party → ι → Prop
  enabled : party → σ → Prop
  kept : ∀ state input, invariant state → allowed input → invariant (step state input)
  stays : ∀ state input, invariant state → allowed input → finished state →
    finished (step state input)
  falls : ∀ state input, invariant state → allowed input →
    measure (step state input) ≤ measure state ∨ finished (step state input)
  live : ∀ state, invariant state → ¬ finished state → ∃ p, enabled p state
  fires : ∀ state input p, invariant state → allowed input → ¬ finished state → enabled p state →
    moves p input → measure (step state input) < measure state ∨ finished (step state input)
  waits : ∀ state input p, invariant state → allowed input → ¬ finished state → enabled p state →
    enabled p (step state input) ∨ measure (step state input) < measure state ∨
      finished (step state input)

namespace Progress

variable {party : Type*} (progress : Progress step allowed party) {state : σ} {inputs : List ι}

theorem kept_run (h : progress.invariant state) (hallowed : ∀ input ∈ inputs, allowed input) :
    progress.invariant (run step state inputs) :=
  run_invariant progress.kept h (always_of_forall step hallowed state)

theorem stays_run (h : progress.invariant state) (hfinished : progress.finished state)
    (hallowed : ∀ input ∈ inputs, allowed input) : progress.finished (run step state inputs) := by
  induction inputs generalizing state with
  | nil => exact hfinished
  | cons input inputs ih =>
    obtain ⟨hinput, hinputs⟩ := List.forall_mem_cons.mp hallowed
    exact ih (progress.kept state input h hinput) (progress.stays state input h hinput hfinished) hinputs

theorem falls_run (h : progress.invariant state) (hallowed : ∀ input ∈ inputs, allowed input) :
    progress.measure (run step state inputs) ≤ progress.measure state ∨
      progress.finished (run step state inputs) := by
  induction inputs generalizing state with
  | nil => exact .inl le_rfl
  | cons input inputs ih =>
    obtain ⟨hinput, hinputs⟩ := List.forall_mem_cons.mp hallowed
    have hnext := progress.kept state input h hinput
    rw [run_cons]
    obtain hle | hend := progress.falls state input h hinput
    · exact (ih hnext hinputs).imp_left fun hrun ↦ hrun.trans hle
    · exact .inr (progress.stays_run hnext hend hinputs)

/-- A step that brings the end nearer does so for the whole run. -/
theorem finished_or_lt_of_step {input : ι} (h : progress.invariant (step state input))
    (hallowed : ∀ input ∈ inputs, allowed input)
    (hstep : progress.measure (step state input) < progress.measure state ∨
      progress.finished (step state input)) :
    progress.finished (run step state (input :: inputs)) ∨
      progress.measure (run step state (input :: inputs)) < progress.measure state := by
  rw [run_cons]
  obtain hlt | hend := hstep
  · exact (progress.falls_run h hallowed).symm.imp_right fun hle ↦ hle.trans_lt hlt
  · exact .inl (progress.stays_run h hend hallowed)

/-- A party that could move has moved at the end of the round, unless others have made its move
unnecessary. -/
theorem finished_or_lt_of_enabled (h : progress.invariant state) {p : party}
    (henabled : progress.enabled p state) (hallowed : ∀ input ∈ inputs, allowed input)
    (hmoves : ∃ input ∈ inputs, progress.moves p input) :
    progress.finished (run step state inputs) ∨
      progress.measure (run step state inputs) < progress.measure state := by
  induction inputs generalizing state with
  | nil =>
    obtain ⟨input, hmem, -⟩ := hmoves
    exact absurd hmem List.not_mem_nil
  | cons input inputs ih =>
    obtain ⟨hinput, hinputs⟩ := List.forall_mem_cons.mp hallowed
    have hnext := progress.kept state input h hinput
    by_cases hfinished : progress.finished state
    · exact .inl (progress.stays_run h hfinished hallowed)
    by_cases hmove : progress.moves p input
    · have hfires := progress.fires state input p h hinput hfinished henabled hmove
      exact progress.finished_or_lt_of_step hnext hinputs hfires
    obtain hstill | hwaits := progress.waits state input p h hinput hfinished henabled
    · have hlater : ∃ input ∈ inputs, progress.moves p input := by
        obtain ⟨other, hmem, hother⟩ := hmoves
        obtain rfl | hmem := List.mem_cons.mp hmem
        · exact absurd hother hmove
        · exact ⟨other, hmem, hother⟩
      rw [run_cons]
      obtain hle | hend := progress.falls state input h hinput
      · exact (ih hnext hstill hinputs hlater).imp_right fun hlt ↦ hlt.trans_le hle
      · exact .inl (progress.stays_run hnext hend hinputs)
    · exact progress.finished_or_lt_of_step hnext hinputs hwaits

/-- A fair schedule with more rounds than the measure comes to the end. -/
theorem finished_of_rounds (h : progress.invariant state) {rounds : List (List ι)}
    (hallowed : ∀ round ∈ rounds, ∀ input ∈ round, allowed input)
    (hfair : ∀ round ∈ rounds, ∀ p, ∃ input ∈ round, progress.moves p input)
    (hlength : progress.measure state < rounds.length) :
    progress.finished (run step state rounds.flatten) := by
  induction rounds generalizing state with
  | nil => exact absurd hlength (Nat.not_lt_zero _)
  | cons round rounds ih =>
    obtain ⟨hround, hrounds⟩ := List.forall_mem_cons.mp hfair
    obtain ⟨hfirst, hothers⟩ := List.forall_mem_cons.mp hallowed
    have hrest : ∀ input ∈ rounds.flatten, allowed input := by
      intro input hmem
      obtain ⟨other, hother, hinput⟩ := List.mem_flatten.mp hmem
      exact hothers other hother input hinput
    have hnext := progress.kept_run h hfirst
    rw [List.flatten_cons, run_append]
    by_cases hfinished : progress.finished state
    · exact progress.stays_run hnext (progress.stays_run h hfinished hfirst) hrest
    obtain ⟨p, henabled⟩ := progress.live state h hfinished
    obtain hend | hlt := progress.finished_or_lt_of_enabled h henabled hfirst (hround p)
    · exact progress.stays_run hnext hend hrest
    · apply ih hnext hothers hrounds
      rw [List.length_cons] at hlength
      omega

end Progress

end WebServer.Execution
