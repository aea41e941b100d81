import Mathlib.Data.Nat.Basic

/-!
# While loops with a termination measure

A loop body looks at the loop state and either starts another turn or leaves with a result. A
`WhileLoop` packages a body with a natural-number measure that every further turn decreases, so a
value of this type cannot be a loop that runs for ever. The loop is executed with fuel, and the
measure shows that the fuel it is given is enough; `iterate_eq_run` states that any larger budget
gives the same result.

The rules proved here are the ones a loop is reasoned about with: the unfolding equation, the
invariant rule and induction along the turns. `visited` lists the states in which the turns of a run
begin, for statements about each of them.
-/

namespace WebServer

universe u v

/-- One turn of a loop starts the next turn or leaves the loop. -/
inductive Turn (σ : Type u) (ρ : Type v) where
  | next (state : σ)
  | exit (result : ρ)

/-- Change the state of the next turn and the result. -/
def Turn.map {σ τ : Type u} {ρ ρ' : Type v} (f : σ → τ) (g : ρ → ρ') : Turn σ ρ → Turn τ ρ'
  | .next state => .next (f state)
  | .exit result => .exit (g result)

/-- A loop body whose further turns decrease a measure. -/
structure WhileLoop (σ : Type u) (ρ : Type v) where
  body : σ → Turn σ ρ
  measure : σ → ℕ
  decreases : ∀ state state', body state = .next state' → measure state' < measure state

namespace WhileLoop

variable {σ : Type u} {ρ : Type v}

/-- Run a body for at most `fuel` turns. -/
def iterate (body : σ → Turn σ ρ) : ℕ → σ → Option ρ
  | 0, _ => none
  | fuel + 1, state =>
    match body state with
    | .next state' => iterate body fuel state'
    | .exit result => some result

theorem iterate_isSome (loop : WhileLoop σ ρ) (fuel : ℕ) (state : σ)
    (hfuel : loop.measure state < fuel) : (iterate loop.body fuel state).isSome := by
  induction fuel generalizing state with
  | zero => omega
  | succ fuel ih =>
    unfold iterate
    cases hbody : loop.body state with
    | next state' =>
      have hlt := loop.decreases state state' hbody
      exact ih state' (by omega)
    | exit result => rfl

/-- The result of a loop, computed with the fuel its measure allows. -/
def run (loop : WhileLoop σ ρ) (state : σ) : ρ :=
  (iterate loop.body (loop.measure state + 1) state).get
    (loop.iterate_isSome _ state (Nat.lt_succ_self _))

/-- The loop terminates: every budget above the measure returns the result of the loop. -/
theorem iterate_eq_run (loop : WhileLoop σ ρ) (fuel : ℕ) (state : σ)
    (hfuel : loop.measure state < fuel) :
    iterate loop.body fuel state = some (loop.run state) := by
  suffices hstable : ∀ (n m : ℕ) (s : σ), loop.measure s < n → loop.measure s < m →
      iterate loop.body n s = iterate loop.body m s by
    rw [hstable fuel (loop.measure state + 1) state hfuel (Nat.lt_succ_self _)]
    exact (Option.some_get _).symm
  intro n
  induction n with
  | zero => intro m s hn; omega
  | succ n ih =>
    intro m s hn hm
    obtain ⟨m, rfl⟩ : ∃ k, m = k + 1 := ⟨m - 1, by omega⟩
    unfold iterate
    cases hbody : loop.body s with
    | next s' =>
      have hlt := loop.decreases s s' hbody
      exact ih m s' (by omega) (by omega)
    | exit result => rfl

theorem run_of_next (loop : WhileLoop σ ρ) {state state' : σ}
    (hbody : loop.body state = .next state') : loop.run state = loop.run state' := by
  have hlt := loop.decreases state state' hbody
  have hleft := loop.iterate_eq_run (loop.measure state + 1) state (Nat.lt_succ_self _)
  have hright := loop.iterate_eq_run (loop.measure state) state' hlt
  rw [iterate, hbody] at hleft
  exact Option.some.inj (hleft.symm.trans hright)

theorem run_of_exit (loop : WhileLoop σ ρ) {state : σ} {result : ρ}
    (hbody : loop.body state = .exit result) : loop.run state = result := by
  have hleft := loop.iterate_eq_run (loop.measure state + 1) state (Nat.lt_succ_self _)
  rw [iterate, hbody] at hleft
  exact (Option.some.inj hleft).symm

/-- Induction along the turns of a loop. -/
theorem run_induct (loop : WhileLoop σ ρ) {motive : σ → ρ → Prop}
    (hexit : ∀ state result, loop.body state = .exit result → motive state result)
    (hnext : ∀ state state' result, loop.body state = .next state' → motive state' result →
      motive state result)
    (state : σ) : motive state (loop.run state) := by
  induction hmeasure : loop.measure state using Nat.strong_induction_on generalizing state with
  | _ n ih =>
    cases hbody : loop.body state with
    | exit result =>
      rw [loop.run_of_exit hbody]
      exact hexit state result hbody
    | next state' =>
      have hlt := loop.decreases state state' hbody
      rw [loop.run_of_next hbody]
      exact hnext state state' _ hbody (ih _ (hmeasure ▸ hlt) state' rfl)

/-- Two loops whose bodies agree up to a map of states have the same result. -/
theorem run_congr {τ : Type*} (left : WhileLoop σ ρ) (right : WhileLoop τ ρ)
    (related : σ → τ → Prop)
    (hnext : ∀ s t s', related s t → left.body s = .next s' →
      ∃ t', right.body t = .next t' ∧ related s' t')
    (hexit : ∀ s t r, related s t → left.body s = .exit r → right.body t = .exit r)
    {s : σ} {t : τ} (hst : related s t) : left.run s = right.run t := by
  refine (left.run_induct (motive := fun s r ↦ ∀ t, related s t → right.run t = r) ?_ ?_ s
    t hst).symm
  · intro s r hbody t hst
    exact right.run_of_exit (hexit s t r hst hbody)
  · intro s s' r hbody ih t hst
    obtain ⟨t', ht, hst'⟩ := hnext s t s' hst hbody
    rw [right.run_of_next ht]
    exact ih t' hst'

/-- A loop whose body is that of another one seen through maps of states and results has the result of
that loop seen through the map. -/
theorem run_map {τ : Type u} {ρ' : Type v} (left : WhileLoop σ ρ) (right : WhileLoop τ ρ')
    (f : σ → τ) (g : ρ → ρ') (h : ∀ s, right.body (f s) = (left.body s).map f g) (state : σ) :
    right.run (f state) = g (left.run state) := by
  apply left.run_induct (motive := fun s r ↦ right.run (f s) = g r)
  · intro s r hbody
    apply right.run_of_exit
    rw [h, hbody]
    rfl
  · intro s s' r hbody ih
    have hnext : right.body (f s) = .next (f s') := by
      rw [h, hbody]
      rfl
    rw [right.run_of_next hnext]
    exact ih

/-! ## The turns of a run -/

/-- The states in which a body is entered, for at most `fuel` turns. -/
def turns (body : σ → Turn σ ρ) : ℕ → σ → List σ
  | 0, _ => []
  | fuel + 1, state =>
    state ::
      match body state with
      | .next state' => turns body fuel state'
      | .exit _ => []

/-- The states in which the turns of a loop begin, in order. -/
def visited (loop : WhileLoop σ ρ) (state : σ) : List σ :=
  turns loop.body (loop.measure state + 1) state

theorem self_mem_visited (loop : WhileLoop σ ρ) (state : σ) : state ∈ loop.visited state :=
  List.mem_cons_self

theorem turns_eq_visited (loop : WhileLoop σ ρ) (fuel : ℕ) (state : σ)
    (hfuel : loop.measure state < fuel) : turns loop.body fuel state = loop.visited state := by
  suffices hstable : ∀ (n m : ℕ) (s : σ), loop.measure s < n → loop.measure s < m →
      turns loop.body n s = turns loop.body m s from
    hstable fuel (loop.measure state + 1) state hfuel (Nat.lt_succ_self _)
  intro n
  induction n with
  | zero => intro m s hn; omega
  | succ n ih =>
    intro m s hn hm
    obtain ⟨m, rfl⟩ : ∃ k, m = k + 1 := ⟨m - 1, by omega⟩
    unfold turns
    cases hbody : loop.body s with
    | next s' =>
      have hlt := loop.decreases s s' hbody
      exact congrArg (s :: ·) (ih m s' (by omega) (by omega))
    | exit result => rfl

theorem visited_of_next (loop : WhileLoop σ ρ) {state state' : σ}
    (hbody : loop.body state = .next state') :
    loop.visited state = state :: loop.visited state' := by
  have hlt := loop.decreases state state' hbody
  rw [← loop.turns_eq_visited (loop.measure state) state' hlt, visited, turns, hbody]

theorem visited_of_exit (loop : WhileLoop σ ρ) {state : σ} {result : ρ}
    (hbody : loop.body state = .exit result) : loop.visited state = [state] := by
  rw [visited, turns, hbody]

end WhileLoop

end WebServer
