import Mathlib.Data.List.Basic

/-!
# Sequential objects

A sequential object answers one request after the other. Its relation says which answers it may give in
a state and which states may follow, so that it can leave open what an implementation decides. A
concurrent system behaves like the object if its requests and answers, put in some order, are an
execution of the object.

Parts of an object can be looked at alone: where a map of states takes every answer to an answer of
another object, or to nothing, it takes executions to executions.
-/

namespace WebServer

structure SequentialObject (σ ρ α : Type*) where
  Responds : σ → ρ → α → σ → Prop

namespace SequentialObject

variable {σ ρ α σ' ρ' α' : Type*}

inductive Executes (object : SequentialObject σ ρ α) : σ → List (ρ × α) → σ → Prop
  | nil (state : σ) : Executes object state [] state
  | cons {state next last : σ} {request : ρ} {answer : α} {entries : List (ρ × α)}
      (h : object.Responds state request answer next) (hrest : Executes object next entries last) :
      Executes object state ((request, answer) :: entries) last

variable {object : SequentialObject σ ρ α} {object' : SequentialObject σ' ρ' α'}
  {state next last : σ} {entries entries' : List (ρ × α)}

theorem Executes.singleton {request : ρ} {answer : α}
    (h : object.Responds state request answer next) :
    object.Executes state [(request, answer)] next :=
  .cons h (.nil next)

theorem Executes.append (h : object.Executes state entries next)
    (h' : object.Executes next entries' last) : object.Executes state (entries ++ entries') last := by
  induction h with
  | nil => exact h'
  | cons hresponds _ ih => exact .cons hresponds (ih h')

/-- Every answer of the first object is, seen through `view`, one of the second or none at all. -/
structure Projects (object : SequentialObject σ ρ α) (object' : SequentialObject σ' ρ' α')
    (view : σ → σ') (entryOf : ρ × α → Option (ρ' × α')) : Prop where
  responds : ∀ {state request answer next request' answer'},
    object.Responds state request answer next → entryOf (request, answer) = some (request', answer') →
      object'.Responds (view state) request' answer' (view next)
  silent : ∀ {state request answer next},
    object.Responds state request answer next → entryOf (request, answer) = none →
      view next = view state

theorem Executes.project {view : σ → σ'} {entryOf : ρ × α → Option (ρ' × α')}
    (hproject : Projects object object' view entryOf) (h : object.Executes state entries last) :
    object'.Executes (view state) (entries.filterMap entryOf) (view last) := by
  induction h with
  | nil state => exact .nil (view state)
  | @cons state next last request answer entries hresponds _ ih =>
    cases hentry : entryOf (request, answer) with
    | none =>
      rw [List.filterMap_cons_none hentry, ← hproject.silent hresponds hentry]
      exact ih
    | some entry =>
      rw [List.filterMap_cons_some hentry]
      exact .cons (hproject.responds hresponds hentry) ih

end SequentialObject

end WebServer
