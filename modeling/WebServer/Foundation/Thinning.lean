import Mathlib.Data.List.Basic

/-!
# Lists with some entries left out

`Thinning droppable whole kept` says that `kept` is `whole` with some entries left out, each of which
may be dropped. The order of the entries that are kept does not change.
-/

namespace WebServer

variable {α : Type*}

inductive Thinning (droppable : α → Prop) : List α → List α → Prop where
  | nil : Thinning droppable [] []
  | keep {whole kept : List α} (entry : α) (h : Thinning droppable whole kept) :
      Thinning droppable (entry :: whole) (entry :: kept)
  | drop {whole kept : List α} (entry : α) (hdrop : droppable entry)
      (h : Thinning droppable whole kept) : Thinning droppable (entry :: whole) kept

namespace Thinning

variable {droppable droppable' : α → Prop} {whole kept : List α}

theorem sublist (h : Thinning droppable whole kept) : kept.Sublist whole := by
  induction h with
  | nil => exact .slnil
  | keep entry _ ih => exact ih.cons_cons entry
  | drop entry _ _ ih => exact ih.cons entry

theorem mono (h : Thinning droppable whole kept)
    (himp : ∀ entry, droppable entry → droppable' entry) : Thinning droppable' whole kept := by
  induction h with
  | nil => exact .nil
  | keep entry _ ih => exact ih.keep entry
  | drop entry hdrop _ ih => exact ih.drop entry (himp entry hdrop)

theorem mem_or (h : Thinning droppable whole kept) {entry : α} (hmem : entry ∈ whole) :
    entry ∈ kept ∨ droppable entry := by
  induction h with
  | nil => exact absurd hmem List.not_mem_nil
  | keep first _ ih =>
    obtain rfl | hmem := List.mem_cons.mp hmem
    · exact .inl List.mem_cons_self
    · exact (ih hmem).imp_left (List.mem_cons_of_mem first)
  | drop first hdrop _ ih =>
    obtain rfl | hmem := List.mem_cons.mp hmem
    · exact .inr hdrop
    · exact ih hmem

/-- What comes first is kept. -/
theorem append_left (front : List α) (h : Thinning droppable whole kept) :
    Thinning droppable (front ++ whole) (front ++ kept) := by
  induction front with
  | nil => exact h
  | cons entry front ih => exact ih.keep entry

/-- An entry that comes last is kept. -/
theorem concat (h : Thinning droppable whole kept) (entry : α) :
    Thinning droppable (whole ++ [entry]) (kept ++ [entry]) := by
  induction h with
  | nil => exact .keep entry .nil
  | keep first _ ih => exact ih.keep first
  | drop first hdrop _ ih => exact ih.drop first hdrop

/-- One more of the kept entries is dropped. -/
theorem erase {left right : List α} {entry : α}
    (h : Thinning droppable whole (left ++ entry :: right)) (hentry : droppable entry) :
    Thinning droppable whole (left ++ right) := by
  induction whole generalizing left with
  | nil =>
    have hlength := h.sublist.length_le
    simp at hlength
  | cons first whole ih =>
    generalize hkept : left ++ entry :: right = kept at h
    cases h with
    | keep _ h =>
      cases left with
      | nil =>
        obtain ⟨rfl, rfl⟩ := List.cons.inj hkept
        exact h.drop entry hentry
      | cons second left =>
        obtain ⟨rfl, rfl⟩ := List.cons.inj hkept
        exact (ih h).keep second
    | drop _ hdrop h =>
      subst hkept
      exact (ih h).drop first hdrop

/-- What is left of the entries of one kind, when entries of other kinds may be dropped as well. -/
theorem filter {kind : α → Prop} [DecidablePred kind]
    (h : Thinning (fun entry ↦ ¬ kind entry ∨ droppable entry) whole kept) :
    Thinning droppable (whole.filter fun entry ↦ kind entry)
      (kept.filter fun entry ↦ kind entry) := by
  induction h with
  | nil => exact .nil
  | keep entry _ ih =>
    by_cases hkind : kind entry
    · rw [List.filter_cons_of_pos (by simpa using hkind),
        List.filter_cons_of_pos (by simpa using hkind)]
      exact ih.keep entry
    · rw [List.filter_cons_of_neg (by simpa using hkind),
        List.filter_cons_of_neg (by simpa using hkind)]
      exact ih
  | drop entry hdrop _ ih =>
    by_cases hkind : kind entry
    · rw [List.filter_cons_of_pos (by simpa using hkind)]
      exact ih.drop entry (hdrop.resolve_left (not_not.mpr hkind))
    · rw [List.filter_cons_of_neg (by simpa using hkind)]
      exact ih

end Thinning

end WebServer
