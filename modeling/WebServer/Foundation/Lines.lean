import Mathlib.Data.List.Forall2
import Mathlib.Data.List.Infix

/-!
# Texts put together from parts

A text is joined from parts by a separator between them, or written as records with an end mark behind
each. A pattern without the separator lies in one of the parts. A text of records has one mark for each
record, and is cut into the records at its marks, if and only if no record has a mark of its own. Where
the parts of two texts are related one by one, a property passes from the parts of one to the other.
-/

namespace WebServer.Lines

variable {α : Type*} {mark : α}

/-! ## Patterns in joined texts -/

section Patterns

variable {pattern : List α} (hmark : mark ∉ pattern)
include hmark

theorem infix_append_cons_iff {left right : List α} :
    pattern <:+: left ++ mark :: right ↔ pattern <:+: left ∨ pattern <:+: right := by
  have hempty {front : List α} (hfront : front <+: mark :: right) (hsub : front ⊆ pattern) :
      front = [] := by
    cases front with
    | nil => rfl
    | cons a front =>
      obtain rfl : a = mark := (List.cons_prefix_cons.mp hfront).1
      exact absurd (hsub List.mem_cons_self) hmark
  constructor
  · intro h
    obtain hleft | hright | ⟨first, second, rfl, hfirst, hsecond⟩ := List.infix_append_iff.mp h
    · exact .inl hleft
    · obtain hfront | hright := List.infix_cons_iff.mp hright
      · rw [hempty hfront (List.Subset.refl _)]
        exact .inl List.nil_infix
      · exact .inr hright
    · rw [hempty hsecond (List.subset_append_right ..), List.append_nil]
      exact .inl hfirst.isInfix
  · rintro (hleft | hright)
    · exact List.infix_append_of_infix_left hleft
    · exact List.infix_append_of_infix_right (List.infix_cons hright)

/-- A pattern that is not empty and has no separator is found in a joined text just if it is found in a
part. -/
theorem infix_intercalate_iff (hne : pattern ≠ []) (parts : List (List α)) :
    pattern <:+: List.intercalate [mark] parts ↔ ∃ part ∈ parts, pattern <:+: part := by
  induction parts with
  | nil => simpa using hne
  | cons part parts ih =>
    cases parts with
    | nil => simp
    | cons next parts =>
      have hjoin : List.intercalate [mark] (part :: next :: parts) =
          part ++ mark :: List.intercalate [mark] (next :: parts) := by
        simp [List.intercalate]
      rw [hjoin, infix_append_cons_iff hmark, ih]
      simp only [List.exists_mem_cons_iff]

theorem infix_iff_splitOn [DecidableEq α] (hne : pattern ≠ []) (text : List α) :
    pattern <:+: text ↔ ∃ part ∈ text.splitOn mark, pattern <:+: part := by
  rw [← infix_intercalate_iff hmark hne, List.intercalate_splitOn]

end Patterns

/-! ## Records -/

/-- The records, each with an end mark. -/
def written (mark : α) (records : List (List α)) : List α := records.flatMap (· ++ [mark])

theorem written_cons (record : List α) (records : List (List α)) :
    written mark (record :: records) = record ++ mark :: written mark records := by
  simp [written]

variable [DecidableEq α]

theorem count_written_cons (record : List α) (records : List (List α)) :
    (written mark (record :: records)).count mark =
      record.count mark + ((written mark records).count mark + 1) := by
  rw [written_cons, List.count_append, List.count_cons_self]

theorem length_le_count_written (records : List (List α)) :
    records.length ≤ (written mark records).count mark := by
  induction records with
  | nil => exact Nat.zero_le _
  | cons record records ih =>
    rw [count_written_cons, List.length_cons]
    omega

/-- There is one mark for each record just if no record has a mark of its own. -/
theorem count_written_eq_length_iff (records : List (List α)) :
    (written mark records).count mark = records.length ↔ ∀ record ∈ records, mark ∉ record := by
  induction records with
  | nil => simp [written]
  | cons record records ih =>
    have hle : records.length ≤ (written mark records).count mark := length_le_count_written records
    rw [count_written_cons, List.length_cons, List.forall_mem_cons, ← ih, ← List.count_eq_zero]
    omega

/-- Records without marks of their own are read back, and nothing is left behind the last mark. -/
theorem splitOn_written {records : List (List α)} (h : ∀ record ∈ records, mark ∉ record) :
    (written mark records).splitOn mark = records ++ [[]] := by
  induction records with
  | nil => simp [written]
  | cons record records ih =>
    obtain ⟨hrecord, hrecords⟩ := List.forall_mem_cons.mp h
    rw [written_cons, List.splitOn_append_cons_self_of_not_mem hrecord, ih hrecords]
    rfl

/-! ## Parts that are related one by one -/

omit [DecidableEq α] in
theorem forall₂_forall_right {β : Type*} {related : α → β → Prop} {left : List α} {right : List β}
    (h : List.Forall₂ related left right) {property : α → Prop} {property' : β → Prop}
    (himp : ∀ a b, related a b → property a → property' b) (hleft : ∀ a ∈ left, property a) :
    ∀ b ∈ right, property' b := by
  induction h with
  | nil => simp
  | cons hab _ ih =>
    obtain ⟨hhead, htail⟩ := List.forall_mem_cons.mp hleft
    exact List.forall_mem_cons.mpr ⟨himp _ _ hab hhead, ih htail⟩

end WebServer.Lines
