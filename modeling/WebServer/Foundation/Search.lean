import Mathlib.Data.List.Basic
import Mathlib.Data.List.Infix

/-!
# First occurrence of a pattern in a list

`find pattern text` is the position of the first occurrence of `pattern`, and `findFrom` starts the
search at a given position; both answer `none` when there is no occurrence. They are the search
functions of a string library over an arbitrary alphabet.

The facts a parser needs are how a search reacts to text around the part it looks at: an occurrence
does not move when text is appended, a search that starts behind a prefix is a search in the rest,
and a text written as `left ++ pattern ++ right` is found where it was written as long as no earlier
position matches.
-/

namespace WebServer.Search

variable {α : Type*} [DecidableEq α]

/-- The position of the first occurrence of `pattern`. -/
def find (pattern : List α) : List α → Option ℕ
  | [] => if pattern.isPrefixOf [] then some 0 else none
  | a :: text => if pattern.isPrefixOf (a :: text) then some 0 else (find pattern text).map (· + 1)

/-- The position of the first occurrence that starts at `position` or later. -/
def findFrom (pattern text : List α) (position : ℕ) : Option ℕ :=
  if position ≤ text.length then (find pattern (text.drop position)).map (· + position) else none

theorem find_nil (pattern : List α) :
    find pattern [] = if pattern.isPrefixOf [] then some 0 else none := rfl

theorem find_cons (pattern text : List α) (a : α) :
    find pattern (a :: text) =
      if pattern.isPrefixOf (a :: text) then some 0 else (find pattern text).map (· + 1) := rfl

theorem find_prefixed {pattern text : List α} (h : pattern <+: text) :
    find pattern text = some 0 := by
  have hp := List.isPrefixOf_iff_prefix.mpr h
  cases text with
  | nil => rw [find_nil, if_pos hp]
  | cons a text => rw [find_cons, if_pos hp]

theorem find_nil_of_not_prefixed {pattern : List α} (h : ¬ pattern <+: []) :
    find pattern [] = none := by
  rw [find_nil, if_neg fun hp ↦ h <| List.isPrefixOf_iff_prefix.mp hp]

theorem find_cons_of_not_prefixed {pattern text : List α} {a : α} (h : ¬ pattern <+: a :: text) :
    find pattern (a :: text) = (find pattern text).map (· + 1) := by
  rw [find_cons, if_neg fun hp ↦ h <| List.isPrefixOf_iff_prefix.mp hp]

omit [DecidableEq α] in
theorem first_prefixed_iff {pattern text : List α} {i : ℕ} (hp : pattern <+: text) :
    (i ≤ text.length ∧ pattern <+: text.drop i ∧ ∀ j < i, ¬ pattern <+: text.drop j) ↔
      0 = i := by
  constructor
  · rintro ⟨-, -, hfirst⟩
    cases i with
    | zero => rfl
    | succ i => exact absurd hp (hfirst 0 (Nat.succ_pos i))
  · rintro rfl
    exact ⟨Nat.zero_le _, hp, fun j hj ↦ absurd hj (Nat.not_lt_zero j)⟩

omit [DecidableEq α] in
theorem first_cons_iff {pattern text : List α} {a : α} {i : ℕ} (hp : ¬ pattern <+: a :: text) :
    (∀ j < i + 1, ¬ pattern <+: (a :: text).drop j) ↔ ∀ j < i, ¬ pattern <+: text.drop j := by
  constructor
  · exact fun h j hj ↦ h (j + 1) (Nat.succ_lt_succ hj)
  · intro h j hj
    cases j with
    | zero => exact hp
    | succ j => exact h j (Nat.lt_of_succ_lt_succ hj)

/-- A search succeeds exactly at the first position where the pattern starts. -/
theorem find_eq_some_iff {pattern text : List α} {i : ℕ} :
    find pattern text = some i ↔
      i ≤ text.length ∧ pattern <+: text.drop i ∧ ∀ j < i, ¬ pattern <+: text.drop j := by
  induction text generalizing i with
  | nil =>
    by_cases hp : pattern <+: []
    · rw [find_prefixed hp, Option.some.injEq, first_prefixed_iff hp]
    · rw [find_nil_of_not_prefixed hp, List.drop_nil]
      exact ⟨fun h ↦ absurd h.symm (Option.some_ne_none i), fun h ↦ absurd h.2.1 hp⟩
  | cons a text ih =>
    by_cases hp : pattern <+: a :: text
    · rw [find_prefixed hp, Option.some.injEq, first_prefixed_iff hp]
    · rw [find_cons_of_not_prefixed hp]
      cases i with
      | zero =>
        rw [Option.map_eq_some_iff]
        exact ⟨fun ⟨_, _, h⟩ ↦ absurd h (Nat.succ_ne_zero _), fun h ↦ absurd h.2.1 hp⟩
      | succ i =>
        rw [Option.map_eq_some_iff, first_cons_iff hp, List.length_cons, List.drop_succ_cons,
          Nat.add_le_add_iff_right, ← ih]
        exact ⟨fun ⟨_, h, hi⟩ ↦ Nat.succ.inj hi ▸ h, fun h ↦ ⟨i, h, rfl⟩⟩

/-- A search fails exactly when the pattern starts nowhere. -/
theorem find_eq_none_iff {pattern text : List α} :
    find pattern text = none ↔ ∀ j ≤ text.length, ¬ pattern <+: text.drop j := by
  constructor
  · intro hnone j
    induction j using Nat.strong_induction_on with
    | _ j ih =>
      intro hj hp
      have hsome : find pattern text = some j :=
        find_eq_some_iff.mpr ⟨hj, hp, fun k hk ↦ ih k hk (by omega)⟩
      rw [hnone] at hsome
      exact absurd hsome (by simp)
  · intro hall
    cases hfind : find pattern text with
    | none => rfl
    | some i =>
      obtain ⟨hi, hp, -⟩ := find_eq_some_iff.mp hfind
      exact absurd hp (hall i hi)

theorem find_le {pattern text : List α} {i : ℕ} (h : find pattern text = some i) :
    i + pattern.length ≤ text.length := by
  obtain ⟨hi, hp, -⟩ := find_eq_some_iff.mp h
  have hlen := hp.length_le
  rw [List.length_drop] at hlen
  omega

/-- The text around a found occurrence. -/
theorem find_split {pattern text : List α} {i : ℕ} (h : find pattern text = some i) :
    text = text.take i ++ pattern ++ text.drop (i + pattern.length) := by
  obtain ⟨-, ⟨rest, hrest⟩, -⟩ := find_eq_some_iff.mp h
  have hdrop : text.drop (i + pattern.length) = rest := by
    rw [← List.drop_drop, ← hrest, List.drop_left]
  rw [hdrop, List.append_assoc, hrest, List.take_append_drop]

omit [DecidableEq α] in
theorem prefix_drop_append_iff {pattern text suffix : List α} {j : ℕ}
    (hj : j + pattern.length ≤ text.length) :
    pattern <+: (text ++ suffix).drop j ↔ pattern <+: text.drop j := by
  rw [List.drop_append_of_le_length (by omega)]
  exact List.isPrefix_append_of_length (by rw [List.length_drop]; omega)

/-- An occurrence stays where it is when text is appended. -/
theorem find_append_of_some {pattern text : List α} {i : ℕ} (h : find pattern text = some i)
    (suffix : List α) : find pattern (text ++ suffix) = some i := by
  have hle := find_le h
  obtain ⟨hi, hp, hfirst⟩ := find_eq_some_iff.mp h
  refine find_eq_some_iff.mpr ⟨?_, ?_, ?_⟩
  · rw [List.length_append]
    omega
  · exact (prefix_drop_append_iff hle).mpr hp
  · intro j hj hpj
    exact hfirst j hj ((prefix_drop_append_iff (by omega)).mp hpj)

/-- An occurrence stays where it is when text behind it is cut off. -/
theorem find_take_of_le {pattern text : List α} {i count : ℕ} (h : find pattern text = some i)
    (hcount : i + pattern.length ≤ count) : find pattern (text.take count) = some i := by
  have hle := find_le h
  have hshort : i + pattern.length ≤ (text.take count).length := by
    rw [List.length_take]
    omega
  obtain ⟨hi, hp, hfirst⟩ := find_eq_some_iff.mp h
  rw [← List.take_append_drop count text] at hp
  refine find_eq_some_iff.mpr ⟨by omega, (prefix_drop_append_iff hshort).mp hp, ?_⟩
  intro j hj hpj
  refine hfirst j hj ?_
  rw [← List.take_append_drop count text]
  exact (prefix_drop_append_iff (by omega)).mpr hpj

/-- A pattern occurs in a text if and only if it is found. -/
theorem find_isSome_iff {pattern text : List α} :
    (find pattern text).isSome ↔ pattern <:+: text := by
  rw [← not_iff_not, Option.not_isSome_iff_eq_none, find_eq_none_iff]
  constructor
  · rintro hnone ⟨left, right, rfl⟩
    refine hnone left.length (by simp) ?_
    rw [List.append_assoc, List.drop_left]
    exact List.prefix_append ..
  · intro hnot j _ hp
    exact hnot (hp.isInfix.trans (List.drop_suffix j text).isInfix)

/-- A search passes over a part of the text in which the pattern does not start. -/
theorem find_append_of_forall_not_prefixed {pattern left text : List α}
    (h : ∀ j < left.length, ¬ pattern <+: (left ++ text).drop j) :
    find pattern (left ++ text) = (find pattern text).map (· + left.length) := by
  induction left with
  | nil => simp
  | cons a left ih =>
    have hhead : ¬ pattern <+: a :: (left ++ text) := by
      simpa using h 0 (by simp)
    have htail : ∀ j < left.length, ¬ pattern <+: (left ++ text).drop j := by
      intro j hj
      simpa using h (j + 1) (by simpa using hj)
    rw [List.cons_append, find_cons_of_not_prefixed hhead, ih htail, Option.map_map]
    congr 1

/-- A pattern is first found where it was written when its first letter does not occur before. -/
theorem find_append_of_head_notMem {a : α} {pattern left right : List α} (h : a ∉ left) :
    find (a :: pattern) (left ++ (a :: pattern ++ right)) = some left.length := by
  rw [find_append_of_forall_not_prefixed, find_prefixed ⟨right, rfl⟩]
  · simp
  · intro j hj hp
    rw [List.drop_append_of_le_length (Nat.le_of_lt hj), List.drop_eq_getElem_cons hj,
      List.cons_append, List.cons_prefix_cons] at hp
    exact h (hp.1 ▸ List.getElem_mem hj)

theorem find_singleton_eq_none_iff {a : α} {text : List α} :
    find [a] text = none ↔ a ∉ text := by
  constructor
  · intro hnone hmem
    obtain ⟨left, right, rfl⟩ := List.append_of_mem hmem
    exact find_eq_none_iff.mp hnone left.length (by simp) (by simp)
  · intro hmem
    refine find_eq_none_iff.mpr fun j _ hp ↦ hmem ?_
    exact List.mem_of_mem_drop (hp.subset (List.mem_singleton_self a))

/-- The first occurrence of a letter is behind everything else. -/
theorem notMem_take_of_find_singleton {a : α} {text : List α} {i : ℕ}
    (h : find [a] text = some i) : a ∉ text.take i := by
  obtain ⟨-, -, hfirst⟩ := find_eq_some_iff.mp h
  intro hmem
  obtain ⟨j, hj, hget⟩ := List.mem_take_iff_getElem.mp hmem
  refine hfirst j (by omega) ?_
  rw [List.drop_eq_getElem_cons (by omega), hget]
  exact List.prefix_append [a] _

/-! ## Searching from a position -/

theorem findFrom_eq_some_iff {pattern text : List α} {position i : ℕ} :
    findFrom pattern text position = some i ↔
      position ≤ i ∧ i ≤ text.length ∧ pattern <+: text.drop i ∧
        ∀ j, position ≤ j → j < i → ¬ pattern <+: text.drop j := by
  unfold findFrom
  split
  · rename_i hpos
    rw [Option.map_eq_some_iff]
    constructor
    · rintro ⟨k, hk, rfl⟩
      obtain ⟨hle, hp, hfirst⟩ := find_eq_some_iff.mp hk
      rw [List.length_drop] at hle
      rw [List.drop_drop] at hp
      refine ⟨by omega, by omega, by rwa [Nat.add_comm], fun j hj hji hpj ↦ ?_⟩
      refine hfirst (j - position) (by omega) ?_
      rwa [List.drop_drop, Nat.add_sub_cancel' hj]
    · rintro ⟨hge, hle, hp, hfirst⟩
      refine ⟨i - position, find_eq_some_iff.mpr ⟨?_, ?_, ?_⟩, by omega⟩
      · rw [List.length_drop]
        omega
      · rwa [List.drop_drop, Nat.add_sub_cancel' hge]
      · intro j hj
        rw [List.drop_drop]
        exact hfirst (position + j) (by omega) (by omega)
  · rename_i hpos
    simp only [reduceCtorEq, false_iff]
    rintro ⟨hge, hle, -⟩
    omega

theorem le_of_findFrom {pattern text : List α} {position i : ℕ}
    (h : findFrom pattern text position = some i) : position ≤ i :=
  (findFrom_eq_some_iff.mp h).1

theorem findFrom_zero {pattern text : List α} : findFrom pattern text 0 = find pattern text := by
  simp [findFrom]

/-- A search that starts behind a prefix is a search in the rest. -/
theorem findFrom_append_right {pattern left text : List α} :
    findFrom pattern (left ++ text) left.length = (find pattern text).map (· + left.length) := by
  simp [findFrom]

theorem findFrom_append_of_some {pattern text : List α} {position i : ℕ}
    (h : findFrom pattern text position = some i) (suffix : List α) :
    findFrom pattern (text ++ suffix) position = some i := by
  unfold findFrom at h ⊢
  split at h
  · rename_i hpos
    obtain ⟨k, hk, rfl⟩ := Option.map_eq_some_iff.mp h
    rw [if_pos (by rw [List.length_append]; omega), List.drop_append_of_le_length hpos,
      find_append_of_some hk suffix]
    rfl
  · exact absurd h (by simp)

/-- An occurrence behind the position bounds the answer of the search. -/
theorem exists_findFrom_le {pattern text : List α} {position i : ℕ} (hpos : position ≤ i)
    (hi : i ≤ text.length) (hp : pattern <+: text.drop i) :
    ∃ j ≤ i, findFrom pattern text position = some j := by
  induction hd : i - position using Nat.strong_induction_on generalizing i with
  | _ n ih =>
    by_cases hex : ∃ j, position ≤ j ∧ j < i ∧ pattern <+: text.drop j
    · obtain ⟨j, hj, hji, hpj⟩ := hex
      obtain ⟨k, hk, hfind⟩ := ih (j - position) (by omega) hj (by omega) hpj rfl
      exact ⟨k, by omega, hfind⟩
    · push Not at hex
      exact ⟨i, le_rfl, findFrom_eq_some_iff.mpr ⟨hpos, hi, hp, hex⟩⟩

end WebServer.Search
