import WebServer.Foundation.Search

/-!
# Splitting a list at a pattern

`split delimiter text` cuts a text at every occurrence of the delimiter, from the left to the right. A
text that begins with a piece and a delimiter is cut behind the piece whenever a search finds this
delimiter first, so a proof about a split only needs facts about the search.
-/

namespace WebServer.Search

variable {α : Type*} [DecidableEq α]

/-- Cut a text at its first occurrences of the delimiter, at most `fuel` of them. -/
def splitAtMost (delimiter : List α) : ℕ → List α → List (List α)
  | 0, text => [text]
  | fuel + 1, text =>
    match find delimiter text with
    | none => [text]
    | some i => text.take i :: splitAtMost delimiter fuel (text.drop (i + delimiter.length))

/-- Cut a text at every occurrence of the delimiter. -/
def split (delimiter text : List α) : List (List α) := splitAtMost delimiter text.length text

variable {delimiter text piece rest : List α}

/-- Every cut removes a delimiter, so there are not more cuts than letters. -/
theorem splitAtMost_eq_split (hne : delimiter ≠ []) {fuel : ℕ} (hfuel : text.length ≤ fuel) :
    splitAtMost delimiter fuel text = split delimiter text := by
  have hpos := List.length_pos_iff.mpr hne
  suffices hstable : ∀ (n m : ℕ) (text : List α), text.length ≤ n → text.length ≤ m →
      splitAtMost delimiter n text = splitAtMost delimiter m text from
    hstable fuel text.length text hfuel le_rfl
  intro n
  induction n with
  | zero =>
    intro m text hn _
    obtain rfl := List.length_eq_zero_iff.mp (Nat.le_zero.mp hn)
    have hnone : find delimiter ([] : List α) = none :=
      find_eq_none_iff.mpr fun j _ hp ↦ hne (by simpa using hp)
    cases m with
    | zero => rfl
    | succ m => simp only [splitAtMost, hnone]
  | succ n ih =>
    intro m text hn hm
    unfold splitAtMost
    cases hfind : find delimiter text with
    | none => cases m <;> simp [hfind]
    | some i =>
      have hle := find_le hfind
      have hlength := List.length_drop (i := i + delimiter.length) (l := text)
      obtain ⟨m, rfl⟩ : ∃ k, m = k + 1 := ⟨m - 1, by omega⟩
      simp only [hfind]
      rw [ih m _ (by omega) (by omega)]

theorem split_of_find_eq_none (h : find delimiter text = none) : split delimiter text = [text] := by
  unfold split
  cases text.length with
  | zero => rfl
  | succ n => simp only [splitAtMost, h]

/-- A piece in front of the first delimiter is cut off. -/
theorem split_append (hne : delimiter ≠ [])
    (hfind : find delimiter (piece ++ (delimiter ++ rest)) = some piece.length) :
    split delimiter (piece ++ (delimiter ++ rest)) = piece :: split delimiter rest := by
  have hpos := List.length_pos_iff.mpr hne
  have hlength : (piece ++ (delimiter ++ rest)).length =
      piece.length + (delimiter.length + rest.length) := by
    simp only [List.length_append]
  obtain ⟨fuel, hfuel⟩ : ∃ n, (piece ++ (delimiter ++ rest)).length = n + 1 :=
    ⟨(piece ++ (delimiter ++ rest)).length - 1, by omega⟩
  have hdrop : (piece ++ (delimiter ++ rest)).drop (piece.length + delimiter.length) = rest := by
    rw [← List.drop_drop, List.drop_left, List.drop_left]
  unfold split
  rw [hfuel]
  simp only [splitAtMost, hfind]
  rw [hdrop, List.take_left, splitAtMost_eq_split hne (by omega)]
  rfl

end WebServer.Search
