import Mathlib.Data.Int.Init

/-!
# The steady clock

Time points of `std::chrono::steady_clock` and durations are whole numbers of nanoseconds.
-/

namespace WebServer

abbrev Time := ℤ

namespace Time

def milliseconds (n : ℤ) : ℤ := n * 1000000

/-- `duration_cast<milliseconds>`, which truncates. -/
def toMilliseconds (n : ℤ) : ℤ := n.tdiv 1000000

theorem toMilliseconds_of_nonneg {n : ℤ} (h : 0 ≤ n) : toMilliseconds n = n / 1000000 :=
  Int.tdiv_eq_ediv_of_nonneg h

theorem toMilliseconds_nonpos {n : ℤ} (h : n ≤ 0) : toMilliseconds n ≤ 0 := by
  have hneg : 0 ≤ (-n).tdiv 1000000 := Int.tdiv_nonneg (Int.neg_nonneg_of_nonpos h) (by decide)
  rw [Int.neg_tdiv] at hneg
  exact Int.nonpos_of_neg_nonneg hneg

def seconds (n : ℤ) : ℤ := n * 1000000000

def minutes (n : ℤ) : ℤ := seconds (60 * n)

end Time

end WebServer
