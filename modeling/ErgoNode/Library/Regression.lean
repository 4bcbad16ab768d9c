import Mathlib.Tactic.Ring
import Mathlib.Tactic.Positivity

/-!
# Sums of a least-squares fit

The slope of the line fitted to points is a quotient whose divisor depends on the abscissas alone: `n`
times the sum of their squares, less the square of their sum. It is the sum of the squared
differences of all pairs, so it is positive as soon as two abscissas differ.
-/

namespace ErgoNode

open List

/-- The number of values times the sum of their squares, less the square of their sum. -/
def spread (xs : List ℤ) : ℤ := (xs.map (fun x => x * x)).sum * xs.length - xs.sum * xs.sum

lemma sum_sq_sub (x : ℤ) (xs : List ℤ) :
    (xs.map (fun y => (x - y) * (x - y))).sum =
      xs.length * (x * x) - 2 * x * xs.sum + (xs.map (fun y => y * y)).sum := by
  induction xs with
  | nil => simp
  | cons y xs ih =>
    simp only [map_cons, sum_cons, ih, length_cons, Nat.cast_add, Nat.cast_one]
    ring

lemma spread_cons (x : ℤ) (xs : List ℤ) :
    spread (x :: xs) = spread xs + (xs.map (fun y => (x - y) * (x - y))).sum := by
  rw [sum_sq_sub]
  simp only [spread, map_cons, sum_cons, length_cons, Nat.cast_add, Nat.cast_one]
  ring

lemma sum_sq_sub_nonneg (x : ℤ) (xs : List ℤ) :
    0 ≤ (xs.map (fun y => (x - y) * (x - y))).sum := by
  apply sum_nonneg
  rintro _ hmem
  obtain ⟨y, -, rfl⟩ := mem_map.1 hmem
  exact mul_self_nonneg _

lemma spread_nonneg (xs : List ℤ) : 0 ≤ spread xs := by
  induction xs with
  | nil => simp [spread]
  | cons x xs ih =>
    rw [spread_cons]
    exact add_nonneg ih (sum_sq_sub_nonneg x xs)

lemma spread_pos {xs : List ℤ} (hnodup : xs.Nodup) (hlen : 2 ≤ xs.length) : 0 < spread xs := by
  match xs, hnodup, hlen with
  | x :: y :: rest, hnodup, _ =>
    -- The first two values differ, and no other pair takes that away.
    have hxy : x - y ≠ 0 := sub_ne_zero.2 (by
      rintro rfl
      exact (nodup_cons.1 hnodup).1 (mem_cons_self ..))
    have hrest := spread_nonneg (y :: rest)
    have hothers := sum_sq_sub_nonneg x rest
    have hpair := mul_self_pos.2 hxy
    rw [spread_cons, map_cons, sum_cons]
    exact add_pos_of_nonneg_of_pos hrest (add_pos_of_pos_of_nonneg hpair hothers)

end ErgoNode
