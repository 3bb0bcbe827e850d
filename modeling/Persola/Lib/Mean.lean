import Mathlib.Algebra.Order.Field.Basic
import Mathlib.Algebra.BigOperators.Group.List.Basic
import Mathlib.Algebra.BigOperators.Ring.List
import Mathlib.Algebra.Order.BigOperators.Group.List
import Mathlib.Tactic.Linarith
import Mathlib.Tactic.Ring

/-!
# `Mean` — means of values with weights

A list of values, each with its weight; the weights are divided by their total first. The mean does not depend on
the order of the list nor on the scale of the weights, a value may be listed in parts, and with positive weights it
lies between the values.
-/

namespace Mean

variable {K : Type*} [Field K] {l l' pre post : List (K × K)} {c x u w : K}

/-- The sum of the weights. -/
def total (l : List (K × K)) : K := (l.map Prod.snd).sum

/-- The mean of the values. -/
def mean (l : List (K × K)) : K := (l.map fun e => e.1 * (e.2 / total l)).sum

/-- The weights may be divided by their total in the end. -/
theorem mean_eq_div (l : List (K × K)) : mean l = (l.map fun e => e.1 * e.2).sum / total l := by
  unfold mean
  rw [div_eq_mul_inv, ← List.sum_map_mul_right]
  refine congrArg List.sum (List.map_congr_left fun e _ => ?_)
  rw [div_eq_mul_inv, mul_assoc]

theorem total_perm (h : l.Perm l') : total l = total l' := (h.map _).sum_eq

/-- The order does not matter. -/
theorem mean_perm (h : l.Perm l') : mean l = mean l' := by
  rw [mean_eq_div, mean_eq_div, total_perm h]
  exact congrArg (· / total l') (h.map _).sum_eq

/-- The scale does not matter. -/
theorem mean_scale (hc : c ≠ 0) (l : List (K × K)) : mean (l.map fun e => (e.1, c * e.2)) = mean l := by
  have htotal : total (l.map fun e => (e.1, c * e.2)) = c * total l := by
    unfold total
    rw [List.map_map]
    exact List.sum_map_mul_left ..
  have hsum : ((l.map fun e => (e.1, c * e.2)).map fun e => e.1 * e.2).sum =
      c * (l.map fun e => e.1 * e.2).sum := by
    rw [List.map_map, ← List.sum_map_mul_left]
    exact congrArg List.sum (List.map_congr_left fun e _ => mul_left_comm _ _ _)
  rw [mean_eq_div, mean_eq_div, htotal, hsum, mul_div_mul_left _ _ hc]

/-- A value may be listed in two parts. -/
theorem mean_split : mean (pre ++ (x, u) :: (x, w - u) :: post) = mean (pre ++ (x, w) :: post) := by
  have htotal : total (pre ++ (x, u) :: (x, w - u) :: post) = total (pre ++ (x, w) :: post) := by
    unfold total
    simp only [List.map_append, List.map_cons, List.sum_append, List.sum_cons]
    ring
  have hsum : ((pre ++ (x, u) :: (x, w - u) :: post).map fun e => e.1 * e.2).sum =
      ((pre ++ (x, w) :: post).map fun e => e.1 * e.2).sum := by
    simp only [List.map_append, List.map_cons, List.sum_append, List.sum_cons]
    ring
  rw [mean_eq_div, mean_eq_div, htotal, hsum]

section
variable [LinearOrder K] [IsStrictOrderedRing K]

theorem total_pos (hpos : ∀ e ∈ l, 0 < e.2) (hne : l ≠ []) : 0 < total l := by
  refine List.sum_pos (l.map Prod.snd) (fun w hw => ?_) (by simpa using hne)
  obtain ⟨e, he, rfl⟩ := List.mem_map.mp hw
  exact hpos e he

/-- The distances from the mean cancel out. -/
theorem sum_sub_mean (hpos : ∀ e ∈ l, 0 < e.2) (hne : l ≠ []) :
    (l.map fun e => (e.1 - mean l) * e.2).sum = 0 := by
  have htotal := (total_pos hpos hne).ne'
  have hsplit : ∀ m : K, (l.map fun e => (e.1 - m) * e.2).sum = (l.map fun e => e.1 * e.2).sum - m * total l := by
    intro m
    unfold total
    clear htotal hpos hne
    induction l with
    | nil => simp
    | cons e l ih =>
        simp only [List.map_cons, List.sum_cons]
        rw [ih]
        ring
  rw [hsplit, mean_eq_div, div_mul_cancel₀ _ htotal, sub_self]

/-- **Some value is no greater than the mean**, -/
theorem exists_le_mean (hpos : ∀ e ∈ l, 0 < e.2) (hne : l ≠ []) : ∃ e ∈ l, e.1 ≤ mean l := by
  by_contra hnone
  push Not at hnone
  have hsum : 0 < (l.map fun e => (e.1 - mean l) * e.2).sum := by
    refine List.sum_pos _ (fun d hd => ?_) (by simpa using hne)
    obtain ⟨e, he, rfl⟩ := List.mem_map.mp hd
    exact mul_pos (sub_pos.mpr (hnone e he)) (hpos e he)
  exact hsum.ne' (sum_sub_mean hpos hne)

/-- **and some is no less.** -/
theorem exists_mean_le (hpos : ∀ e ∈ l, 0 < e.2) (hne : l ≠ []) : ∃ e ∈ l, mean l ≤ e.1 := by
  by_contra hnone
  push Not at hnone
  have hsum : 0 < (l.map fun e => -1 * ((e.1 - mean l) * e.2)).sum := by
    refine List.sum_pos _ (fun d hd => ?_) (by simpa using hne)
    obtain ⟨e, he, rfl⟩ := List.mem_map.mp hd
    exact mul_pos_of_neg_of_neg (by norm_num) (mul_neg_of_neg_of_pos (sub_neg.mpr (hnone e he)) (hpos e he))
  rw [List.sum_map_mul_left, sum_sub_mean hpos hne, mul_zero] at hsum
  exact lt_irrefl _ hsum

end

end Mean
