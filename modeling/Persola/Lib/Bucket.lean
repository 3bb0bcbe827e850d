import Mathlib.Algebra.Order.Field.Basic
import Mathlib.Algebra.BigOperators.Group.List.Basic
import Mathlib.Tactic.Linarith
import Mathlib.Tactic.Ring

/-!
# `Bucket` — what a token bucket grants

A bucket holds tokens up to a capacity and is refilled at a constant rate. Its grants are **metered**: a grant and
what it leaves come to no more than the level, which is what was left before and has flown in since, cut off at the
capacity. That alone bounds the grants of every window of time, and a bucket that was left alone for long enough
is full, whatever was left in it.
-/

namespace Bucket

variable {K : Type*} [Field K] [LinearOrder K] {capacity rate tokens last elapsed s t : K}

/-! ## The level -/

/-- The level of a bucket some time after `tokens` were left in it. -/
def level (capacity rate tokens elapsed : K) : K := min capacity (tokens + elapsed * rate)

theorem level_le_capacity : level capacity rate tokens elapsed ≤ capacity := min_le_left _ _

theorem level_le_inflow : level capacity rate tokens elapsed ≤ tokens + elapsed * rate := min_le_right _ _

section
variable [IsStrictOrderedRing K]

theorem le_level (hrate : 0 ≤ rate) (helapsed : 0 ≤ elapsed) (htokens : tokens ≤ capacity) :
    tokens ≤ level capacity rate tokens elapsed :=
  le_min htokens (le_add_of_nonneg_right (mul_nonneg helapsed hrate))

theorem level_nonneg (hcapacity : 0 ≤ capacity) (hrate : 0 ≤ rate) (helapsed : 0 ≤ elapsed) (htokens : 0 ≤ tokens) :
    0 ≤ level capacity rate tokens elapsed :=
  le_min hcapacity (add_nonneg htokens (mul_nonneg helapsed hrate))

/-- A bucket that is full stays full. -/
theorem level_capacity (hrate : 0 ≤ rate) (helapsed : 0 ≤ elapsed) :
    level capacity rate capacity elapsed = capacity :=
  level_le_capacity.antisymm (le_level hrate helapsed le_rfl)

/-- **Left alone for long enough, a bucket is full.** -/
theorem level_eq_capacity (htokens : 0 ≤ tokens) (hlong : capacity ≤ elapsed * rate) :
    level capacity rate tokens elapsed = capacity :=
  min_eq_left (hlong.trans (le_add_of_nonneg_left htokens))

end

/-! ## Metered grants -/

/-- What was granted, and when. -/
structure Grant (K : Type*) where
  time : K
  amount : K

/-- The grants of a bucket that was left with `tokens` at the time `last`. -/
inductive Metered (capacity rate : K) : K → K → List (Grant K) → Prop
  | nil (tokens last : K) : Metered capacity rate tokens last []
  | cons {tokens last left : K} {g : Grant K} {gs : List (Grant K)} (hlater : last ≤ g.time) (hamount : 0 ≤ g.amount)
      (hleft : 0 ≤ left) (hlevel : left + g.amount ≤ level capacity rate tokens (g.time - last))
      (h : Metered capacity rate left g.time gs) : Metered capacity rate tokens last (g :: gs)

/-- What was granted from `s` to `t`, both included. -/
def grantedIn (s t : K) (gs : List (Grant K)) : K :=
  ((gs.filter fun g => s ≤ g.time ∧ g.time ≤ t).map (·.amount)).sum

theorem grantedIn_cons (g : Grant K) (gs : List (Grant K)) : grantedIn s t (g :: gs) =
    if s ≤ g.time ∧ g.time ≤ t then g.amount + grantedIn s t gs else grantedIn s t gs := by
  unfold grantedIn
  rw [List.filter_cons]
  by_cases h : s ≤ g.time ∧ g.time ≤ t
  · rw [if_pos (decide_eq_true h), if_pos h, List.map_cons, List.sum_cons]
  · rw [if_neg (by simpa using h), if_neg h]

namespace Metered

variable {gs : List (Grant K)}

/-- No grant is made before the bucket was left. -/
theorem later (h : Metered capacity rate tokens last gs) : ∀ g ∈ gs, last ≤ g.time := by
  induction h with
  | nil => exact fun g hg => by cases hg
  | cons hlater _ _ _ _ ih =>
      intro g hg
      rcases List.mem_cons.mp hg with rfl | hg
      · exact hlater
      · exact hlater.trans (ih g hg)

/-- After the end of the window nothing counts. -/
theorem grantedIn_after (h : Metered capacity rate tokens last gs) (ht : t < last) : grantedIn s t gs = 0 := by
  have hnone : (gs.filter fun g => s ≤ g.time ∧ g.time ≤ t) = [] := by
    refine List.filter_eq_nil_iff.mpr fun g hg hin => ?_
    exact absurd ((h.later g hg).trans (of_decide_eq_true hin).2) (not_le.mpr ht)
  unfold grantedIn
  rw [hnone]
  rfl

variable [IsStrictOrderedRing K]

/-- From the time it was left on, a bucket grants what was left and what flows in. -/
theorem grantedIn_le_inflow (h : Metered capacity rate tokens last gs) (hrate : 0 ≤ rate) (htokens : 0 ≤ tokens)
    (ht : last ≤ t) : grantedIn s t gs ≤ tokens + (t - last) * rate := by
  induction h with
  | nil tokens last => exact add_nonneg htokens (mul_nonneg (sub_nonneg.mpr ht) hrate)
  | @cons tokens last left g gs hlater hamount hleft hlevel h ih =>
      have hinflow := hlevel.trans level_le_inflow
      have hsplit : (t - last) * rate = (t - g.time) * rate + (g.time - last) * rate := by ring
      rw [grantedIn_cons]
      rcases le_or_gt g.time t with hin | hafter
      · have hrest := ih hleft hin
        split
        · linarith
        · linarith
      · rw [if_neg fun hin => absurd hin.2 (not_le.mpr hafter), h.grantedIn_after hafter]
        exact add_nonneg htokens (mul_nonneg (sub_nonneg.mpr ht) hrate)

/-- **What is granted in a window** is no more than a full bucket and what flows in meanwhile. -/
theorem grantedIn_le (h : Metered capacity rate tokens last gs) (hrate : 0 ≤ rate) (htokens : 0 ≤ tokens)
    (hcapacity : tokens ≤ capacity) (hst : s ≤ t) : grantedIn s t gs ≤ capacity + rate * (t - s) := by
  have hwindow : 0 ≤ rate * (t - s) := mul_nonneg hrate (sub_nonneg.mpr hst)
  induction h with
  | nil tokens last => exact add_nonneg (htokens.trans hcapacity) hwindow
  | @cons tokens last left g gs hlater hamount hleft hlevel h ih =>
      have hfull := hlevel.trans level_le_capacity
      have hrest := ih hleft (by linarith)
      rw [grantedIn_cons]
      split
      · next hin =>
          -- the first grant of the window: before it the bucket was full at most
          have hinflow := h.grantedIn_le_inflow (s := s) hrate hleft hin.2
          have hlate : (t - g.time) * rate ≤ rate * (t - s) := by
            rw [mul_comm]
            exact mul_le_mul_of_nonneg_left (by linarith [hin.1]) hrate
          linarith
      · exact hrest

end Metered

end Bucket
