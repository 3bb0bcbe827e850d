import Persola.Lib.Py
import Mathlib.Algebra.BigOperators.Group.List.Basic
import Mathlib.Data.List.Induction

/-!
# `Tally` — rows counted under a key

A loop that keeps a bucket for every key and adds each row to the bucket of its key, made when the key comes up first.
The bucket of a key is what the rows of that key make of an empty one.
-/

namespace Tally

variable {α κ β : Type*} [DecidableEq κ]

/-- `b = d.setdefault(key(a), empty(key(a)))` and an update of `b`, for every row. -/
def tally (key : α → κ) (empty : κ → β) (add : β → α → β) (rows : List α) : List (κ × β) :=
  rows.foldl (fun d a => Py.setItem d (key a) (add ((Py.getItem d (key a)).getD (empty (key a))) a)) []

variable {key : α → κ} {empty : κ → β} {add : β → α → β} {rows : List α} {a : α} {k : κ}

theorem tally_concat (rows : List α) (a : α) : tally key empty add (rows ++ [a]) =
    Py.setItem (tally key empty add rows) (key a)
      (add ((Py.getItem (tally key empty add rows) (key a)).getD (empty (key a))) a) := by
  unfold tally
  rw [List.foldl_append]
  rfl

/-- **The bucket of a key.** -/
theorem getItem_tally (k : κ) : Py.getItem (tally key empty add rows) k =
    if k ∈ rows.map key then some ((rows.filter (key · = k)).foldl add (empty k)) else none := by
  induction rows using List.reverseRecOn with
  | nil => rfl
  | append_singleton rows a ih =>
      rw [tally_concat, Py.getItem_setItem, List.filter_append, List.foldl_append]
      by_cases hk : key a = k
      · subst hk
        have hmem : key a ∈ (rows ++ [a]).map key := by simp
        rw [if_pos rfl, if_pos hmem, ih]
        by_cases hold : key a ∈ rows.map key
        · simp [hold]
        · have hnone : rows.filter (key · = key a) = [] :=
            List.filter_eq_nil_iff.mpr fun b hb heq => hold (List.mem_map.mpr ⟨b, hb, of_decide_eq_true heq⟩)
          simp [hold, hnone]
      · have hmem : (k ∈ (rows ++ [a]).map key) = (k ∈ rows.map key) := by
          simp [Ne.symm hk]
        rw [if_neg hk, ih]
        simp [Ne.symm hk, hk]

/-- Every key has one bucket. -/
theorem keys_tally : ((tally key empty add rows).map Prod.fst).Nodup := by
  induction rows using List.reverseRecOn with
  | nil => exact List.nodup_nil
  | append_singleton rows a ih =>
      rw [tally_concat]
      exact (Py.keys_setItem ih).1

theorem mem_keys_tally : k ∈ (tally key empty add rows).map Prod.fst ↔ k ∈ rows.map key := by
  rw [← Py.getItem_ne_none_iff, getItem_tally]
  split
  · next h => simp [h]
  · next h => simp [h]

/-! ## Pairs -/

theorem countP_eq_sum (p : α → Bool) (as : List α) : as.countP p = (as.map fun a => if p a then 1 else 0).sum := by
  induction as with
  | nil => rfl
  | cons a as ih => rw [List.countP_cons, List.map_cons, List.sum_cons, ih, add_comm]

/-- **Counting pairs** by their first or by their second part. -/
theorem sum_countP_comm {γ : Type*} (R : α → γ → Bool) (as : List α) (cs : List γ) :
    (as.map fun a => cs.countP (R a)).sum = (cs.map fun c => as.countP (R · c)).sum := by
  induction as with
  | nil => simp
  | cons a as ih =>
      have hsplit (c : γ) : (a :: as).countP (R · c) = (if R a c then 1 else 0) + as.countP (R · c) := by
        rw [List.countP_cons, add_comm]
      rw [List.map_cons, List.sum_cons, ih, countP_eq_sum (R a), ← List.sum_map_add]
      simp only [hsplit]

end Tally
