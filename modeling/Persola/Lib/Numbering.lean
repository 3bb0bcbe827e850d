import Persola.Lib.Select
import Mathlib.Data.List.Range

/-!
# `Numbering` — rows numbered from one without gaps

Rows that take the next number when they are added are numbered `1, …, n` in the order they came. Then the
greatest number is how many there are, a query for the greatest number returns the row added last, and a row
is the last one exactly when it has the number `n`.
-/

/-- The rows carry the numbers `1, …, n` in this order. -/
def Numbered {α : Type*} (num : α → ℕ) (rows : List α) : Prop :=
  rows.map num = List.range' 1 rows.length

namespace Numbered

variable {α : Type*} {num : α → ℕ} {rows : List α} {a b : α}

theorem nil : Numbered num [] := rfl

/-- A row with the next number keeps the numbering. -/
theorem snoc (h : Numbered num rows) (ha : num a = rows.length + 1) : Numbered num (rows ++ [a]) := by
  unfold Numbered
  rw [List.map_append, h, List.length_append, List.length_singleton, List.range'_concat,
    List.map_singleton, ha]
  congr 2
  omega

theorem num_getElem (h : Numbered num rows) {i : ℕ} (hi : i < rows.length) : num rows[i] = i + 1 := by
  have hmap : (rows.map num)[i]? = (List.range' 1 rows.length)[i]? := by rw [h]
  rw [List.getElem?_map, List.getElem?_eq_getElem hi, List.getElem?_range' hi] at hmap
  have hnum : num rows[i] = 1 + 1 * i := Option.some.inj hmap
  omega

theorem mem_range (h : Numbered num rows) (ha : a ∈ rows) : 1 ≤ num a ∧ num a ≤ rows.length := by
  obtain ⟨i, hi, rfl⟩ := List.mem_iff_getElem.mp ha
  rw [h.num_getElem hi]
  omega

/-- Numbers tell rows apart, and grow. -/
theorem pairwise (h : Numbered num rows) : rows.Pairwise fun a b => num a < num b := by
  have hsorted : (rows.map num).Pairwise (· < ·) := by
    rw [h]
    exact List.pairwise_lt_range'
  exact List.pairwise_map.mp hsorted

/-- The greatest number is how many rows there are. -/
theorem max? (h : Numbered num rows) : (rows.map num).max?.getD 0 = rows.length := by
  rcases Nat.eq_zero_or_pos rows.length with hempty | hpos
  · rw [List.length_eq_zero_iff.mp hempty]
    rfl
  · have hmax : (rows.map num).max? = some rows.length := by
      refine List.max?_eq_some_iff.mpr ⟨?_, fun n hn => ?_⟩
      · have hlast : num rows[rows.length - 1] = rows.length := by
          rw [h.num_getElem]
          omega
        exact List.mem_map.mpr ⟨_, List.getElem_mem _, hlast⟩
      · obtain ⟨b, hb, rfl⟩ := List.mem_map.mp hn
        exact (h.mem_range hb).2
    rw [hmax, Option.getD_some]

/-- The row with the greatest number is the one added last. -/
theorem getLast?_iff (h : Numbered num rows) (ha : a ∈ rows) :
    rows.getLast? = some a ↔ num a = rows.length := by
  obtain ⟨i, hi, rfl⟩ := List.mem_iff_getElem.mp ha
  rw [h.num_getElem hi, List.getLast?_eq_getElem?]
  constructor
  · intro hlast
    by_contra hne
    have hnodup := h.pairwise
    rw [List.pairwise_iff_getElem] at hnodup
    have hpos : rows.length - 1 < rows.length := by omega
    rw [List.getElem?_eq_getElem hpos] at hlast
    have hlt := hnodup i (rows.length - 1) hi hpos (by omega)
    rw [Option.some.inj hlast] at hlt
    exact lt_irrefl _ hlt
  · intro hlast
    have hindex : rows.length - 1 = i := by omega
    rw [hindex, List.getElem?_eq_getElem hi]

/-- The last number is how many rows there are. -/
theorem num_getLast? (h : Numbered num rows) : (rows.getLast?.map num).getD 0 = rows.length := by
  rw [List.getLast?_eq_getElem?]
  rcases Nat.eq_zero_or_pos rows.length with hempty | hpos
  · rw [hempty, List.length_eq_zero_iff.mp hempty]
    rfl
  · have hlast : rows.length - 1 < rows.length := by omega
    rw [List.getElem?_eq_getElem hlast, Option.map_some, Option.getD_some, h.num_getElem hlast]
    omega

/-- A query for the greatest number returns the row added last. -/
theorem head?_orderByDesc (h : Numbered num rows) :
    (Select.orderByDesc num rows).head? = rows.getLast? := by
  rw [Select.orderByDesc_eq_reverse h.pairwise, List.head?_reverse]

end Numbered
