import Persola.Lib.Numbering

/-!
# `Optimistic` — the next number of a key, taken without a lock

Writers number rows within a key. Each reads how many rows of its key are committed, inserts a row with the
number after that, and commits or rolls back; their steps interleave at will. A unique constraint on key and
number lets an insert through only if neither a committed nor a pending row has its number. That alone keeps
`Optimistic.Inv`: the committed rows of a key are numbered in the order of their commits, and a key has at
most one pending row, which carries the next number.
-/

namespace Optimistic

variable {ι ρ κ : Type*} [DecidableEq κ] {key : ρ → κ} {num : ρ → ℕ} {rows : List ρ}
  {pending pending' : ι → Option ρ} {i : ι} {r : ρ}

/-- The rows of a key. -/
def rowsOf (key : ρ → κ) (rows : List ρ) (k : κ) : List ρ := rows.filter fun r => key r = k

/-- A row has the key and the number of `r`. -/
def Taken (key : ρ → κ) (num : ρ → ℕ) (rows : List ρ) (pending : ι → Option ρ) (r : ρ) : Prop :=
  (∃ a ∈ rows, key a = key r ∧ num a = num r) ∨
    ∃ i a, pending i = some a ∧ key a = key r ∧ num a = num r

/-- Committed rows are numbered within each key, and who is pending has the next number for itself. -/
structure Inv (key : ρ → κ) (num : ρ → ℕ) (rows : List ρ) (pending : ι → Option ρ) : Prop where
  numbered : ∀ k, Numbered num (rowsOf key rows k)
  next : ∀ i a, pending i = some a → num a = (rowsOf key rows (key a)).length + 1
  alone : ∀ i j a b, pending i = some a → pending j = some b → key a = key b → i = j

theorem mem_rowsOf {a : ρ} {k : κ} : a ∈ rowsOf key rows k ↔ a ∈ rows ∧ key a = k := by
  simp [rowsOf]

theorem rowsOf_snoc_self (key : ρ → κ) (rows : List ρ) (r : ρ) :
    rowsOf key (rows ++ [r]) (key r) = rowsOf key rows (key r) ++ [r] := by
  unfold rowsOf
  rw [List.filter_append, List.filter_singleton, decide_eq_true rfl]
  rfl

theorem rowsOf_snoc_ne (rows : List ρ) {k : κ} (h : key r ≠ k) :
    rowsOf key (rows ++ [r]) k = rowsOf key rows k := by
  unfold rowsOf
  rw [List.filter_append, List.filter_singleton, decide_eq_false h]
  exact List.append_nil _

/-- No row is ever lost. -/
theorem length_rowsOf_snoc (rows : List ρ) (r : ρ) (k : κ) :
    (rowsOf key rows k).length ≤ (rowsOf key (rows ++ [r]) k).length := by
  by_cases h : key r = k
  · rw [← h, rowsOf_snoc_self, List.length_append]
    exact Nat.le_add_right _ _
  · rw [rowsOf_snoc_ne rows h]

theorem Inv.nil (h : ∀ i, pending i = none) : Inv key num [] pending where
  numbered := fun _ => Numbered.nil
  next := by
    intro i a ha
    rw [h i] at ha
    cases ha
  alone := by
    intro i j a b ha
    rw [h i] at ha
    cases ha

/-- Nothing of what is pending changes. -/
theorem Inv.congr (h : Inv key num rows pending) (heq : ∀ j, pending' j = pending j) :
    Inv key num rows pending' := by
  rwa [show pending' = pending from funext heq]

/-- A number that was read and is not taken is the next one: numbers are never given back. -/
theorem Inv.num_eq (h : Inv key num rows pending) {n : ℕ} (hread : n ≤ (rowsOf key rows (key r)).length)
    (hnum : num r = n + 1) (hfree : ¬ Taken key num rows pending r) :
    num r = (rowsOf key rows (key r)).length + 1 := by
  rcases Nat.lt_or_ge n (rowsOf key rows (key r)).length with hlt | hge
  · -- a number below the next one is that of a committed row
    refine absurd ?_ hfree
    obtain ⟨hmem, hkey⟩ := mem_rowsOf.mp (List.getElem_mem hlt)
    exact .inl ⟨_, hmem, hkey, ((h.numbered _).num_getElem hlt).trans hnum.symm⟩
  · omega

/-- **An insert that goes through** takes the next number, and nobody else has it. -/
theorem Inv.insert (h : Inv key num rows pending) {n : ℕ} (hread : n ≤ (rowsOf key rows (key r)).length)
    (hnum : num r = n + 1) (hfree : ¬ Taken key num rows pending r) (hi : pending' i = some r)
    (hothers : ∀ j ≠ i, pending' j = pending j) : Inv key num rows pending' := by
  have hnext := h.num_eq hread hnum hfree
  have hnobody : ∀ j b, pending j = some b → key b ≠ key r := by
    intro j b hb hkey
    refine hfree (.inr ⟨j, b, hb, hkey, ?_⟩)
    rw [h.next j b hb, hkey, hnext]
  refine ⟨h.numbered, ?_, ?_⟩
  · intro j a ha
    by_cases hj : j = i
    · rw [hj, hi] at ha
      cases ha
      exact hnext
    · rw [hothers j hj] at ha
      exact h.next j a ha
  · intro j k a b ha hb hkey
    by_cases hj : j = i
    · by_cases hk : k = i
      · rw [hj, hk]
      · rw [hj, hi] at ha
        rw [hothers k hk] at hb
        cases ha
        exact absurd hkey.symm (hnobody k b hb)
    · rw [hothers j hj] at ha
      by_cases hk : k = i
      · rw [hk, hi] at hb
        cases hb
        exact absurd hkey (hnobody j a ha)
      · rw [hothers k hk] at hb
        exact h.alone j k a b ha hb hkey

/-- **A rollback** gives the number back. -/
theorem Inv.rollback (h : Inv key num rows pending) (hi : pending' i = none)
    (hothers : ∀ j ≠ i, pending' j = pending j) : Inv key num rows pending' := by
  have hstill : ∀ j a, pending' j = some a → pending j = some a := by
    intro j a ha
    by_cases hj : j = i
    · rw [hj, hi] at ha
      cases ha
    · rwa [hothers j hj] at ha
  exact ⟨h.numbered, fun j a ha => h.next j a (hstill j a ha),
    fun j k a b ha hb => h.alone j k a b (hstill j a ha) (hstill k b hb)⟩

/-- **A commit** adds the next row of its key. -/
theorem Inv.commit (h : Inv key num rows pending) (hr : pending i = some r) (hi : pending' i = none)
    (hothers : ∀ j ≠ i, pending' j = pending j) : Inv key num (rows ++ [r]) pending' := by
  refine ⟨?_, ?_, (h.rollback hi hothers).alone⟩
  · intro k
    by_cases hk : key r = k
    · rw [← hk, rowsOf_snoc_self]
      exact (h.numbered _).snoc (h.next i r hr)
    · rw [rowsOf_snoc_ne rows hk]
      exact h.numbered k
  · intro j a ha
    by_cases hj : j = i
    · rw [hj, hi] at ha
      cases ha
    · rw [hothers j hj] at ha
      -- the key of the committed row was its own
      have hne : key r ≠ key a := fun hkey => hj (h.alone i j r a hr ha hkey).symm
      rw [rowsOf_snoc_ne rows hne]
      exact h.next j a ha

end Optimistic
