import Mathlib.Data.List.ReduceOption

/-!
# `Pills` — a queue of items and sentinels

Workers take entries from the head of a queue: an item is worked on, a sentinel (`none`) ends the worker
that takes it. `Served n q` says that each item of `q` has fewer sentinels ahead of it than there are
workers, and this is exactly when `n` workers take all items before the sentinels have ended them.
-/

namespace Pills

variable {α : Type*} {n m : ℕ} {q pre post : List (Option α)} {a : α}

/-- The sentinels in a queue. -/
def sentinels (q : List (Option α)) : ℕ := q.countP Option.isNone

@[simp] theorem sentinels_nil : sentinels ([] : List (Option α)) = 0 := rfl

@[simp] theorem sentinels_none : sentinels (none :: q) = sentinels q + 1 := by
  simp [sentinels]

@[simp] theorem sentinels_some : sentinels (some a :: q) = sentinels q := by
  simp [sentinels]

@[simp] theorem sentinels_append : sentinels (q ++ pre) = sentinels q + sentinels pre := by
  simp [sentinels]

/-- Every item has fewer sentinels ahead of it than `n`. -/
def Served (n : ℕ) (q : List (Option α)) : Prop :=
  ∀ pre a post, q = pre ++ some a :: post → sentinels pre < n

theorem Served.nil : Served n ([] : List (Option α)) := by
  intro pre a post h
  simp at h

theorem Served.mono (h : Served n q) (hnm : n ≤ m) : Served m q :=
  fun pre a post hq => Nat.lt_of_lt_of_le (h pre a post hq) hnm

/-! ## Putting -/

/-- A sentinel put behind the items does not matter to them. -/
theorem Served.snoc_none (h : Served n q) : Served n (q ++ [none]) := by
  intro pre a post hq
  rcases List.eq_nil_or_concat post with rfl | ⟨post', b, rfl⟩
  · have hlast := congrArg List.getLast? hq
    simp at hlast
  · rw [List.concat_eq_append, ← List.cons_append, ← List.append_assoc] at hq
    obtain ⟨hq, -⟩ := List.append_inj' hq rfl
    exact h pre a post' hq

/-- An item is served if at its turn a worker is left. -/
theorem Served.snoc_some (h : Served n q) (hn : sentinels q < n) : Served n (q ++ [some a]) := by
  intro pre b post hq
  rcases List.eq_nil_or_concat post with rfl | ⟨post', c, rfl⟩
  · obtain ⟨rfl, -⟩ := List.append_inj' hq rfl
    exact hn
  · rw [List.concat_eq_append, ← List.cons_append, ← List.append_assoc] at hq
    obtain ⟨hq, -⟩ := List.append_inj' hq rfl
    exact h pre b post' hq

/-! ## Taking -/

theorem Served.tail_some (h : Served n (some a :: q)) : Served n q := by
  intro pre b post hq
  simpa using h (some a :: pre) b post (by rw [hq]; rfl)

/-- A worker that takes a sentinel is one worker less, for one sentinel less. -/
theorem Served.tail_none (h : Served (n + 1) (none :: q)) : Served n q := by
  intro pre b post hq
  have hlt := h (none :: pre) b post (by rw [hq]; rfl)
  rw [sentinels_none] at hlt
  omega

/-- Somebody is left to take an item. -/
theorem Served.pos (h : Served n q) (ha : some a ∈ q) : 0 < n := by
  obtain ⟨pre, post, hq⟩ := List.append_of_mem ha
  exact Nat.lt_of_le_of_lt (Nat.zero_le _) (h pre a post hq)

/-! ## What the workers take -/

/-- The items `n` workers take, until the queue is empty or a sentinel has ended the last of them. -/
def taken : ℕ → List (Option α) → List α
  | 0, _ => []
  | _, [] => []
  | n + 1, none :: q => taken n q
  | n + 1, some a :: q => a :: taken (n + 1) q

/-- **All items are taken, in order, exactly if they are served.** -/
theorem taken_eq_iff : taken n q = q.reduceOption ↔ Served n q := by
  induction q generalizing n with
  | nil => cases n <;> simp [taken, Served.nil]
  | cons entry q ih =>
      cases n with
      | zero =>
          constructor
          · intro hnil pre b post hq
            have hmem : b ∈ (entry :: q).reduceOption := by
              rw [List.reduceOption_mem_iff, hq]
              simp
            rw [← hnil] at hmem
            simp [taken] at hmem
          · intro h
            have hnone : (entry :: q).reduceOption = [] := by
              refine List.eq_nil_iff_forall_not_mem.mpr fun b hb => ?_
              exact absurd (h.pos (List.reduceOption_mem_iff.mp hb)) (Nat.lt_irrefl 0)
            rw [hnone, taken]
      | succ n =>
          cases entry with
          | none =>
              rw [taken, List.reduceOption_cons_of_none, ih]
              refine ⟨fun h => ?_, Served.tail_none⟩
              rintro (_ | ⟨b, pre⟩) a post hq
              · simp at hq
              · obtain ⟨rfl, htail⟩ := List.cons.inj hq
                have hlt := h pre a post htail
                rw [sentinels_none]
                omega
          | some b =>
              rw [taken, List.reduceOption_cons_of_some, List.cons.injEq, ih]
              refine ⟨fun h => ?_, fun h => ⟨rfl, h.tail_some⟩⟩
              rintro (_ | ⟨c, pre⟩) a post hq
              · exact Nat.succ_pos n
              · obtain ⟨rfl, htail⟩ := List.cons.inj hq
                rw [sentinels_some]
                exact h.2 pre a post htail

end Pills
