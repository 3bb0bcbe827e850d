import Mathlib.Data.List.Chain
import Mathlib.Data.List.Nodup
import Mathlib.Data.List.Perm.Subperm

/-!
# `Trail` — loops that stop, and following references until one repeats

A loop is a step that may stop; it is run with fuel, and a **variant** that every step lowers says how much is enough. A
**trail** follows references from one thing to the next without coming to anything twice. Where only finitely many
things refer to another a trail is short, so a loop that only goes on to what is new stops, whatever cycles there are.
-/

namespace Trail

/-! ## Loops -/

section
variable {σ : Type*} (step : σ → Option σ)

/-- `while`: step until there is no step; `none` when the fuel runs out before. -/
def loop : ℕ → σ → Option σ
  | 0, _ => none
  | fuel + 1, s =>
      match step s with
      | none => some s
      | some t => loop fuel t

variable {s : σ}

/-- **The rule of loops**: an invariant that every step keeps, and a variant that every step lowers. -/
theorem loop_total (I : σ → Prop) (variant : σ → ℕ) (hstep : ∀ s t, I s → step s = some t → I t ∧ variant t < variant s)
    (hs : I s) : ∃ t, I t ∧ step t = none ∧ ∀ fuel, variant s < fuel → loop step fuel s = some t := by
  induction hn : variant s using Nat.strong_induction_on generalizing s with
  | h n ih =>
      cases hnext : step s with
      | none =>
          refine ⟨s, hs, hnext, fun fuel hfuel => ?_⟩
          obtain ⟨fuel, rfl⟩ := Nat.exists_eq_add_one_of_ne_zero (Nat.ne_zero_of_lt hfuel)
          simp only [loop, hnext]
      | some u =>
          obtain ⟨hu, hlt⟩ := hstep s u hs hnext
          obtain ⟨t, ht, hstop, hrun⟩ := ih (variant u) (hn ▸ hlt) hu rfl
          refine ⟨t, ht, hstop, fun fuel hfuel => ?_⟩
          obtain ⟨fuel, rfl⟩ := Nat.exists_eq_add_one_of_ne_zero (Nat.ne_zero_of_lt hfuel)
          simp only [loop, hnext]
          exact hrun fuel (by omega)

end

/-! ## Trails -/

variable {α : Type*} {next : α → Option α} {l : List α} {a b : α}

/-- Each leads to the next, and nothing comes twice. -/
structure IsTrail (next : α → Option α) (l : List α) : Prop where
  nodup : l.Nodup
  linked : l.IsChain fun a b => next a = some b

theorem IsTrail.singleton (next : α → Option α) (a : α) : IsTrail next [a] :=
  ⟨List.nodup_singleton a, List.isChain_singleton a⟩

/-- A trail goes on to what is new. -/
theorem IsTrail.concat (h : IsTrail next l) (hlast : l.getLast? = some a) (hnext : next a = some b) (hnew : b ∉ l) :
    IsTrail next (l ++ [b]) := by
  refine ⟨h.nodup.append (List.nodup_singleton b) ?_, ?_⟩
  · intro c hc hcb
    obtain rfl := List.mem_singleton.mp hcb
    exact hnew hc
  · refine List.isChain_append.mpr ⟨h.linked, List.isChain_singleton b, ?_⟩
    intro c hc d hd
    obtain rfl := Option.mem_unique hc hlast
    obtain rfl : b = d := Option.some.inj hd
    exact hnext

/-- All but the last lead on. -/
theorem IsTrail.leads_on (h : IsTrail next l) (ha : a ∈ l.dropLast) : ∃ b, next a = some b := by
  obtain ⟨i, hi, rfl⟩ := List.mem_iff_getElem.mp ha
  rw [List.length_dropLast] at hi
  have hlink := List.isChain_iff_getElem.mp h.linked i (by omega)
  rw [List.getElem_dropLast]
  exact ⟨_, hlink⟩

/-- **Trails are short**: there is at most one more on it than there are that lead on. -/
theorem IsTrail.length_le (h : IsTrail next l) (dom : List α) (hdom : ∀ a b, next a = some b → a ∈ dom) :
    l.length ≤ dom.length + 1 := by
  have hsub : l.dropLast ⊆ dom := fun a ha => (h.leads_on ha).elim (hdom a)
  have hle := (List.subperm_of_subset (h.nodup.sublist (List.dropLast_sublist l)) hsub).length_le
  rw [List.length_dropLast] at hle
  omega

end Trail
