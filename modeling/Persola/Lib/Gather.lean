import Persola.Lib.Runs
import Mathlib.Data.List.Basic

/-!
# `Gather` — processes that run concurrently and share nothing

A list of processes, each a run of the same system; a step is a step of any one of them. Since they share nothing,
the interleavings are known by their projections: a sequence of steps can be made exactly if each process can make its
own, and each ends where it would end alone (`exec_iff`). The order in which the processes proceed is lost.
-/

namespace Gather

open Runs

variable {S L : Type*} {M : System S L} {ps qs : List S} {ls : List (ℕ × L)}

/-- Some process, known by its place in the list, makes a step. -/
def system (M : System S L) : System (List S) (ℕ × L) where
  init ps := ∀ p ∈ ps, M.init p
  step ps l := do
    let p ← ps[l.1]?
    let q ← M.step p l.2
    return ps.set l.1 q

/-- The steps of one process. -/
def own (i : ℕ) (ls : List (ℕ × L)) : List L := (ls.filter (·.1 = i)).map Prod.snd

theorem own_cons (i : ℕ) (l : ℕ × L) (ls : List (ℕ × L)) :
    own i (l :: ls) = if l.1 = i then l.2 :: own i ls else own i ls := by
  unfold own
  by_cases h : l.1 = i
  · rw [if_pos h, List.filter_cons, if_pos (decide_eq_true h), List.map_cons]
  · rw [if_neg h, List.filter_cons, if_neg (by simpa using h)]

/-- **Interleaving rule**: concurrent processes do what each of them does alone. -/
theorem exec_iff : (system M).exec ps ls = some qs ↔ qs.length = ps.length ∧ (∀ l ∈ ls, l.1 < ps.length) ∧
    ∀ i p, ps[i]? = some p → M.exec p (own i ls) = qs[i]? := by
  induction ls generalizing ps with
  | nil =>
      constructor
      · intro h
        obtain rfl := Option.some.inj h
        exact ⟨rfl, by simp, fun i p hp => hp.symm⟩
      · rintro ⟨hlength, -, hown⟩
        refine congrArg some (List.ext_getElem? fun i => ?_)
        cases hp : ps[i]? with
        | none =>
            rw [List.getElem?_eq_none_iff] at hp
            exact (List.getElem?_eq_none (hlength ▸ hp)).symm
        | some p => exact hown i p hp
  | cons l ls ih =>
      obtain ⟨i, e⟩ := l
      rw [System.exec]
      cases hp : ps[i]? with
      | none =>
          have hstep : (system M).step ps (i, e) = none := by simp [system, hp]
          rw [hstep, Option.bind_none]
          refine iff_of_false (by simp) fun h => ?_
          exact absurd (h.2.1 (i, e) List.mem_cons_self) (Nat.not_lt.mpr (List.getElem?_eq_none_iff.mp hp))
      | some p =>
          obtain ⟨hi, -⟩ := List.getElem?_eq_some_iff.mp hp
          cases hq : M.step p e with
          | none =>
              have hstep : (system M).step ps (i, e) = none := by simp [system, hp, hq]
              rw [hstep, Option.bind_none]
              refine iff_of_false (by simp) fun h => ?_
              -- the process could not have made this step alone
              have halone := h.2.2 i p hp
              rw [own_cons, if_pos rfl, System.exec, hq, Option.bind_none] at halone
              exact absurd (List.getElem?_eq_none_iff.mp halone.symm) (Nat.not_le.mpr (h.1 ▸ hi))
          | some q =>
              have hstep : (system M).step ps (i, e) = some (ps.set i q) := by simp [system, hp, hq]
              rw [hstep, Option.bind_some, ih, List.length_set, List.forall_mem_cons]
              refine and_congr_right fun _ => ?_
              rw [and_assoc, and_iff_right hi]
              refine and_congr_right fun _ => forall_congr' fun j => ?_
              by_cases hij : i = j
              · subst hij
                rw [List.getElem?_set_self hi, own_cons, if_pos rfl, hp]
                have hrun : M.exec p (e :: own i ls) = M.exec q (own i ls) := System.exec_cons hq
                constructor
                · rintro h _ ⟨⟩
                  rw [hrun]
                  exact h q rfl
                · rintro h _ ⟨⟩
                  rw [← hrun]
                  exact h p rfl
              · rw [List.getElem?_set_ne hij, own_cons, if_neg hij]

end Gather
