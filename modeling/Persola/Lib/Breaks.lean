import Mathlib.Data.List.Basic
import Mathlib.Data.String.Basic

/-!
# `Breaks` — texts put together at line breaks

Where two texts are put together with a line break between, nothing tells which of the breaks it was. If the second
parts are known to have equally many breaks, the parts are known all the same (`append_inj`): whatever comes before, the
last lines can be read off the end.
-/

namespace Breaks

variable {a b s t : String} {xs ys : List String}

/-- The number of line breaks of a text. -/
def breaks (s : String) : ℕ := s.toList.count '\n'

theorem breaks_ofList (l : List Char) : breaks (String.ofList l) = l.count '\n' := by
  unfold breaks
  rw [String.toList_ofList]

@[simp] theorem breaks_append (s t : String) : breaks (s ++ t) = breaks s + breaks t := by
  simp [breaks]

/-- The part after a separator is known by how many more there are in it. -/
theorem list_append_inj {α : Type*} [DecidableEq α] {c : α} {a b s t : List α} (h : a ++ c :: s = b ++ c :: t)
    (hcount : s.count c = t.count c) : a = b ∧ s = t := by
  rcases List.append_eq_append_iff.mp h with ⟨u, rfl, hu⟩ | ⟨u, rfl, hu⟩
  · cases u with
    | nil =>
        rw [List.nil_append] at hu
        exact ⟨(List.append_nil a).symm, (List.cons.inj hu).2⟩
    | cons d u =>
        obtain ⟨rfl, rfl⟩ := List.cons.inj hu
        simp at hcount
        omega
  · cases u with
    | nil =>
        rw [List.nil_append] at hu
        exact ⟨List.append_nil b, (List.cons.inj hu).2.symm⟩
    | cons d u =>
        obtain ⟨rfl, rfl⟩ := List.cons.inj hu
        simp at hcount
        omega

/-- **Texts are read off the end**: the part after a line break is known by its number of breaks. -/
theorem append_inj (h : a ++ "\n" ++ s = b ++ "\n" ++ t) (hbreaks : breaks s = breaks t) : a = b ∧ s = t := by
  have hlist := congrArg String.toList h
  simp only [String.toList_append, List.append_assoc] at hlist
  obtain ⟨ha, hs⟩ := list_append_inj (c := '\n') hlist hbreaks
  exact ⟨String.toList_inj.mp ha, String.toList_inj.mp hs⟩

/-- The breaks of joined lines. -/
theorem breaks_intercalate (h : ∀ x ∈ xs, breaks x = 0) : breaks ("\n".intercalate xs) = xs.length - 1 := by
  induction xs with
  | nil => rfl
  | cons x xs ih =>
      obtain ⟨hx, hxs⟩ := List.forall_mem_cons.mp h
      cases xs with
      | nil => simpa using hx
      | cons y ys =>
          have hbreak : breaks "\n" = 1 := rfl
          rw [String.intercalate_cons_cons, breaks_append, breaks_append, ih hxs, hx, hbreak]
          simp
          omega

/-- Joined lines are known, if there are equally many of them. -/
theorem intercalate_inj (hxs : ∀ x ∈ xs, breaks x = 0) (hys : ∀ y ∈ ys, breaks y = 0) (hlength : xs.length = ys.length)
    (h : "\n".intercalate xs = "\n".intercalate ys) : xs = ys := by
  induction xs generalizing ys with
  | nil => exact (List.length_eq_zero_iff.mp hlength.symm).symm
  | cons x xs ih =>
      cases ys with
      | nil => cases hlength
      | cons y ys =>
          obtain ⟨-, hxs⟩ := List.forall_mem_cons.mp hxs
          obtain ⟨-, hys⟩ := List.forall_mem_cons.mp hys
          have hlength : xs.length = ys.length := Nat.succ.inj hlength
          cases xs with
          | nil =>
              obtain rfl := List.length_eq_zero_iff.mp hlength.symm
              rw [String.intercalate_singleton, String.intercalate_singleton] at h
              rw [h]
          | cons x' xs =>
              cases ys with
              | nil => cases hlength
              | cons y' ys =>
                  rw [String.intercalate_cons_cons, String.intercalate_cons_cons] at h
                  obtain ⟨hfirst, hrest⟩ := append_inj h
                    (by rw [breaks_intercalate hxs, breaks_intercalate hys, hlength])
                  rw [hfirst, ih hxs hys hlength hrest]

end Breaks
