import Mathlib.Data.List.Basic

/-!
# `Seeded` — defaults that are stored when they are first looked at

A cell has a default. One store keeps it from the start; another begins empty and stores the default of a cell when
somebody looks at it first. Writes are the same in both, but a change of what is stored finds nothing to change in the
second before that look. The two show the same exactly when no such change is missed (`shown_iff`).
-/

namespace Seeded

variable {α : Type*}

/-- What happens to a cell. -/
inductive Event (α : Type*) where
  | write (a : α)
  /-- The value that is stored changes. -/
  | change
  | look

/-- Whether it is a change. -/
def Event.isChange : Event α → Bool
  | .change => true
  | _ => false

/-- The store that has the default from the start. -/
def eager (f : α → α) (s : Option α) : Event α → Option α
  | .write a => some a
  | .change => s.map f
  | .look => s

/-- The store that stores the default `d` at a look. -/
def lazy (f : α → α) (d s : Option α) : Event α → Option α
  | .write a => some a
  | .change => s.map f
  | .look => s.or d

/-- The changes that come first are missed. -/
def heard (es : List (Event α)) : List (Event α) := es.dropWhile Event.isChange

/-- Some change came before every look and every write, and nothing but looks followed the changes of that kind. -/
def Missed (es : List (Event α)) : Prop :=
  es.head?.any Event.isChange = true ∧ ∀ e ∈ heard es, e = .look

variable {f : α → α} {d s : Option α} {es : List (Event α)}

/-! ## What the second store shows -/

/-- From a cell that is stored, or has no default, on there is no difference. -/
theorem lazy_eq_eager (h : s.or d = s) : es.foldl (lazy f d) s = es.foldl (eager f) s ∧
    (es.foldl (lazy f d) s).or d = es.foldl (lazy f d) s := by
  induction es generalizing s with
  | nil => exact ⟨rfl, h⟩
  | cons e es ih =>
      cases e with
      | write a => exact @ih (some a) rfl
      | change =>
          refine @ih (s.map f) ?_
          cases s with
          | none =>
              obtain rfl : d = none := h
              rfl
          | some a => rfl
      | look =>
          have hlook : lazy f d s .look = s := h
          rw [List.foldl_cons, List.foldl_cons, hlook]
          exact ih h

/-- **The second store shows what the first does after the events that are heard.** -/
theorem lazy_or : (es.foldl (lazy f d) none).or d = (heard es).foldl (eager f) d := by
  induction es with
  | nil => rfl
  | cons e es ih =>
      cases e with
      | change => exact ih
      | write a =>
          obtain ⟨heq, hstored⟩ := @lazy_eq_eager _ f d (some a) es rfl
          show (es.foldl (lazy f d) (some a)).or d = es.foldl (eager f) (some a)
          rw [hstored, heq]
      | look =>
          obtain ⟨heq, hstored⟩ := @lazy_eq_eager _ f d d es Option.or_self
          show (es.foldl (lazy f d) d).or d = es.foldl (eager f) d
          rw [hstored, heq]

/-! ## Changes that can be made twice -/

/-- Two values that a change makes one show the same unless nothing but looks follow. -/
theorem eager_eq_iff {a b : α} (hab : a ≠ b) (hf : f a = f b) :
    es.foldl (eager f) (some a) = es.foldl (eager f) (some b) ↔ ¬ ∀ e ∈ es, e = .look := by
  induction es with
  | nil => simpa using hab
  | cons e es ih =>
      rw [List.forall_mem_cons]
      cases e with
      | look => simpa [eager] using ih
      | write c => simp [eager]
      | change => simp [eager, hf]

theorem eager_none (n : ℕ) : (List.replicate n Event.change).foldl (eager f) none = none := by
  induction n with
  | zero => rfl
  | succ n ih => exact ih

theorem eager_changes (hf : ∀ a, f (f a) = f a) (a : α) {n : ℕ} :
    (List.replicate (n + 1) Event.change).foldl (eager f) (some a) = some (f a) := by
  induction n with
  | zero => rfl
  | succ n ih =>
      rw [List.replicate_succ', List.foldl_append, ih]
      exact congrArg some (hf a)

theorem eq_replicate_append_heard (es : List (Event α)) : ∃ n, es = List.replicate n .change ++ heard es ∧
    (es.head?.any Event.isChange = true ↔ n ≠ 0) := by
  induction es with
  | nil => exact ⟨0, rfl, by simp⟩
  | cons e es ih =>
      obtain ⟨n, hn, -⟩ := ih
      cases e with
      | change => exact ⟨n + 1, congrArg (Event.change :: ·) hn, by simp [Event.isChange]⟩
      | write a => exact ⟨0, rfl, by simp [Event.isChange]⟩
      | look => exact ⟨0, rfl, by simp [Event.isChange]⟩

/-- **What is missed**: over a default that the change really changes, the two stores differ exactly when a change came
too early and has not been made good. -/
theorem shown_iff (hf : ∀ a, f (f a) = f a) (hd : ∀ a, d = some a → f a ≠ a) :
    (es.foldl (lazy f d) none).or d = es.foldl (eager f) d ↔ ¬ (d ≠ none ∧ Missed es) := by
  obtain ⟨n, hn, hhead⟩ := eq_replicate_append_heard es
  have hfold : es.foldl (eager f) d = (heard es).foldl (eager f) ((List.replicate n .change).foldl (eager f) d) := by
    rw [← List.foldl_append, ← hn]
  rw [lazy_or, hfold, Missed, hhead]
  cases d with
  | none => rw [eager_none]; simp
  | some a =>
      cases n with
      | zero => simp
      | succ n =>
          have hne : a ≠ f a := fun h => hd a rfl h.symm
          have heq : f a = f (f a) := (hf a).symm
          rw [eager_changes hf, eager_eq_iff hne heq]
          simp

end Seeded
