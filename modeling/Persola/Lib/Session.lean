import Mathlib.Data.List.Basic

/-!
# `Session` — a database session, and logs that grow by the entries of one owner

A session shows its own writes at once; they last only when it commits. Closing it drops what was written
since the last commit.

`Session.Grew` says how a log grew while one owner worked: by entries of that owner, whose landmarks (what a
`mark` keeps of them) are a given list. Growth composes, and what an owner's entries show afterwards is read
off the compositions alone.
-/

/-- The rows other sessions can see, and the rows this one has written. -/
structure Session (α : Type*) where
  committed : α
  working : α

namespace Session

variable {α ε κ μ : Type*} {s : Session α}

/-- A new session on committed rows. -/
def start (a : α) : Session α := ⟨a, a⟩

/-- Write without committing. -/
def write (s : Session α) (f : α → α) : Session α := ⟨s.committed, f s.working⟩

/-- Make what was written durable. -/
def commit (s : Session α) : Session α := ⟨s.working, s.working⟩

/-- End the session; what is left are the committed rows. -/
def close (s : Session α) : α := s.committed

@[simp] theorem working_start (a : α) : (start a).working = a := rfl
@[simp] theorem committed_start (a : α) : (start a).committed = a := rfl
@[simp] theorem working_write (f : α → α) : (s.write f).working = f s.working := rfl
@[simp] theorem committed_write (f : α → α) : (s.write f).committed = s.committed := rfl
@[simp] theorem working_commit : s.commit.working = s.working := rfl
@[simp] theorem committed_commit : s.commit.committed = s.working := rfl

/-! ## Logs -/

/-- `new` is `old` and entries of `k` whose landmarks are `ms`. -/
def Grew (owner : ε → Option κ) (mark : ε → Option μ) (k : κ) (ms : List μ) (old new : List ε) : Prop :=
  ∃ block, new = old ++ block ∧ (∀ e ∈ block, owner e = some k) ∧ block.filterMap mark = ms

variable {owner : ε → Option κ} {mark : ε → Option μ} {k : κ} {ms ms' : List μ} {l l' l'' : List ε}

theorem Grew.refl (l : List ε) : Grew owner mark k [] l l := ⟨[], by simp⟩

theorem Grew.trans (h : Grew owner mark k ms l l') (h' : Grew owner mark k ms' l' l'') :
    Grew owner mark k (ms ++ ms') l l'' := by
  obtain ⟨b, rfl, hb, rfl⟩ := h
  obtain ⟨b', rfl, hb', rfl⟩ := h'
  refine ⟨b ++ b', List.append_assoc _ _ _, ?_, List.filterMap_append⟩
  intro e he
  rcases List.mem_append.mp he with h | h
  · exact hb e h
  · exact hb' e h

theorem Grew.entry {e : ε} (he : owner e = some k) : Grew owner mark k (mark e).toList l (l ++ [e]) := by
  refine ⟨[e], rfl, by simpa using he, ?_⟩
  cases h : mark e <;> simp [h]

variable [DecidableEq κ]

/-- The landmarks of an owner. -/
def landmarks (owner : ε → Option κ) (mark : ε → Option μ) (k : κ) (l : List ε) : List μ :=
  (l.filter fun e => owner e = some k).filterMap mark

/-- The owner's landmarks grow by those of the new entries. -/
theorem Grew.landmarks_self (h : Grew owner mark k ms l l') :
    landmarks owner mark k l' = landmarks owner mark k l ++ ms := by
  obtain ⟨b, rfl, hb, rfl⟩ := h
  have hself : b.filter (fun e => decide (owner e = some k)) = b :=
    List.filter_eq_self.mpr fun e he => decide_eq_true (hb e he)
  unfold landmarks
  rw [List.filter_append, hself, List.filterMap_append]

/-- Nobody else's do. -/
theorem Grew.landmarks_ne (h : Grew owner mark k ms l l') {j : κ} (hj : j ≠ k) :
    landmarks owner mark j l' = landmarks owner mark j l := by
  obtain ⟨b, rfl, hb, -⟩ := h
  have hnone : b.filter (fun e => decide (owner e = some j)) = [] := by
    refine List.filter_eq_nil_iff.mpr fun e he => ?_
    rw [hb e he]
    simpa using hj.symm
  unfold landmarks
  rw [List.filter_append, hnone, List.append_nil]

/-- An owner that is in no entry has no landmarks. -/
theorem landmarks_eq_nil (h : ∀ e ∈ l, owner e ≠ some k) : landmarks owner mark k l = [] := by
  have hnone : l.filter (fun e => decide (owner e = some k)) = [] :=
    List.filter_eq_nil_iff.mpr fun e he => by simpa using h e he
  unfold landmarks
  rw [hnone, List.filterMap_nil]

end Session
