import Persola.Lib.Json

/-!
# `JsonRead` — `json.loads` with numbers that may be refused

The scanner of `Json` again, for a reader of numbers that can fail in its own way. Numbers are converted when the
scanner comes to them, so such a failure comes before any fault of the text behind the number.
-/

namespace Json

variable {ε ν : Type*} (malformed : ε) (number : List Char → Except ε (ν × List Char))

mutual

/-- `scan_once`, for texts that `fuel` is enough for. -/
def readOnce : ℕ → List Char → Except ε (Json ν × List Char)
  | 0, _ => .error malformed
  | fuel + 1, s =>
      match s with
      | '"' :: s => match scanString s with
          | none => .error malformed
          | some (t, r) => .ok (.str t, r)
      | '{' :: s =>
          match skip s with
          | '}' :: r => .ok (.obj [], r)
          | s => (readFields fuel s).map fun (fields, r) => (.obj (Py.assign [] fields), r)
      | '[' :: s =>
          match skip s with
          | ']' :: r => .ok (.arr [], r)
          | s => (readItems fuel s).map fun (items, r) => (.arr items, r)
      | 'n' :: 'u' :: 'l' :: 'l' :: r => .ok (.null, r)
      | 't' :: 'r' :: 'u' :: 'e' :: r => .ok (.bool true, r)
      | 'f' :: 'a' :: 'l' :: 's' :: 'e' :: r => .ok (.bool false, r)
      | s => (number s).map fun (n, r) => (.number n, r)

/-- The items of an array, and its end. -/
def readItems : ℕ → List Char → Except ε (List (Json ν) × List Char)
  | 0, _ => .error malformed
  | fuel + 1, s => do
      let (v, s) ← readOnce fuel s
      match skip s with
      | ',' :: s => (readItems fuel (skip s)).map fun (items, r) => (v :: items, r)
      | ']' :: r => .ok ([v], r)
      | _ => .error malformed

/-- The fields of an object, and its end. -/
def readFields : ℕ → List Char → Except ε (List (String × Json ν) × List Char)
  | 0, _ => .error malformed
  | fuel + 1, s =>
      match s with
      | '"' :: s =>
          match scanString s with
          | none => .error malformed
          | some (k, s) =>
              match skip s with
              | ':' :: s => do
                  let (v, s) ← readOnce fuel (skip s)
                  match skip s with
                  | ',' :: s => (readFields fuel (skip s)).map fun (fields, r) => ((k, v) :: fields, r)
                  | '}' :: r => .ok ([(k, v)], r)
                  | _ => .error malformed
              | _ => .error malformed
      | _ => .error malformed

end

/-- `json.loads(s)`. -/
def read (s : List Char) : Except ε (Json ν) := do
  let (v, r) ← readOnce malformed number (2 * s.length + 1) (skip s)
  if skip r = [] then .ok v else .error malformed

variable {malformed number}

theorem readOnce_number {fuel : ℕ} {c : Char} {s : List Char} (h : numberStart c) :
    readOnce malformed number (fuel + 1) (c :: s) = (number (c :: s)).map fun (n, r) => (.number n, r) := by
  rw [readOnce]
  all_goals
    rintro _ heq
    obtain ⟨rfl, -⟩ := List.cons.inj heq
    cases h

theorem readOnce_array {fuel : ℕ} {s : List Char} (h : ∀ r, skip s ≠ ']' :: r) :
    readOnce malformed number (fuel + 1) ('[' :: s) =
      (readItems malformed number fuel (skip s)).map fun (items, r) => (.arr items, r) := by
  have hbracket : readOnce malformed number (fuel + 1) ('[' :: s) =
      match skip s with
      | ']' :: r => .ok (.arr [], r)
      | s => (readItems malformed number fuel s).map fun (items, r) => (.arr items, r) := rfl
  rw [hbracket]
  split
  · next r heq => exact absurd heq (h r)
  · rfl

/-- What starts with a brace is an object. -/
theorem read_brace {s : List Char} {v : Json ν} (h : read malformed number ('{' :: s) = .ok v) :
    ∃ fields, v = .obj fields := by
  unfold read at h
  rw [skip_cons (by decide)] at h
  cases hread : readOnce malformed number (2 * ('{' :: s).length + 1) ('{' :: s) with
  | error e =>
      rw [hread] at h
      cases h
  | ok vr =>
      obtain ⟨w, r⟩ := vr
      rw [hread] at h
      simp only [bind, Except.bind] at h
      split at h
      · obtain rfl := Except.ok.inj h
        rw [readOnce] at hread
        split at hread
        · obtain ⟨rfl, -⟩ := Prod.mk.inj (Except.ok.inj hread)
          exact ⟨[], rfl⟩
        · cases hfields : readFields malformed number (2 * ('{' :: s).length) (skip s) with
          | error e =>
              rw [hfields] at hread
              cases hread
          | ok fr =>
              rw [hfields] at hread
              obtain ⟨rfl, -⟩ := Prod.mk.inj (Except.ok.inj hread)
              exact ⟨_, rfl⟩
      · cases h

end Json
