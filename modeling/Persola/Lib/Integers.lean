import Persola.Lib.Json
import Mathlib.Data.List.TakeWhile

/-!
# `Integers` — integers as the numbers of a JSON text

`int.__repr__`, and the pattern of the scanner for what has neither fraction nor exponent: an optional sign and
digits without leading zeros.
-/

namespace Json

/-- The digits of a number, the zero alone, and what follows. -/
def scanDigits (s : List Char) : Option (ℕ × List Char) :=
  match s with
  | '0' :: s => some (0, s)
  | s =>
      match s.span Char.isDigit with
      | ([], _) => none
      | (digits, r) => some (Nat.ofDigitChars 10 digits 0, r)

/-- An integer without fraction and exponent. -/
def scanInteger (s : List Char) : Option (ℤ × List Char) :=
  match s with
  | '-' :: s => (scanDigits s).map fun (n, r) => (-(n : ℤ), r)
  | s => (scanDigits s).map fun (n, r) => ((n : ℤ), r)

/-- `int.__repr__`. -/
def integerText (n : ℤ) : List Char :=
  match n with
  | .ofNat n => Nat.toDigits 10 n
  | .negSucc n => '-' :: Nat.toDigits 10 (n + 1)

section
variable {n : ℕ} {s r : List Char} {m : ℤ}

theorem isDigit_of_mem_toDigits {c : Char} (h : c ∈ Nat.toDigits 10 n) : c.isDigit :=
  Nat.isDigit_of_mem_toDigits (by decide) (by decide) h

theorem toDigits_eq_cons (n : ℕ) : ∃ c t, Nat.toDigits 10 n = c :: t ∧ c.isDigit := by
  cases h : Nat.toDigits 10 n with
  | nil => exact absurd h Nat.toDigits_ne_nil
  | cons c t => exact ⟨c, t, rfl, isDigit_of_mem_toDigits (n := n) (by simp [h])⟩

/-- A positive number has no leading zero. -/
theorem head?_toDigits (h : 0 < n) : (Nat.toDigits 10 n).head? ≠ some '0' := by
  induction n using Nat.strongRecOn with
  | ind n ih =>
      rw [Nat.toDigits_eq_if (by decide)]
      split
      · next hlt =>
          have hdigit : ∀ k < 10, 0 < k → k.digitChar ≠ '0' := by decide
          simpa using hdigit n hlt h
      · next hge =>
          rw [List.head?_append_of_ne_nil _ Nat.toDigits_ne_nil]
          exact ih (n / 10) (by omega) (by omega)

theorem numberChar_of_isDigit {c : Char} (h : c.isDigit) : numberChar c := by
  simp [numberChar, numberStart, h]

/-- The digits of a number are read back, up to what is no digit. -/
theorem scanDigits_toDigits_of (h : ∀ c ∈ r.head?, ¬ c.isDigit) : scanDigits (Nat.toDigits 10 n ++ r) = some (n, r) := by
  rcases Nat.eq_zero_or_pos n with rfl | hpos
  · rfl
  · have hhead := head?_toDigits hpos
    have hall : ∀ c ∈ Nat.toDigits 10 n, c.isDigit := fun c hc => isDigit_of_mem_toDigits hc
    have hr : r.takeWhile Char.isDigit = [] ∧ r.dropWhile Char.isDigit = r := by
      cases r with
      | nil => exact ⟨rfl, rfl⟩
      | cons c r => exact ⟨List.takeWhile_cons_of_neg (h c rfl), List.dropWhile_cons_of_neg (h c rfl)⟩
    have hspan : (Nat.toDigits 10 n ++ r).span Char.isDigit = (Nat.toDigits 10 n, r) := by
      rw [List.span_eq_takeWhile_dropWhile, List.takeWhile_append_of_pos hall, List.dropWhile_append_of_pos hall, hr.1,
        hr.2, List.append_nil]
    have hvalue := Nat.ofDigitChars_ten_toDigits (n := n)
    obtain ⟨c, t, hdigits, -⟩ := toDigits_eq_cons n
    rw [hdigits] at hhead hspan hvalue ⊢
    rw [scanDigits.eq_def]
    split
    · next heq => exact absurd (congrArg some (List.cons.inj heq).1) hhead
    · rw [hspan]
      dsimp only
      rw [hvalue]

/-- The digits of a number are read back. -/
theorem scanDigits_toDigits (h : Ends r) : scanDigits (Nat.toDigits 10 n ++ r) = some (n, r) :=
  scanDigits_toDigits_of fun c hc hdigit => h c hc (numberChar_of_isDigit hdigit)

theorem scanDigits_eq_some (h : scanDigits s = some (n, r)) : ∃ t, s = t ++ r ∧ t ≠ [] ∧ ∀ c ∈ t, c.isDigit := by
  rw [scanDigits.eq_def] at h
  split at h
  · obtain ⟨-, rfl⟩ := Prod.mk.inj (Option.some.inj h)
    exact ⟨['0'], rfl, by simp, List.forall_mem_singleton.mpr (by decide)⟩
  · split at h
    · cases h
    · next digits r' hne hspan =>
        obtain ⟨-, rfl⟩ := Prod.mk.inj (Option.some.inj h)
        rw [List.span_eq_takeWhile_dropWhile] at hspan
        obtain ⟨rfl, rfl⟩ := Prod.mk.inj hspan
        exact ⟨_, List.takeWhile_append_dropWhile.symm, hne, fun c hc => List.mem_takeWhile_imp hc⟩
end

instance : Numeral ℤ where
  text := integerText
  scan := scanInteger
  isZero n := n = 0
  text_eq_cons n := by
    cases n with
    | ofNat n =>
        obtain ⟨c, t, h, hc⟩ := toDigits_eq_cons n
        exact ⟨c, t, h, by simp [numberStart, hc]⟩
    | negSucc n => exact ⟨'-', _, rfl, rfl⟩
  numberChar_of_mem n c hc := by
    cases n with
    | ofNat n => exact numberChar_of_isDigit (isDigit_of_mem_toDigits hc)
    | negSucc n =>
        rcases List.mem_cons.mp hc with rfl | hc
        · rfl
        · exact numberChar_of_isDigit (isDigit_of_mem_toDigits hc)
  scan_text n r hr := by
    cases n with
    | ofNat n =>
        have hscan := scanDigits_toDigits (n := n) hr
        obtain ⟨c, t, h, hc⟩ := toDigits_eq_cons n
        show scanInteger (Nat.toDigits 10 n ++ r) = _
        rw [h] at hscan ⊢
        rw [scanInteger.eq_def]
        split
        · next heq =>
            obtain ⟨rfl, -⟩ := List.cons.inj heq
            cases hc
        · rw [hscan]
          rfl
    | negSucc n =>
        show (scanDigits (Nat.toDigits 10 (n + 1) ++ r)).map _ = _
        rw [scanDigits_toDigits hr]
        rfl
  scan_eq_some {s n r} h := by
    rw [scanInteger.eq_def] at h
    split at h
    · obtain ⟨⟨m, r'⟩, hscan, heq⟩ := Option.map_eq_some_iff.mp h
      obtain ⟨-, rfl⟩ := Prod.mk.inj heq
      obtain ⟨t, rfl, -, ht⟩ := scanDigits_eq_some hscan
      refine ⟨'-' :: t, rfl, by simp, List.forall_mem_cons.mpr ⟨rfl, fun c hc => ?_⟩⟩
      exact numberChar_of_isDigit (ht c hc)
    · obtain ⟨⟨m, r'⟩, hscan, heq⟩ := Option.map_eq_some_iff.mp h
      obtain ⟨-, rfl⟩ := Prod.mk.inj heq
      obtain ⟨t, rfl, hne, ht⟩ := scanDigits_eq_some hscan
      exact ⟨t, rfl, hne, fun c hc => numberChar_of_isDigit (ht c hc)⟩

example : scanInteger ['-', '1', '2', ','] = some (-12, [',']) ∧ integerText (-12) = ['-', '1', '2'] ∧
    scanInteger ['0', '1'] = some (0, ['1']) := by decide +kernel

end Json
