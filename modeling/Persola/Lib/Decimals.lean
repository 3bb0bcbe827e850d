import Persola.Lib.Integers
import Mathlib.Algebra.Order.Ring.Rat

/-!
# `Decimals` — integers, and floats written without an exponent

The numbers of a JSON text that have digits before and after a point, or no point at all. `value` is what a number
stands for. `none` is `NaN`, which is read and written as well.
-/

namespace Json

/-- Digits after a point. -/
abbrev Fraction := {digits : List Char // digits ≠ [] ∧ ∀ c ∈ digits, c.isDigit}

/-- One digit after a point. -/
def tenths (c : Char) (h : c.isDigit) : Fraction := ⟨[c], List.cons_ne_nil _ _, List.forall_mem_singleton.mpr h⟩

/-- An integer or a decimal. -/
inductive Decimal
  | int (n : ℤ)
  | float (negative : Bool) (whole : ℕ) (fraction : Fraction)
deriving DecidableEq

namespace Decimal

/-- The number that is written. -/
def value : Decimal → ℚ
  | int n => n
  | float negative whole fraction =>
      let size : ℚ := whole + (Nat.ofDigitChars 10 fraction.1 0 : ℚ) / 10 ^ fraction.1.length
      if negative then -size else size

/-- How it is written. -/
def text : Decimal → List Char
  | int n => integerText n
  | float negative whole fraction =>
      (if negative then ['-'] else []) ++ (Nat.toDigits 10 whole ++ '.' :: fraction.1)

/-- The digits after a point, if there are any. -/
def scanFraction (s : List Char) : Option (Fraction × List Char) :=
  if h : s.takeWhile Char.isDigit ≠ [] then
    some (⟨s.takeWhile Char.isDigit, h, fun _ hc => List.mem_takeWhile_imp hc⟩, s.dropWhile Char.isDigit)
  else none

/-- A number without a sign. -/
def scanUnsigned (negative : Bool) (s : List Char) : Option (Decimal × List Char) :=
  (scanDigits s).map fun (n, r) =>
    match r with
    | '.' :: t =>
        match scanFraction t with
        | some (fraction, r) => (float negative n fraction, r)
        | none => (int (if negative then -n else n), '.' :: t)
    | r => (int (if negative then -n else n), r)

/-- A number. -/
def scan (s : List Char) : Option (Decimal × List Char) :=
  match s with
  | '-' :: s => scanUnsigned true s
  | s => scanUnsigned false s

variable {s r : List Char} {negative : Bool} {n : ℕ} {fraction : Fraction} {d : Decimal}

theorem scanFraction_append (hr : Ends r) : scanFraction (fraction.1 ++ r) = some (fraction, r) := by
  obtain ⟨digits, hne, hdigits⟩ := fraction
  have hstop : r.takeWhile Char.isDigit = [] ∧ r.dropWhile Char.isDigit = r := by
    cases r with
    | nil => exact ⟨rfl, rfl⟩
    | cons c r =>
        have hc : ¬ c.isDigit := fun hc => hr c rfl (numberChar_of_isDigit hc)
        exact ⟨List.takeWhile_cons_of_neg hc, List.dropWhile_cons_of_neg hc⟩
  have htake : (digits ++ r).takeWhile Char.isDigit = digits := by
    rw [List.takeWhile_append_of_pos hdigits, hstop.1, List.append_nil]
  have hdrop : (digits ++ r).dropWhile Char.isDigit = r := by
    rw [List.dropWhile_append_of_pos hdigits, hstop.2]
  unfold scanFraction
  simp only [htake, hdrop]
  rw [dif_pos hne]

theorem scanFraction_eq_some (h : scanFraction s = some (fraction, r)) : s = fraction.1 ++ r := by
  unfold scanFraction at h
  split at h
  · obtain ⟨rfl, rfl⟩ := Prod.mk.inj (Option.some.inj h)
    exact List.takeWhile_append_dropWhile.symm
  · cases h

theorem scanUnsigned_int (hr : Ends r) :
    scanUnsigned negative (Nat.toDigits 10 n ++ r) = some (int (if negative then -n else n), r) := by
  unfold scanUnsigned
  rw [scanDigits_toDigits hr, Option.map_some]
  dsimp only
  congr 1
  split
  · exact absurd rfl (hr '.' rfl)
  · rfl

theorem scanUnsigned_float (hr : Ends r) :
    scanUnsigned negative (Nat.toDigits 10 n ++ '.' :: (fraction.1 ++ r)) = some (float negative n fraction, r) := by
  unfold scanUnsigned
  rw [scanDigits_toDigits_of (by simp), Option.map_some]
  simp only [scanFraction_append hr]

theorem scanUnsigned_eq_some (h : scanUnsigned negative s = some (d, r)) :
    ∃ t, s = t ++ r ∧ t ≠ [] ∧ ∀ c ∈ t, numberChar c := by
  obtain ⟨⟨n, r'⟩, hscan, heq⟩ := Option.map_eq_some_iff.mp h
  obtain ⟨t, rfl, hne, ht⟩ := scanDigits_eq_some hscan
  have hdigits : ∀ c ∈ t, numberChar c := fun c hc => numberChar_of_isDigit (ht c hc)
  dsimp only at heq
  split at heq
  · next u =>
      split at heq
      · next fraction r'' hfraction =>
          obtain ⟨-, rfl⟩ := Prod.mk.inj heq
          refine ⟨t ++ '.' :: fraction.1, by rw [scanFraction_eq_some hfraction]; simp, by simp, fun c hc => ?_⟩
          rcases List.mem_append.mp hc with hc | hc
          · exact hdigits c hc
          · rcases List.mem_cons.mp hc with rfl | hc
            · rfl
            · exact numberChar_of_isDigit (fraction.2.2 c hc)
      · obtain ⟨-, rfl⟩ := Prod.mk.inj heq
        exact ⟨t, rfl, hne, hdigits⟩
  · obtain ⟨-, rfl⟩ := Prod.mk.inj heq
    exact ⟨t, rfl, hne, hdigits⟩

/-- Digits are no sign. -/
theorem scan_toDigits : scan (Nat.toDigits 10 n ++ r) = scanUnsigned false (Nat.toDigits 10 n ++ r) := by
  obtain ⟨c, t, h, hc⟩ := toDigits_eq_cons n
  rw [h, scan.eq_def]
  split
  · next heq =>
      obtain ⟨rfl, -⟩ := List.cons.inj heq
      cases hc
  · rfl

instance : Numeral Decimal where
  text := text
  scan := scan
  isZero d := d.value = 0
  text_eq_cons d := by
    cases d with
    | int n => exact Numeral.text_eq_cons n
    | float negative whole fraction =>
        obtain ⟨c, t, h, hc⟩ := toDigits_eq_cons whole
        cases negative with
        | true => exact ⟨'-', _, rfl, rfl⟩
        | false => exact ⟨c, t ++ '.' :: fraction.1, by simp [text, h], by simp [numberStart, hc]⟩
  numberChar_of_mem d c hc := by
    cases d with
    | int n => exact Numeral.numberChar_of_mem n c hc
    | float negative whole fraction =>
        rcases List.mem_append.mp hc with hc | hc
        · cases negative with
          | true => exact List.mem_singleton.mp hc ▸ rfl
          | false => cases hc
        · rcases List.mem_append.mp hc with hc | hc
          · exact numberChar_of_isDigit (isDigit_of_mem_toDigits hc)
          · rcases List.mem_cons.mp hc with rfl | hc
            · rfl
            · exact numberChar_of_isDigit (fraction.2.2 c hc)
  scan_text d r hr := by
    cases d with
    | int n =>
        cases n with
        | ofNat n =>
            show scan (Nat.toDigits 10 n ++ r) = _
            rw [scan_toDigits, scanUnsigned_int hr]
            rfl
        | negSucc n =>
            show scanUnsigned true (Nat.toDigits 10 (n + 1) ++ r) = _
            rw [scanUnsigned_int hr]
            rfl
    | float negative whole fraction =>
        cases negative with
        | true =>
            show scanUnsigned true ((Nat.toDigits 10 whole ++ '.' :: fraction.1) ++ r) = _
            rw [List.append_assoc, List.cons_append, scanUnsigned_float hr]
        | false =>
            show scan ((Nat.toDigits 10 whole ++ '.' :: fraction.1) ++ r) = _
            rw [List.append_assoc, List.cons_append, scan_toDigits, scanUnsigned_float hr]
  scan_eq_some {s d r} h := by
    rw [scan.eq_def] at h
    split at h
    · obtain ⟨t, rfl, -, ht⟩ := scanUnsigned_eq_some h
      exact ⟨'-' :: t, rfl, by simp, List.forall_mem_cons.mpr ⟨rfl, ht⟩⟩
    · exact scanUnsigned_eq_some h

example : scan ['0', '.', '7', ','] = some (float false 0 (tenths '7' rfl), [',']) := by decide +kernel

/-! ## `NaN` -/

/-- A number, or `NaN`. -/
def scanNan : List Char → Option (Option Decimal × List Char)
  | 'N' :: 'a' :: 'N' :: r => some (none, r)
  | s => (scan s).map fun (d, r) => (some d, r)

theorem text_head (d : Decimal) : ∃ c t, text d = c :: t ∧ c ≠ 'N' := by
  have hdigit {c : Char} (hc : c.isDigit) : c ≠ 'N' := fun h => by rw [h] at hc; cases hc
  cases d with
  | int n =>
      cases n with
      | ofNat n =>
          obtain ⟨c, t, h, hc⟩ := toDigits_eq_cons n
          exact ⟨c, t, h, hdigit hc⟩
      | negSucc n => exact ⟨'-', _, rfl, by decide⟩
  | float negative whole fraction =>
      obtain ⟨c, t, h, hc⟩ := toDigits_eq_cons whole
      cases negative with
      | true => exact ⟨'-', _, rfl, by decide⟩
      | false => exact ⟨c, t ++ '.' :: fraction.1, by simp [text, h], hdigit hc⟩

theorem scanNan_text (d : Decimal) : scanNan (text d ++ r) = (scan (text d ++ r)).map fun (d, r) => (some d, r) := by
  obtain ⟨c, t, htext, hc⟩ := text_head d
  rw [htext, scanNan.eq_def]
  split
  · next heq => exact absurd (List.cons.inj heq).1 hc
  · rfl

instance : Numeral (Option Decimal) where
  text
    | some d => text d
    | none => ['N', 'a', 'N']
  scan := scanNan
  isZero d := d.any (·.value = 0)
  text_eq_cons d := by
    cases d with
    | some d => exact Numeral.text_eq_cons d
    | none => exact ⟨'N', _, rfl, rfl⟩
  numberChar_of_mem d := by
    cases d with
    | some d => exact Numeral.numberChar_of_mem d
    | none => exact List.all_eq_true.mp rfl
  scan_text d r hr := by
    cases d with
    | some d =>
        show scanNan (text d ++ r) = _
        rw [scanNan_text, show scan (text d ++ r) = some (d, r) from Numeral.scan_text d r hr]
        rfl
    | none => rfl
  scan_eq_some {s d r} h := by
    rw [scanNan.eq_def] at h
    split at h
    · obtain ⟨-, rfl⟩ := Prod.mk.inj (Option.some.inj h)
      exact ⟨['N', 'a', 'N'], rfl, by simp, List.all_eq_true.mp rfl⟩
    · obtain ⟨⟨d, r⟩, hscan, heq⟩ := Option.map_eq_some_iff.mp h
      obtain ⟨-, rfl⟩ := Prod.mk.inj heq
      exact Numeral.scan_eq_some (ν := Decimal) hscan

end Decimal

end Json
