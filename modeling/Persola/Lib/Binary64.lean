import Persola.Lib.Py
import Mathlib.Data.Int.Log

/-!
# `Binary64` — how the results of float operations are rounded

An operation on floats computes exactly and rounds the result. A `Rounding` keeps the order, leaves what it has
rounded and every number of up to 53 binary digits, and moves a number up to one by half of its last place at most.
`Rounding.exact` rounds nothing; `Rounding.binary64` rounds to 53 digits, ties to even, and gives the numbers next to
zero the same last place (overflow aside).

What is an integer multiple of a power of two, with no more than 53 digits, is kept (`fl_of_digits`); from it the order
follows by comparing last places.
-/

/-- How the result of a float operation is rounded. -/
structure Rounding where
  fl : ℚ → ℚ
  mono : Monotone fl
  idem : ∀ x, fl (fl x) = fl x
  digits : ∀ n e : ℤ, |n| ≤ 2 ^ 53 → -1074 ≤ e → fl (n * 2 ^ e) = n * 2 ^ e
  near : ∀ x, |x| ≤ 1 → |fl x - x| ≤ 1 / 2 ^ 54

namespace Rounding

/-- No rounding. -/
def exact : Rounding where
  fl := id
  mono := monotone_id
  idem _ := rfl
  digits _ _ _ _ := rfl
  near x _ := by rw [id, sub_self, abs_zero]; positivity

variable (r : Rounding)

/-- `a + b` -/
def add (a b : ℚ) : ℚ := r.fl (a + b)

/-- `a - b` -/
def sub (a b : ℚ) : ℚ := r.fl (a - b)

/-- `a * b` -/
def mul (a b : ℚ) : ℚ := r.fl (a * b)

/-- `a / b` -/
def div (a b : ℚ) : ℚ := r.fl (a / b)

/-- `round(x, digits)`: the float next to the decimal. -/
def round (digits : ℕ) (x : ℚ) : ℚ := r.fl (Py.round digits x)

theorem fl_intCast {n : ℤ} (hn : |n| ≤ 2 ^ 53) : r.fl n = n := by
  have h := r.digits n 0 hn (by omega)
  rwa [zpow_zero, mul_one] at h

@[simp] theorem fl_zero : r.fl 0 = 0 := by
  have h := r.fl_intCast (n := 0) (by decide)
  rwa [Int.cast_zero] at h

@[simp] theorem fl_one : r.fl 1 = 1 := by
  have h := r.fl_intCast (n := 1) (by decide)
  rwa [Int.cast_one] at h

theorem fl_half : r.fl (1/2) = 1/2 := by
  have h := r.digits 1 (-1) (by decide) (by omega)
  norm_num at h ⊢
  exact h

variable {x : ℚ} {digits : ℕ}

theorem fl_nonneg (h : 0 ≤ x) : 0 ≤ r.fl x := by
  rw [← r.fl_zero]
  exact r.mono h

theorem fl_le_one (h : x ≤ 1) : r.fl x ≤ 1 := by
  rw [← r.fl_one]
  exact r.mono h

/-- A whole number is a decimal. -/
theorem py_round_one (digits : ℕ) : Py.round digits 1 = 1 := by
  have hone := Py.round_of_multiple digits (10 ^ digits)
  rw [Int.cast_pow, Int.cast_ofNat, div_self (by positivity)] at hone
  exact hone

/-- What is less than half a unit of the last digit away from a decimal becomes its float. -/
theorem round_eq_of_near {n : ℤ} (h : |x - n / 10 ^ digits| < 1 / (2 * 10 ^ digits)) :
    r.round digits x = r.fl (n / 10 ^ digits) :=
  congrArg r.fl (Py.round_eq_of_near h)

/-- **What is rounded to one** is what is rounded to one exactly, as a decimal below one has a float below one. -/
theorem round_eq_one_iff (hdigits : 0 < digits) (hfew : digits ≤ 15) (h0 : 0 ≤ x) (h1 : x ≤ 1) :
    r.round digits x = 1 ↔ 2 * 10 ^ digits * (1 - x) ≤ 1 := by
  rw [← Py.round_eq_one_iff hdigits h1]
  have hpos : (0 : ℚ) < 10 ^ digits := by positivity
  have hzero := Py.round_of_multiple digits 0
  rw [Int.cast_zero, zero_div] at hzero
  have hlow : 0 ≤ Py.round digits x := hzero ▸ Py.round_mono digits h0
  have hhigh : Py.round digits x ≤ 1 := py_round_one digits ▸ Py.round_mono digits h1
  constructor
  · intro hone
    by_contra hne
    obtain ⟨k, hk⟩ : ∃ k : ℤ, Py.round digits x = k / 10 ^ digits := ⟨_, rfl⟩
    have hlt : (k : ℚ) / 10 ^ digits < 1 := hk ▸ hhigh.lt_of_ne hne
    rw [div_lt_one hpos] at hlt
    have hk1 : (k : ℚ) + 1 ≤ 10 ^ digits := by exact_mod_cast Int.add_one_le_iff.mpr (by exact_mod_cast hlt)
    have hgap : (k : ℚ) / 10 ^ digits ≤ 1 - 1 / 10 ^ digits := by
      rw [div_le_iff₀ hpos, sub_mul, one_mul, div_mul_cancel₀ _ hpos.ne']
      linarith
    have hunit : (1 : ℚ) / 10 ^ 15 ≤ 1 / 10 ^ digits :=
      one_div_le_one_div_of_le hpos (pow_le_pow_right₀ (by norm_num) hfew)
    have hnear := abs_le.mp (r.near (Py.round digits x) (abs_le.mpr ⟨by linarith, hhigh⟩))
    have htiny : (1 : ℚ) / 2 ^ 54 < 1 / 10 ^ 15 := by norm_num
    rw [round] at hone
    rw [hone, hk] at hnear
    linarith [hnear.2]
  · intro hone
    rw [round, hone, r.fl_one]

/-- How far the rounded float of a share is from the share. -/
theorem round_fl_near (digits : ℕ) (h0 : 0 ≤ x) (h1 : x ≤ 1) :
    |r.round digits (r.fl x) - x| ≤ 1 / (2 * 10 ^ digits) + 2 / 2 ^ 54 := by
  have hzero := Py.round_of_multiple digits 0
  rw [Int.cast_zero, zero_div] at hzero
  have hlow : 0 ≤ Py.round digits (r.fl x) := hzero ▸ Py.round_mono digits (r.fl_nonneg h0)
  have hhigh : Py.round digits (r.fl x) ≤ 1 := py_round_one digits ▸ Py.round_mono digits (r.fl_le_one h1)
  have hfirst := r.near x (abs_le.mpr ⟨by linarith, h1⟩)
  have hdecimal := Py.round_error digits (r.fl x)
  have hlast := r.near (Py.round digits (r.fl x)) (abs_le.mpr ⟨by linarith, hhigh⟩)
  calc |r.round digits (r.fl x) - x|
      ≤ |r.round digits (r.fl x) - Py.round digits (r.fl x)| + |Py.round digits (r.fl x) - x| := abs_sub_le _ _ _
    _ ≤ |r.round digits (r.fl x) - Py.round digits (r.fl x)| +
        (|Py.round digits (r.fl x) - r.fl x| + |r.fl x - x|) := by gcongr; exact abs_sub_le _ _ _
    _ ≤ 1 / 2 ^ 54 + (1 / (2 * 10 ^ digits) + 1 / 2 ^ 54) := by gcongr; exact hlast
    _ = 1 / (2 * 10 ^ digits) + 2 / 2 ^ 54 := by ring

end Rounding

namespace Binary64

/-- The exponent of the last of 53 binary digits, and the least there is. -/
def lastPlace (x : ℚ) : ℤ := max (Int.log 2 |x| - 52) (-1074)

/-- The float next to `x`. -/
def fl (x : ℚ) : ℚ := Py.round 0 (x / 2 ^ lastPlace x) * 2 ^ lastPlace x

variable {x y : ℚ} {n e : ℤ}

theorem round_intCast (n : ℤ) : Py.round 0 (n : ℚ) = n := by
  have h := Py.round_of_multiple 0 n
  rwa [pow_zero, div_one] at h

/-- What lies on one side of a multiple of the last place is rounded to that side. -/
theorem fl_le (h : x ≤ n * 2 ^ lastPlace x) : fl x ≤ n * 2 ^ lastPlace x := by
  have hpos : (0 : ℚ) < 2 ^ lastPlace x := zpow_pos two_pos _
  refine mul_le_mul_of_nonneg_right ?_ hpos.le
  rw [← round_intCast n]
  exact Py.round_mono 0 ((div_le_iff₀ hpos).mpr h)

theorem le_fl (h : n * 2 ^ lastPlace x ≤ x) : n * 2 ^ lastPlace x ≤ fl x := by
  have hpos : (0 : ℚ) < 2 ^ lastPlace x := zpow_pos two_pos _
  refine mul_le_mul_of_nonneg_right ?_ hpos.le
  rw [← round_intCast n]
  exact Py.round_mono 0 ((le_div_iff₀ hpos).mpr h)

/-- A multiple of its last place is kept. -/
theorem fl_eq_self (h : x = n * 2 ^ lastPlace x) : fl x = x :=
  le_antisymm ((fl_le h.le).trans h.ge) (h.le.trans (le_fl h.ge))

theorem fl_zero : fl 0 = 0 := fl_eq_self (n := 0) (by simp)

/-- A number has no more than 53 digits. -/
theorem abs_lt_places (x : ℚ) : |x| < 2 ^ (lastPlace x + 53) := by
  refine (Int.lt_zpow_succ_log_self (b := 2) one_lt_two |x|).trans_le ?_
  have hle : Int.log 2 |x| - 52 ≤ lastPlace x := le_max_left _ _
  exact zpow_le_zpow_right₀ one_le_two (by omega)

/-- And it has 53 digits, unless it is next to zero. -/
theorem places_le_abs (hx : x ≠ 0) (h : -1074 < lastPlace x) : 2 ^ (lastPlace x + 52) ≤ |x| := by
  have heq : lastPlace x = Int.log 2 |x| - 52 := by
    rcases max_choice (Int.log 2 |x| - 52) (-1074) with h' | h'
    · exact h'
    · exact absurd h' (ne_of_gt h)
  have hlog := Int.zpow_log_le_self (b := 2) one_lt_two (abs_pos.mpr hx)
  rw [heq, sub_add_cancel]
  exact hlog

/-- The same, counted in last places. -/
theorem places (x : ℚ) (k : ℕ) : (2 : ℚ) ^ (lastPlace x + k) = ((2 ^ k : ℤ) : ℚ) * 2 ^ lastPlace x := by
  rw [zpow_add₀ two_ne_zero, zpow_natCast, mul_comm]
  push_cast
  rfl

/-- **Numbers of up to 53 digits are kept.** -/
theorem fl_of_digits (hn : |n| ≤ 2 ^ 53) (he : -1074 ≤ e) (h : x = n * 2 ^ e) : fl x = x := by
  have hpos : (0 : ℚ) < 2 ^ e := zpow_pos two_pos _
  rcases eq_or_ne x 0 with rfl | hx
  · exact fl_zero
  rcases le_or_gt (lastPlace x) e with hle | hlt
  · -- a coarser number is a multiple of the last place
    obtain ⟨k, hk⟩ := Int.eq_ofNat_of_zero_le (sub_nonneg.mpr hle)
    refine fl_eq_self (n := n * 2 ^ k) ?_
    have hsplit : (2 : ℚ) ^ e = 2 ^ k * 2 ^ lastPlace x := by
      rw [← zpow_natCast, ← zpow_add₀ two_ne_zero, ← hk, sub_add_cancel]
    calc x = n * 2 ^ e := h
      _ = n * (2 ^ k * 2 ^ lastPlace x) := by rw [hsplit]
      _ = ((n * 2 ^ k : ℤ) : ℚ) * 2 ^ lastPlace x := by push_cast; ring
  · -- a number with more digits than it may have is the next power of two
    have habs : |x| = |n| * 2 ^ e := by
      rw [h, abs_mul, abs_of_pos hpos, Int.cast_abs]
    have hlow : (2 : ℚ) ^ (e + 53) ≤ |x| :=
      (zpow_le_zpow_right₀ one_le_two (by omega)).trans (places_le_abs hx (by omega))
    have hfull : |n| = 2 ^ 53 := by
      refine le_antisymm hn ?_
      rw [habs, zpow_add₀ two_ne_zero, mul_comm ((2 : ℚ) ^ e), mul_le_mul_iff_left₀ hpos] at hlow
      exact_mod_cast hlow
    have hplace : lastPlace x = e + 1 := by
      have hpower : |x| = 2 ^ (e + 53) := by
        rw [habs, hfull, zpow_add₀ two_ne_zero, mul_comm]
        norm_num
      have hlog := Int.log_zpow (R := ℚ) one_lt_two (e + 53)
      rw [Nat.cast_ofNat, ← hpower] at hlog
      rw [lastPlace, hlog]
      omega
    have hhalf : (2 : ℚ) ^ e * 2 = 2 ^ lastPlace x := by
      rw [hplace, zpow_add_one₀ two_ne_zero]
    rcases abs_choice n with hsign | hsign
    · refine fl_eq_self (n := 2 ^ 52) ?_
      rw [← hhalf, h, ← hsign, hfull]
      push_cast
      ring
    · refine fl_eq_self (n := -2 ^ 52) ?_
      have hneg : n = -2 ^ 53 := by omega
      rw [← hhalf, h, hneg]
      push_cast
      ring

/-- A float is a number of up to 53 digits. -/
theorem exists_digits (x : ℚ) : ∃ n : ℤ, |n| ≤ 2 ^ 53 ∧ fl x = n * 2 ^ lastPlace x := by
  obtain ⟨n, hn⟩ : ∃ n : ℤ, Py.round 0 (x / 2 ^ lastPlace x) = n := ⟨_, div_one _⟩
  have hfl : fl x = n * 2 ^ lastPlace x := by rw [fl, hn]
  refine ⟨n, ?_, hfl⟩
  have hpos : (0 : ℚ) < 2 ^ lastPlace x := zpow_pos two_pos _
  have hbound := (abs_lt_places x).trans_eq (places x 53)
  obtain ⟨hlow, hhigh⟩ := abs_lt.mp hbound
  have hle := fl_le (x := x) (n := 2 ^ 53) hhigh.le
  have hge := le_fl (x := x) (n := -2 ^ 53) (by push_cast at hlow ⊢; linarith)
  rw [hfl, mul_le_mul_iff_left₀ hpos] at hle hge
  rw [abs_le]
  exact ⟨by exact_mod_cast hge, by exact_mod_cast hle⟩

/-- **Rounding what is rounded** changes nothing. -/
theorem fl_fl (x : ℚ) : fl (fl x) = fl x := by
  obtain ⟨n, hn, hfl⟩ := exists_digits x
  exact fl_of_digits hn (le_max_right _ _) hfl

/-- The last place of a greater number is no smaller. -/
theorem lastPlace_mono (hx : x ≠ 0) (h : |x| ≤ |y|) : lastPlace x ≤ lastPlace y :=
  max_le_max_right _ (sub_le_sub_right (Int.log_mono_right (abs_pos.mpr hx) h) 52)

/-- From one last place to the next there is room for all numbers of the smaller one. -/
theorem room (h : lastPlace x < lastPlace y) : (2 : ℚ) ^ (lastPlace x + 53) ≤ 2 ^ (lastPlace y + 52) :=
  zpow_le_zpow_right₀ one_le_two (by omega)

/-- **Rounding keeps the order.** -/
theorem fl_mono : Monotone fl := by
  intro x y h
  rcases eq_or_ne x 0 with rfl | hx
  · have hzero := le_fl (x := y) (n := 0) (by simpa using h)
    simpa [fl_zero] using hzero
  rcases eq_or_ne y 0 with rfl | hy
  · have hzero := fl_le (x := x) (n := 0) (by simpa using h)
    simpa [fl_zero] using hzero
  have hleast : ∀ z : ℚ, -1074 ≤ lastPlace z := fun z => le_max_right _ _
  rcases lt_trichotomy (lastPlace x) (lastPlace y) with hlt | heq | hgt
  · -- `y` is the larger one, so it is positive
    have hpos : 0 < y := by
      by_contra hneg
      rw [not_lt] at hneg
      refine absurd (lastPlace_mono hy ?_) (not_le.mpr hlt)
      rw [abs_of_nonpos hneg, abs_of_nonpos (h.trans hneg)]
      exact neg_le_neg h
    have hbelow := (le_abs_self x).trans (abs_lt_places x).le
    have habove := places_le_abs hy ((hleast x).trans_lt hlt)
    rw [abs_of_pos hpos] at habove
    calc fl x ≤ ((2 ^ 53 : ℤ) : ℚ) * 2 ^ lastPlace x := fl_le (by rwa [← places x 53])
      _ = 2 ^ (lastPlace x + 53) := (places x 53).symm
      _ ≤ 2 ^ (lastPlace y + 52) := room hlt
      _ = ((2 ^ 52 : ℤ) : ℚ) * 2 ^ lastPlace y := places y 52
      _ ≤ fl y := le_fl (by rwa [← places y 52])
  · unfold fl
    rw [heq]
    have hpos : (0 : ℚ) < 2 ^ lastPlace y := zpow_pos two_pos _
    exact mul_le_mul_of_nonneg_right (Py.round_mono 0 (div_le_div_of_nonneg_right h hpos.le)) hpos.le
  · -- `x` is the larger one, so it is negative
    have hneg : x < 0 := by
      by_contra hpos
      rw [not_lt] at hpos
      refine absurd (lastPlace_mono hx ?_) (not_le.mpr hgt)
      rw [abs_of_nonneg hpos, abs_of_nonneg (hpos.trans h)]
      exact h
    have habove := (neg_abs_le y).trans' (neg_le_neg (abs_lt_places y).le)
    have hbelow := places_le_abs hx ((hleast y).trans_lt hgt)
    rw [abs_of_neg hneg] at hbelow
    have hminus (z : ℚ) (k : ℕ) : ((-2 ^ k : ℤ) : ℚ) * 2 ^ lastPlace z = -2 ^ (lastPlace z + k) := by
      rw [places z k]
      push_cast
      ring
    calc fl x ≤ ((-2 ^ 52 : ℤ) : ℚ) * 2 ^ lastPlace x := fl_le (by rw [hminus x 52]; exact le_neg_of_le_neg hbelow)
      _ = -2 ^ (lastPlace x + 52) := hminus x 52
      _ ≤ -2 ^ (lastPlace y + 53) := neg_le_neg (room hgt)
      _ = ((-2 ^ 53 : ℤ) : ℚ) * 2 ^ lastPlace y := (hminus y 53).symm
      _ ≤ fl y := le_fl (by rw [hminus y 53]; exact habove)

/-- A number below one has its last place behind the 53rd binary digit. -/
theorem lastPlace_le (hx : x ≠ 0) (h : |x| < 1) : lastPlace x ≤ -53 := by
  have hlog : Int.log 2 |x| < 0 := by
    rw [← Int.lt_zpow_iff_log_lt one_lt_two (abs_pos.mpr hx), zpow_zero]
    exact h
  exact max_le (by omega) (by omega)

/-- **Half of the last place** is the most that rounding changes. -/
theorem fl_near (h : |x| ≤ 1) : |fl x - x| ≤ 1 / 2 ^ 54 := by
  rcases eq_or_ne x 0 with rfl | hx
  · rw [fl_zero, sub_self, abs_zero]
    positivity
  rcases h.lt_or_eq with hlt | hone
  · have hpos : (0 : ℚ) < 2 ^ lastPlace x := zpow_pos two_pos _
    have hplace : (2 : ℚ) ^ lastPlace x ≤ 2 ^ (-53 : ℤ) := zpow_le_zpow_right₀ one_le_two (lastPlace_le hx hlt)
    have herror := Py.round_error 0 (x / 2 ^ lastPlace x)
    calc |fl x - x| = |Py.round 0 (x / 2 ^ lastPlace x) - x / 2 ^ lastPlace x| * 2 ^ lastPlace x := by
          rw [← abs_of_pos hpos, ← abs_mul, abs_of_pos hpos, sub_mul, div_mul_cancel₀ _ hpos.ne']
          rfl
      _ ≤ 1 / 2 * 2 ^ (-53 : ℤ) := mul_le_mul (by simpa using herror) hplace hpos.le (by norm_num)
      _ = 1 / 2 ^ 54 := by norm_num
  · have hkept : fl x = x := by
      rcases abs_choice x with hsign | hsign
      · exact fl_of_digits (n := 1) (e := 0) (by decide) (by omega) (by rw [← hsign, hone]; simp)
      · exact fl_of_digits (n := -1) (e := 0) (by decide) (by omega) (by rw [← neg_neg x, ← hsign, hone]; simp)
    rw [hkept, sub_self, abs_zero]
    positivity

end Binary64

/-- The floats of Python. -/
def Rounding.binary64 : Rounding where
  fl := Binary64.fl
  mono := Binary64.fl_mono
  idem := Binary64.fl_fl
  digits _ _ hn he := Binary64.fl_of_digits hn he rfl
  near _ := Binary64.fl_near

example : Rounding.binary64.add (Binary64.fl (1/10)) (Binary64.fl (2/10)) ≠ Binary64.fl (3/10) := by decide +kernel
