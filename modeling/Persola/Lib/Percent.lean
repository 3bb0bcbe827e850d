import Persola.Lib.Py

/-!
# `Percent` — numbers printed without decimals

`f"{x:.0f}"` rounds to a whole number, ties to even, so it prints the same for two numbers exactly if they round to
the same one; for two percentages that make up a hundred these are all that print as fifty.
-/

namespace Py

variable {x y : ℚ}

/-- Rounding to no decimals gives a whole number. -/
theorem round_zero (x : ℚ) : ∃ n : ℤ, round 0 x = n ∧ |(n : ℚ) - x| ≤ 1 / 2 := by
  have herror := round_error 0 x
  have hwhole : ∃ n : ℤ, round 0 x = n := ⟨_, div_one _⟩
  obtain ⟨n, hn⟩ := hwhole
  rw [hn] at herror
  exact ⟨n, hn, by simpa using herror⟩

/-- **What rounds to an even number**: half a unit to either side, ties included. -/
theorem round_zero_eq_even {n : ℤ} (hn : n % 2 = 0) : round 0 x = n ↔ |(n : ℚ) - x| ≤ 1 / 2 := by
  constructor
  · intro h
    obtain ⟨m, hm, herror⟩ := round_zero x
    rwa [← Int.cast_inj.mp (hm.symm.trans h)]
  · intro h
    obtain ⟨hlow, hhigh⟩ := abs_le.mp h
    unfold round
    dsimp only
    rw [pow_zero, mul_one, div_one, Int.cast_inj]
    rcases le_or_gt (n : ℚ) x with hle | hlt
    · have hfloor : ⌊x⌋ = n := Int.floor_eq_iff.mpr ⟨hle, by linarith⟩
      rw [hfloor]
      split
      · rfl
      · rw [if_neg (by linarith)]
    · have hfloor : ⌊x⌋ = n - 1 := by
        refine Int.floor_eq_iff.mpr ⟨?_, ?_⟩
        · push_cast
          linarith
        · push_cast
          linarith
      rw [hfloor]
      push_cast
      rw [if_neg (by linarith)]
      split
      · ring
      · rw [if_neg (by omega)]
        ring

/-! ## What is printed -/

theorem toString_natAbs_inj {m n : ℕ} (h : toString m = toString n) : m = n := by
  have hdigits : Nat.toDigits 10 m = Nat.toDigits 10 n := by
    rw [← Nat.toList_repr, ← Nat.toList_repr]
    exact congrArg String.toList h
  rw [← Nat.ofDigitChars_ten_toDigits (n := m), hdigits, Nat.ofDigitChars_ten_toDigits]

/-- Numbers that are not negative print alike exactly if they round to the same number. -/
theorem formatWhole_inj (hx : 0 ≤ x) (hy : 0 ≤ y) : formatWhole x = formatWhole y ↔ round 0 x = round 0 y := by
  obtain ⟨m, hm, hmx⟩ := round_zero x
  obtain ⟨n, hn, hny⟩ := round_zero y
  have hsign (k : ℤ) (z : ℚ) (hz : 0 ≤ z) (hkz : |(k : ℚ) - z| ≤ 1 / 2) : 0 ≤ k := by
    have hlow : ((-1 : ℤ) : ℚ) < k := by
      push_cast
      linarith [(abs_le.mp hkz).1]
    have hlow : -1 < k := by exact_mod_cast hlow
    omega
  have hm₀ := hsign m x hx hmx
  have hn₀ := hsign n y hy hny
  unfold formatWhole
  rw [if_neg (not_lt.mpr hx), if_neg (not_lt.mpr hy), hm, hn]
  constructor
  · intro h
    have habs : (m : ℚ).num.natAbs = (n : ℚ).num.natAbs := toString_natAbs_inj (by simpa using h)
    rw [Rat.num_intCast, Rat.num_intCast] at habs
    have hmn : m = n := by omega
    rw [hmn]
  · intro h
    rw [h]

/-- What is printed of a number that is not negative is digits. -/
theorem isDigit_of_mem_formatWhole (hx : 0 ≤ x) {c : Char} (hc : c ∈ (formatWhole x).toList) : c.isDigit = true := by
  unfold formatWhole at hc
  rw [if_neg (not_lt.mpr hx), String.empty_append, Nat.toString_eq_repr, Nat.toList_repr] at hc
  exact Nat.isDigit_of_mem_toDigits (by norm_num) (by norm_num) hc

/-- The number in front of a percent sign can be read off a text. -/
theorem formatWhole_of_percent (hx : 0 ≤ x) (hy : 0 ≤ y) {rest rest' : String}
    (h : formatWhole x ++ ("%" ++ rest) = formatWhole y ++ ("%" ++ rest')) : formatWhole x = formatWhole y := by
  have hread (z : ℚ) (hz : 0 ≤ z) (rest : String) :
      (formatWhole z ++ ("%" ++ rest)).toList.takeWhile (· ≠ '%') = (formatWhole z).toList := by
    have hpercent : ("%" ++ rest).toList = '%' :: rest.toList := by simp
    rw [String.toList_append, hpercent, List.takeWhile_append_of_pos fun c hc => ?_, List.takeWhile_cons]
    · simp
    · refine decide_eq_true fun hc' => ?_
      have hdigit := isDigit_of_mem_formatWhole hz hc
      rw [hc'] at hdigit
      exact absurd hdigit (by decide)
  have hlists := congrArg (fun s => s.toList.takeWhile (· ≠ '%')) h
  rw [hread x hx, hread y hy] at hlists
  exact String.toList_inj.mp hlists

/-- A percentage has three digits at most. -/
theorem length_formatWhole_le (hx : 0 ≤ x) (hhundred : x ≤ 100) : (formatWhole x).length ≤ 3 := by
  obtain ⟨n, hn, herror⟩ := round_zero x
  obtain ⟨hlow, hhigh⟩ := abs_le.mp herror
  have hlow : ((-1 : ℤ) : ℚ) < n := by
    push_cast
    linarith
  have hhigh : (n : ℚ) < (101 : ℤ) := by
    push_cast
    linarith
  have hlow : -1 < n := by exact_mod_cast hlow
  have hhigh : n < 101 := by exact_mod_cast hhigh
  unfold formatWhole
  rw [if_neg (not_lt.mpr hx), hn, Rat.num_intCast, String.empty_append]
  exact (Nat.length_repr_le_iff (by norm_num)).mpr (by omega)

/-- **Two percentages that make up a hundred** print alike exactly if they are at most half a percent off. -/
theorem formatWhole_complement_iff (hx : 0 ≤ x) (hhundred : x ≤ 100) :
    formatWhole x = formatWhole (100 - x) ↔ |50 - x| ≤ 1 / 2 := by
  have hfifty (y : ℚ) : round 0 y = 50 ↔ |50 - y| ≤ 1 / 2 := by
    have heven := round_zero_eq_even (x := y) (n := 50) (by norm_num)
    exact_mod_cast heven
  have hother : |50 - (100 - x)| = |50 - x| := by
    rw [← abs_neg]
    congr 1
    ring
  rw [formatWhole_inj hx (sub_nonneg.mpr hhundred)]
  constructor
  · intro h
    obtain ⟨n, hn, herror⟩ := round_zero x
    have herror' : |(n : ℚ) - (100 - x)| ≤ 1 / 2 := by
      obtain ⟨m, hm, herror'⟩ := round_zero (100 - x)
      rwa [Int.cast_inj.mp (hm.symm.trans (h.symm.trans hn))] at herror'
    obtain ⟨hlow, hhigh⟩ := abs_le.mp herror
    obtain ⟨hlow', hhigh'⟩ := abs_le.mp herror'
    -- both round to `n`, and together they make up a hundred
    have hupper : ((n : ℤ) : ℚ) < (51 : ℤ) := by
      push_cast
      linarith
    have hlower : ((49 : ℤ) : ℚ) < n := by
      push_cast
      linarith
    have hupper : n < 51 := by exact_mod_cast hupper
    have hlower : 49 < n := by exact_mod_cast hlower
    obtain rfl : n = 50 := by omega
    exact (hfifty x).mp (by exact_mod_cast hn)
  · intro h
    rw [(hfifty x).mpr h, (hfifty (100 - x)).mpr (hother.trans_le h)]

end Py
