import Persola.Lib.Py
import Mathlib.Tactic.IntervalCases

/-!
# `Uuid` — identifiers of 128 bits and their texts

`uuid.UUID(text)` leaves out `urn:`, `uuid:`, braces and hyphens and reads the 32 characters that remain with
`int(text, 16)`, so it takes many texts for the same identifier; `str` writes one of them, in groups of 8, 4, 4, 4
and 12 lower-case digits. The text that is written is read back (`parse_text`), and it is the only one that is
written again after reading (`text_parse_iff`).
-/

namespace Uuid

/-! ## Reading -/

/-- `text.replace(sep, "")`; the counter runs over the rest of an occurrence. -/
def removeAll (sep : List Char) : ℕ → List Char → List Char
  | _, [] => []
  | skip + 1, _ :: rest => removeAll sep skip rest
  | 0, c :: rest =>
      if sep.isPrefixOf (c :: rest) then removeAll sep (sep.length - 1) rest else c :: removeAll sep 0 rest

/-- `text.strip(chars)`. -/
def stripChars (chars s : List Char) : List Char :=
  ((s.dropWhile (· ∈ chars)).reverse.dropWhile (· ∈ chars)).reverse

/-- The zeros of the decimal digits of Unicode; nine more digits follow each of them. -/
def decimalZeros : List ℕ :=
  [0x30, 0x660, 0x6f0, 0x7c0, 0x966, 0x9e6, 0xa66, 0xae6, 0xb66, 0xbe6, 0xc66, 0xce6, 0xd66, 0xde6, 0xe50, 0xed0,
   0xf20, 0x1040, 0x1090, 0x17e0, 0x1810, 0x1946, 0x19d0, 0x1a80, 0x1a90, 0x1b50, 0x1bb0, 0x1c40, 0x1c50, 0xa620,
   0xa8d0, 0xa900, 0xa9d0, 0xa9f0, 0xaa50, 0xabf0, 0xff10, 0x104a0, 0x10d30, 0x11066, 0x110f0, 0x11136, 0x111d0,
   0x112f0, 0x11450, 0x114d0, 0x11650, 0x116c0, 0x11730, 0x118e0, 0x11950, 0x11c50, 0x11d50, 0x11da0, 0x16a60,
   0x16ac0, 0x16b50, 0x1d7ce, 0x1d7d8, 0x1d7e2, 0x1d7ec, 0x1d7f6, 0x1e140, 0x1e2f0, 0x1e950, 0x1fbf0]

/-- A character as `int` reads it: decimal digits and blanks of Unicode stand for those of ASCII. -/
def toAscii (c : Char) : Char :=
  match decimalZeros.find? fun first => first ≤ c.toNat ∧ c.toNat < first + 10 with
  | some first => (c.toNat - first).digitChar
  | none => if Py.isSpace c then ' ' else c

/-- A text as `int` reads it; one in ASCII is taken as it is. -/
def asAscii (s : List Char) : List Char := if s.all (·.toNat < 128) then s else s.map toAscii

/-- The blanks of ASCII. -/
def isBlank (c : Char) : Bool := c.toNat = 32 || (9 ≤ c.toNat && c.toNat ≤ 13)

/-- The value of a hexadecimal digit. -/
def hexDigit (c : Char) : Option ℕ :=
  if 48 ≤ c.toNat ∧ c.toNat ≤ 57 then some (c.toNat - 48)
  else if 97 ≤ c.toNat ∧ c.toNat ≤ 102 then some (c.toNat - 87)
  else if 65 ≤ c.toNat ∧ c.toNat ≤ 70 then some (c.toNat - 55)
  else none

/-- Digits with single underscores between them; the flag says whether the character before was a digit. -/
def scanHex : ℕ → Bool → List Char → Option ℕ
  | value, digit, [] => if digit then some value else none
  | value, digit, c :: rest =>
      if c = '_' then if digit then scanHex value false rest else none
      else match hexDigit c with
        | none => none
        | some d => scanHex (value * 16 + d) true rest

/-- Leave out a plus sign. -/
def dropSign : List Char → List Char
  | '+' :: rest => rest
  | s => s

/-- Leave out a prefix `0x`, and an underscore after it. -/
def dropPrefix : List Char → List Char
  | '0' :: 'x' :: '_' :: rest | '0' :: 'X' :: '_' :: rest | '0' :: 'x' :: rest | '0' :: 'X' :: rest => rest
  | s => s

/-- `int(text, 16)`, for a text without a minus sign. -/
def readHex (s : List Char) : Option ℕ :=
  let s := (asAscii s).dropWhile isBlank
  let s := (s.reverse.dropWhile isBlank).reverse
  scanHex 0 false (dropPrefix (dropSign s))

/-- The characters that `uuid.UUID(text)` reads. -/
def significant (text : String) : List Char :=
  let hex := removeAll "uuid:".toList 0 (removeAll "urn:".toList 0 text.toList)
  (stripChars ['{', '}'] hex).filter (· ≠ '-')

/-- `uuid.UUID(text)`; `none` is a `ValueError`. -/
def parse (text : String) : Option ℕ :=
  if (significant text).length = 32 then readHex (significant text) else none

/-! ## Writing -/

/-- The last `k` hexadecimal digits of a number. -/
def hexDigits : ℕ → ℕ → List Char
  | 0, _ => []
  | k + 1, n => hexDigits k (n / 16) ++ [(n % 16).digitChar]

/-- The digits with their hyphens. -/
def hyphenated (hex : List Char) : List Char :=
  hex.take 8 ++ '-' :: ((hex.drop 8).take 4 ++ '-' :: ((hex.drop 12).take 4 ++ '-' ::
    ((hex.drop 16).take 4 ++ '-' :: hex.drop 20)))

/-- `str` of the identifier. -/
def text (n : ℕ) : String := String.ofList (hyphenated (hexDigits 32 n))

/-! ## Reading what was written -/

section
variable {s : List Char} {c : Char} {n : ℕ}

theorem removeAll_of_ne {a : Char} {sep : List Char} (h : ∀ c ∈ s, c ≠ a) : removeAll (a :: sep) 0 s = s := by
  induction s with
  | nil => rfl
  | cons c s ih =>
      obtain ⟨hc, hs⟩ := List.forall_mem_cons.mp h
      have hnot : ((a :: sep).isPrefixOf (c :: s)) = false := by
        rw [List.isPrefixOf, beq_eq_false_iff_ne.mpr hc.symm, Bool.false_and]
      rw [removeAll, if_neg (by simp [hnot]), ih hs]

theorem length_hexDigits (k n : ℕ) : (hexDigits k n).length = k := by
  induction k generalizing n with
  | zero => rfl
  | succ k ih => rw [hexDigits, List.length_append, ih, List.length_singleton]

theorem mem_hexDigits {k : ℕ} (h : c ∈ hexDigits k n) : ∃ d < 16, c = d.digitChar := by
  induction k generalizing n with
  | zero => cases h
  | succ k ih =>
      rcases List.mem_append.mp h with h | h
      · exact ih h
      · exact ⟨n % 16, Nat.mod_lt _ (by decide), List.mem_singleton.mp h⟩

/-- A digit that was written: it is read as its value, and it is no other character that reading looks at. -/
theorem hexDigit_digitChar : ∀ d < 16, hexDigit d.digitChar = some d ∧ d.digitChar ≠ '_' ∧ d.digitChar ≠ '-' ∧
    d.digitChar ≠ 'u' ∧ d.digitChar ≠ '+' ∧ d.digitChar ≠ 'x' ∧ d.digitChar ≠ 'X' ∧ d.digitChar ∉ ['{', '}'] ∧
    isBlank d.digitChar = false ∧ d.digitChar.toNat < 128 := by
  decide

/-- Reading some digits goes on after them with their value. -/
theorem scanHex_hexDigits (k n value : ℕ) (rest : List Char) (hk : 0 < k) :
    ∀ digit, scanHex value digit (hexDigits k n ++ rest) = scanHex (value * 16 ^ k + n % 16 ^ k) true rest := by
  induction k generalizing n rest with
  | zero => exact absurd hk (lt_irrefl _)
  | succ k ih =>
      intro digit
      obtain ⟨hdigit, hunder, -⟩ := hexDigit_digitChar (n % 16) (Nat.mod_lt _ (by decide))
      have hlast : ∀ value digit, scanHex value digit ((n % 16).digitChar :: rest) =
          scanHex (value * 16 + n % 16) true rest := by
        intro value digit
        rw [scanHex, if_neg hunder, hdigit]
      have hvalue : (value * 16 ^ k + n / 16 % 16 ^ k) * 16 + n % 16 = value * 16 ^ (k + 1) + n % 16 ^ (k + 1) := by
        rw [pow_succ', Nat.mod_mul]
        ring
      rw [hexDigits, List.append_assoc, List.singleton_append]
      cases k with
      | zero =>
          rw [hexDigits, List.nil_append, hlast]
          simp
      | succ k => rw [ih _ _ (Nat.succ_pos k), hlast, hvalue]

/-- Only the last digits are written. -/
theorem hexDigits_mod (k n : ℕ) : hexDigits k (n % 16 ^ k) = hexDigits k n := by
  induction k generalizing n with
  | zero => rfl
  | succ k ih =>
      rw [hexDigits, hexDigits, pow_succ', Nat.mod_mul_right_div_self, ih, Nat.mod_mul_right_mod]

theorem dropWhile_eq_self {p : Char → Bool} (h : ∀ c ∈ s, p c = false) : s.dropWhile p = s := by
  cases s with
  | nil => rfl
  | cons c s => exact List.dropWhile_cons_of_neg (by simp [h c List.mem_cons_self])

/-- Cutting at both ends what does not occur. -/
theorem dropWhile_both_eq_self {p : Char → Bool} (h : ∀ c ∈ s, p c = false) :
    ((s.dropWhile p).reverse.dropWhile p).reverse = s := by
  rw [dropWhile_eq_self h, dropWhile_eq_self fun c hc => h c (List.mem_reverse.mp hc), List.reverse_reverse]

/-- A text with neither a sign nor a prefix is read from its start. -/
theorem readHex_of_plain {c' : Char} {rest : List Char} (hascii : ∀ c ∈ s, c.toNat < 128)
    (hblank : ∀ c ∈ s, isBlank c = false) (hs : s = c :: c' :: rest) (hsign : c ≠ '+') (hx : c' ≠ 'x')
    (hX : c' ≠ 'X') : readHex s = scanHex 0 false s := by
  have hsame : asAscii s = s := if_pos (List.all_eq_true.mpr fun c hc => decide_eq_true (hascii c hc))
  have hnosign : dropSign s = s := by
    rw [hs]
    unfold dropSign
    split
    · next heq => exact absurd (List.cons.inj heq).1 hsign
    · rfl
  have hnoprefix : dropPrefix s = s := by
    rw [hs]
    unfold dropPrefix
    split
    · next heq => exact absurd (List.cons.inj (List.cons.inj heq).2).1 hx
    · next heq => exact absurd (List.cons.inj (List.cons.inj heq).2).1 hX
    · next heq => exact absurd (List.cons.inj (List.cons.inj heq).2).1 hx
    · next heq => exact absurd (List.cons.inj (List.cons.inj heq).2).1 hX
    · rfl
  unfold readHex
  dsimp only
  rw [hsame, dropWhile_both_eq_self hblank, hnosign, hnoprefix]

/-- The digits of an identifier: nothing is left out before they are read. -/
theorem readHex_hexDigits (n : ℕ) : readHex (hexDigits 32 n) = some (n % 16 ^ 32) := by
  have hdigits : ∀ c ∈ hexDigits 32 n, hexDigit c ≠ none ∧ c ≠ '+' ∧ c ≠ 'x' ∧ c ≠ 'X' ∧ isBlank c = false ∧
      c.toNat < 128 := by
    intro c hc
    obtain ⟨d, hd, rfl⟩ := mem_hexDigits hc
    obtain ⟨hvalue, -, -, -, hplus, hx, hX, -, hblank, hascii⟩ := hexDigit_digitChar d hd
    exact ⟨by simp [hvalue], hplus, hx, hX, hblank, hascii⟩
  obtain ⟨c, rest, hfirst⟩ := List.exists_cons_of_length_pos (l := hexDigits 32 n) (by simp [length_hexDigits])
  obtain ⟨c', rest', hsecond⟩ := List.exists_cons_of_length_pos (l := rest) (by
    have hlength := length_hexDigits 32 n
    rw [hfirst, List.length_cons] at hlength
    omega)
  have hlist : hexDigits 32 n = c :: c' :: rest' := hfirst.trans (congrArg _ hsecond)
  obtain ⟨-, hplus, -⟩ := hdigits c (by simp [hlist])
  obtain ⟨-, -, hx, hX, -⟩ := hdigits c' (by simp [hlist])
  rw [readHex_of_plain (fun c hc => (hdigits c hc).2.2.2.2.2) (fun c hc => (hdigits c hc).2.2.2.2.1) hlist hplus hx hX]
  have hscan := scanHex_hexDigits 32 n 0 [] (by decide) false
  rwa [List.append_nil, Nat.zero_mul, Nat.zero_add] at hscan

/-- The hyphens are left out again. -/
theorem filter_hyphenated (h : ∀ c ∈ s, c ≠ '-') : (hyphenated s).filter (· ≠ '-') = s := by
  have hkeep : ∀ {l : List Char}, l ⊆ s → l.filter (· ≠ '-') = l := by
    intro l hl
    exact List.filter_eq_self.mpr fun c hc => decide_eq_true (h c (hl hc))
  have hsplit (k j : ℕ) : (s.drop k).take j ++ s.drop (k + j) = s.drop k := by
    rw [← List.drop_drop, List.take_append_drop]
  have hdrop {k j : ℕ} : (s.drop k).take j ⊆ s := fun c hc => List.mem_of_mem_drop (List.mem_of_mem_take hc)
  have hskip (l : List Char) : ('-' :: l).filter (· ≠ '-') = l.filter (· ≠ '-') := List.filter_cons_of_neg (by simp)
  unfold hyphenated
  simp only [List.filter_append, hskip]
  rw [hkeep (List.take_subset _ _), hkeep hdrop, hkeep hdrop, hkeep hdrop, hkeep (List.drop_subset _ _),
    hsplit 16 4, hsplit 12 4, hsplit 8 4, List.take_append_drop]

/-- What is read of a text that was written. -/
theorem significant_text (n : ℕ) : significant (text n) = hexDigits 32 n := by
  have hdigits : ∀ c ∈ hexDigits 32 n, c ≠ '-' ∧ c ≠ 'u' ∧ c ∉ ['{', '}'] := by
    intro c hc
    obtain ⟨d, hd, rfl⟩ := mem_hexDigits hc
    obtain ⟨-, -, hhyphen, hu, -, -, -, hbrace, -⟩ := hexDigit_digitChar d hd
    exact ⟨hhyphen, hu, hbrace⟩
  unfold significant text
  generalize hexDigits 32 n = hex at hdigits ⊢
  have hchars : ∀ c ∈ hyphenated hex, c = '-' ∨ c ∈ hex := by
    intro c hc
    unfold hyphenated at hc
    simp only [List.mem_append, List.mem_cons] at hc
    rcases hc with h | h | h | h | h | h | h | h | h
    · exact .inr (List.mem_of_mem_take h)
    · exact .inl h
    · exact .inr (List.mem_of_mem_drop (List.mem_of_mem_take h))
    · exact .inl h
    · exact .inr (List.mem_of_mem_drop (List.mem_of_mem_take h))
    · exact .inl h
    · exact .inr (List.mem_of_mem_drop (List.mem_of_mem_take h))
    · exact .inl h
    · exact .inr (List.mem_of_mem_drop h)
  have hu : ∀ c ∈ hyphenated hex, c ≠ 'u' := by
    intro c hc
    rcases hchars c hc with rfl | h
    · decide
    · exact (hdigits c h).2.1
  have hbrace : ∀ c ∈ hyphenated hex, decide (c ∈ ['{', '}']) = false := by
    intro c hc
    rcases hchars c hc with rfl | h
    · decide
    · exact decide_eq_false (hdigits c h).2.2
  have hurn : removeAll "urn:".toList 0 (hyphenated hex) = hyphenated hex := removeAll_of_ne hu
  have huuid : removeAll "uuid:".toList 0 (hyphenated hex) = hyphenated hex := removeAll_of_ne hu
  have htext : (String.ofList (hyphenated hex)).toList = hyphenated hex := String.toList_ofList
  rw [htext, hurn, huuid]
  dsimp only
  unfold stripChars
  rw [dropWhile_both_eq_self hbrace]
  exact filter_hyphenated fun c hc => (hdigits c hc).1

/-- **An identifier is read back from its text.** -/
theorem parse_text (n : ℕ) : parse (text n) = some (n % 16 ^ 32) := by
  unfold parse
  rw [significant_text, if_pos (length_hexDigits 32 n), readHex_hexDigits]

/-- **A text is the one that is written for what is read from it** exactly if it was written. -/
theorem text_parse_iff {s : String} : (∃ n, parse s = some n ∧ text n = s) ↔ ∃ n, s = text n := by
  constructor
  · rintro ⟨n, -, rfl⟩
    exact ⟨n, rfl⟩
  · rintro ⟨n, rfl⟩
    refine ⟨n % 16 ^ 32, parse_text n, ?_⟩
    unfold text
    rw [hexDigits_mod]

end

end Uuid
