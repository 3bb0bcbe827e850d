import Mathlib.Data.List.Infix

/-!
# `Utf8` — texts cut to a number of bytes

A list written in words of different lengths and cut after so many letters ends within a word at most: what is whole is
the longest prefix whose words fit (`take_flatMap`, `longest_cut`). Bytes of UTF-8 are decoded as far as they are
characters, everything else is ignored; of a text that was cut this leaves the characters that are whole
(`decodeIgnore_take`).
-/

/-! ## Lists written in words -/

section
variable {α β : Type*} {P : List α → Prop} {xs ys zs : List α}

/-- `ys` is the longest prefix of `xs` with `P`. -/
structure LongestPrefix (P : List α → Prop) (xs ys : List α) : Prop where
  isPrefix : ys <+: xs
  holds : P ys
  longest : ∀ zs, zs <+: xs → P zs → zs <+: ys

theorem LongestPrefix.unique (hys : LongestPrefix P xs ys) (hzs : LongestPrefix P xs zs) : ys = zs :=
  antisymm (hzs.longest ys hys.isPrefix hys.holds) (hys.longest zs hzs.isPrefix hzs.holds)

variable (word : α → List β) (n : ℕ)

/-- The prefix whose words fit in `n` letters. -/
def cut : ℕ → List α → List α
  | _, [] => []
  | n, x :: xs => if (word x).length ≤ n then x :: cut (n - (word x).length) xs else []

/-- **The words that fit are as many as possible.** -/
theorem longest_cut (xs : List α) :
    LongestPrefix (fun ys => (ys.flatMap word).length ≤ n) xs (cut word n xs) := by
  induction xs generalizing n with
  | nil => exact ⟨List.prefix_rfl, Nat.zero_le n, fun zs hzs _ => hzs⟩
  | cons x xs ih =>
      rw [cut]
      split
      · next hfits =>
          obtain ⟨hcut, hholds, hlongest⟩ := ih (n - (word x).length)
          refine ⟨(List.prefix_cons_inj x).mpr hcut, ?_, fun zs hzs hle => ?_⟩
          · rw [List.flatMap_cons, List.length_append]
            omega
          · cases zs with
            | nil => exact List.nil_prefix
            | cons z zs =>
                obtain ⟨rfl, htail⟩ := List.cons_prefix_cons.mp hzs
                rw [List.flatMap_cons, List.length_append] at hle
                exact (List.prefix_cons_inj z).mpr (hlongest zs htail (by omega))
      · next hfits =>
          refine ⟨List.nil_prefix, Nat.zero_le n, fun zs hzs hle => ?_⟩
          cases zs with
          | nil => exact List.prefix_rfl
          | cons z zs =>
              obtain ⟨rfl, -⟩ := List.cons_prefix_cons.mp hzs
              rw [List.flatMap_cons, List.length_append] at hle
              omega

/-- **Cut letters** are the words that fit, and a part of another word at most. -/
theorem take_flatMap (xs : List α) : ∃ rest, (xs.flatMap word).take n = (cut word n xs).flatMap word ++ rest ∧
    (rest = [] ∨ ∃ x, rest <+: word x ∧ rest.length < (word x).length) := by
  induction xs generalizing n with
  | nil => exact ⟨[], List.take_nil, .inl rfl⟩
  | cons x xs ih =>
      rw [cut, List.flatMap_cons, List.take_append]
      split
      · next hfits =>
          obtain ⟨rest, hrest, hpart⟩ := ih (n - (word x).length)
          refine ⟨rest, ?_, hpart⟩
          rw [hrest, List.take_of_length_le hfits, List.flatMap_cons, List.append_assoc]
      · next hfits =>
          have hlt : n < (word x).length := Nat.lt_of_not_le hfits
          refine ⟨(word x).take n, ?_, .inr ⟨x, List.take_prefix n _, ?_⟩⟩
          · rw [Nat.sub_eq_zero_of_le hlt.le, List.take_zero, List.append_nil]
            rfl
          · rw [List.length_take]
            omega

end

/-! ## UTF-8 -/

namespace Utf8

/-- `text.encode("utf-8")`. -/
def encode (cs : List Char) : List UInt8 := cs.flatMap String.utf8EncodeChar

/-- The character that starts here. -/
def decodeChar? (bytes : List UInt8) : Option Char := bytes.toByteArray.utf8DecodeChar? 0

/-- What is decoded behind so many bytes. -/
def decodeFrom : ℕ → List UInt8 → List Char
  | _, [] => []
  | skip + 1, _ :: bytes => decodeFrom skip bytes
  | 0, b :: bytes =>
      match decodeChar? (b :: bytes) with
      | some c => c :: decodeFrom (c.utf8Size - 1) bytes
      | none => decodeFrom 0 bytes

/-- `bytes.decode("utf-8", errors="ignore")`: what no character starts with is ignored, byte by byte. -/
def decodeIgnore (bytes : List UInt8) : List Char := decodeFrom 0 bytes

section
variable {bytes rest : List UInt8} {c d : Char} {cs : List Char}

theorem decodeChar?_append : decodeChar? (String.utf8EncodeChar c ++ rest) = some c := by
  unfold decodeChar?
  rw [List.toByteArray_append]
  exact ByteArray.utf8DecodeChar?_utf8EncodeChar_append

/-- A character that is decoded stands there. -/
theorem prefix_of_decodeChar? (h : decodeChar? bytes = some c) : String.utf8EncodeChar c <+: bytes := by
  have hbytes := congrArg (fun b => b.data.toList) (ByteArray.eq_of_utf8DecodeChar?_eq_some h)
  simp only [ByteArray.data_append, Array.toList_append, List.toList_data_toByteArray] at hbytes
  exact ⟨_, hbytes.symm⟩

/-- Where a character starts there is a first byte. -/
theorem isFirst_of_decodeChar? {b : UInt8} (h : decodeChar? (b :: bytes) = some c) : b.IsUTF8FirstByte := by
  obtain ⟨t, ht⟩ := prefix_of_decodeChar? h
  have hpos : 0 < (String.utf8EncodeChar c).length := List.length_pos_iff.mpr String.utf8EncodeChar_ne_nil
  have hfirst : (String.utf8EncodeChar c)[0].IsUTF8FirstByte := UInt8.isUTF8FirstByte_getElem_utf8EncodeChar.mpr rfl
  have hget : (b :: bytes)[0] = (String.utf8EncodeChar c)[0] := by
    simp only [← ht, List.getElem_append_left hpos]
  have hb : b = (String.utf8EncodeChar c)[0] := hget
  rw [hb]
  exact hfirst

/-- Bytes of which none is a first one are ignored. -/
theorem decodeFrom_of_not_first (h : ∀ b ∈ bytes, ¬ b.IsUTF8FirstByte) : decodeFrom 0 bytes = [] := by
  induction bytes with
  | nil => rfl
  | cons b bytes ih =>
      obtain ⟨hb, hbytes⟩ := List.forall_mem_cons.mp h
      rw [decodeFrom]
      cases hdecode : decodeChar? (b :: bytes) with
      | some c => exact absurd (isFirst_of_decodeChar? hdecode) hb
      | none => exact ih hbytes

/-- **A part of a character is ignored.** -/
theorem decodeIgnore_part (hpart : bytes <+: String.utf8EncodeChar c) (hlt : bytes.length < (String.utf8EncodeChar c).length) :
    decodeIgnore bytes = [] := by
  cases bytes with
  | nil => rfl
  | cons b bytes =>
      have hnone : decodeChar? (b :: bytes) = none := by
        rw [Option.eq_none_iff_forall_ne_some]
        intro d hd
        -- another character cannot be where this one is
        have hle := prefix_of_decodeChar? hd
        obtain ⟨t, ht⟩ := hle.trans hpart
        have hc : decodeChar? (String.utf8EncodeChar c) = some c := by
          rw [← List.append_nil (String.utf8EncodeChar c)]
          exact decodeChar?_append
        rw [← ht, decodeChar?_append] at hc
        obtain rfl := Option.some.inj hc
        exact absurd hle.length_le (Nat.not_le_of_lt hlt)
      unfold decodeIgnore
      rw [decodeFrom, hnone]
      refine decodeFrom_of_not_first fun d hd => ?_
      obtain ⟨i, hi, rfl⟩ := List.getElem_of_mem hd
      have hbyte : (String.utf8EncodeChar c)[i + 1]? = some bytes[i] := by
        obtain ⟨t, ht⟩ := hpart
        rw [← ht, List.getElem?_append_left (Nat.succ_lt_succ hi)]
        exact List.getElem?_eq_getElem hi
      obtain ⟨hi', hbyte⟩ := List.getElem?_eq_some_iff.mp hbyte
      rw [← hbyte, UInt8.isUTF8FirstByte_getElem_utf8EncodeChar]
      exact Nat.succ_ne_zero i

theorem decodeFrom_length (skipped : List UInt8) : decodeFrom skipped.length (skipped ++ bytes) = decodeFrom 0 bytes := by
  induction skipped with
  | nil => rfl
  | cons b skipped ih => exact ih

/-- A whole character is decoded. -/
theorem decodeIgnore_char : decodeIgnore (String.utf8EncodeChar c ++ bytes) = c :: decodeIgnore bytes := by
  have hdecode : decodeChar? (String.utf8EncodeChar c ++ bytes) = some c := decodeChar?_append
  have hlength := String.length_utf8EncodeChar c
  cases hword : String.utf8EncodeChar c with
  | nil => exact absurd hword String.utf8EncodeChar_ne_nil
  | cons b word =>
      rw [hword] at hdecode hlength
      unfold decodeIgnore
      rw [List.cons_append, decodeFrom, ← List.cons_append, hdecode]
      have hskip : c.utf8Size - 1 = word.length := by rw [← hlength, List.length_cons, Nat.add_sub_cancel]
      dsimp only
      rw [hskip, decodeFrom_length]

theorem decodeIgnore_encode_append : decodeIgnore (encode cs ++ bytes) = cs ++ decodeIgnore bytes := by
  induction cs with
  | nil => rfl
  | cons c cs ih =>
      show decodeIgnore ((String.utf8EncodeChar c ++ encode cs) ++ bytes) = _
      rw [List.append_assoc, decodeIgnore_char, ih]
      rfl

/-- **Decoding a text that was cut** leaves its whole characters. -/
theorem decodeIgnore_take (cs : List Char) (n : ℕ) :
    decodeIgnore ((encode cs).take n) = cut String.utf8EncodeChar n cs := by
  obtain ⟨rest, hrest, hpart⟩ := take_flatMap String.utf8EncodeChar n cs
  have hnone : decodeIgnore rest = [] := by
    rcases hpart with rfl | ⟨c, hstart, hlt⟩
    · rfl
    · exact decodeIgnore_part hstart hlt
  show decodeIgnore ((cs.flatMap String.utf8EncodeChar).take n) = _
  rw [hrest]
  exact decodeIgnore_encode_append.trans (by rw [hnone, List.append_nil])

/-- Five bytes end within the third character. -/
example : decodeIgnore ((encode ['a', 'é', '€', '€']).take 5) = ['a', 'é'] := by decide +kernel

end

end Utf8
