import Persola.Lib.Json

/-!
# `Literal` — the string literals of a Python source

A literal is found first and read afterwards. Between its marks a backslash takes the next character along; what the
two stand for is looked up when the literal is read, and if they stand for nothing both stay. A text that is put
between the marks of a literal as it is comes back exactly if it is `Verbatim`.

The literals are those that start with a double quotation mark, or with three, and have no prefix. The characters
that have names are a parameter.
-/

namespace Literal

open Json (hexDigit)

/-! ## Finding the end -/

/-- The lines of a source end with `\n`, however they ended before; the character before may be a `\r`. -/
def newlines : Bool → List Char → List Char
  | _, [] => []
  | afterReturn, c :: s =>
      if c = '\r' then '\n' :: newlines true s
      else if c = '\n' ∧ afterReturn then newlines false s
      else c :: newlines false s

/-- What follows the marks that close a literal, if they stand here. -/
def closing : Bool → List Char → Option (List Char)
  | false, '"' :: s => some s
  | true, '"' :: '"' :: '"' :: s => some s
  | _, _ => none

/-- One more character of a literal. -/
def keep (c : Char) (rest : Option (List Char × List Char)) : Option (List Char × List Char) :=
  rest.map fun (raw, r) => (c :: raw, r)

/-- A literal up to its end, escapes as they stand; the character before may be a backslash that takes the first one
    along. With three marks it may go over several lines. -/
def scan (long : Bool) : Bool → List Char → Option (List Char × List Char)
  | _, [] => none
  | true, c :: s => keep c (scan long false s)
  | false, c :: s =>
      match closing long (c :: s) with
      | some r => some ([], r)
      | none => if c = '\n' ∧ !long then none else keep c (scan long (c = '\\') s)

/-! ## Reading -/

/-- The characters that mean something after a backslash. -/
def escapes : List Char :=
  ['\n', '\\', '\'', '"', 'a', 'b', 'f', 'n', 'r', 't', 'v', '0', '1', '2', '3', '4', '5', '6', '7', 'x', 'u', 'U', 'N']

/-- A character by its code; a lone surrogate is no `Char` and is read as U+FFFD. -/
def character (n : ℕ) : Char := if n.isValidChar then Char.ofNat n else Char.ofNat 0xfffd

/-- The character of so many hexadecimal digits. -/
def hexEscape (digits : ℕ) (s : List Char) : Option (List Char × ℕ) :=
  let ds := s.take digits
  let n := ds.foldl (fun n d => 16 * n + (hexDigit d).getD 0) 0
  if ds.length = digits ∧ ds.all (fun d => (hexDigit d).isSome) ∧ n < 0x110000 then some ([character n], digits + 1)
  else none

/-- The character of a name in braces. -/
def namedEscape (names : List Char → Option Char) (s : List Char) : Option (List Char × ℕ) :=
  let name := (s.drop 1).takeWhile (· ≠ '}')
  if s.head? = some ('{') ∧ name.length + 2 ≤ s.length then
    (names name).map fun c => ([c], name.length + 3)
  else none

/-- What a backslash and this character stand for. -/
def simpleEscape : Char → Option (List Char)
  | '\n' => some []
  | '\\' => some ['\\']
  | '\'' => some ['\'']
  | '"' => some ['"']
  | 'a' => some [Char.ofNat 7]
  | 'b' => some [Char.ofNat 8]
  | 'f' => some [Char.ofNat 12]
  | 'n' => some ['\n']
  | 'r' => some ['\r']
  | 't' => some ['\t']
  | 'v' => some [Char.ofNat 11]
  | _ => none

/-- The character of up to three octal digits. -/
def octalEscape (s : List Char) : List Char × ℕ :=
  let octal := (s.take 3).takeWhile fun d => '0' ≤ d ∧ d ≤ '7'
  ([character ((octal.map fun d => d.toNat - 48).foldl (8 * · + ·) 0)], octal.length)

/-- What a backslash stands for before this text, and how much of the text belongs to it. -/
def escape (names : List Char → Option Char) : List Char → Option (List Char × ℕ)
  | [] => none
  | c :: s =>
      if c ∉ escapes then some (['\\'], 0)
      else
        match simpleEscape c with
        | some v => some (v, 1)
        | none =>
            if c = 'x' then hexEscape 2 s
            else if c = 'u' then hexEscape 4 s
            else if c = 'U' then hexEscape 8 s
            else if c = 'N' then namedEscape names s
            else some (octalEscape (c :: s))

/-- The text between the marks, read; the first characters may belong to an escape before them. -/
def unescape (names : List Char → Option Char) : ℕ → List Char → Option (List Char)
  | _, [] => some []
  | n + 1, _ :: s => unescape names n s
  | 0, c :: s =>
      if c = '\\' then
        match escape names s with
        | none => none
        | some (v, n) => (unescape names n s).map (v ++ ·)
      else (unescape names 0 s).map (c :: ·)

/-- The marks that open a literal: whether there are three, and what follows them. -/
def opening : List Char → Option (Bool × List Char)
  | '"' :: '"' :: '"' :: s => some (true, s)
  | '"' :: s => some (false, s)
  | _ => none

/-- The value of the literal that starts here, and what follows it. -/
def read (names : List Char → Option Char) (s : List Char) : Option (List Char × List Char) := do
  let (long, s) ← opening s
  let (raw, r) ← scan long false s
  let v ← unescape names 0 raw
  return (v, r)

example : read (fun _ => none) "\"a\\x41\\d\" + 1".toList = some ("aA\\d".toList, " + 1".toList) := by decide +kernel

/-! ## Texts without escapes -/

/-- No backslash means anything. -/
def NoEscape (s : List Char) : Prop := ∀ t, '\\' :: t <:+ s → ∃ c ∈ t.head?, c ∉ escapes

section
variable {names : List Char → Option Char} {s t v raw r : List Char} {c : Char} {n : ℕ} {long : Bool}

theorem NoEscape.tail (h : NoEscape (c :: s)) : NoEscape s := fun t ht => h t (ht.trans (List.suffix_cons c s))

theorem NoEscape.of_append (h : NoEscape (t ++ s)) : NoEscape s := fun u hu => h u (hu.trans (List.suffix_append t s))

theorem noEscape_cons (hc : c ≠ '\\') : NoEscape (c :: s) ↔ NoEscape s := by
  refine ⟨NoEscape.tail, fun h t ht => ?_⟩
  rcases List.suffix_cons_iff.mp ht with heq | ht
  · exact absurd (List.cons.inj heq).1.symm hc
  · exact h t ht

theorem noEscape_slash : NoEscape ('\\' :: s) ↔ (∃ c ∈ s.head?, c ∉ escapes) ∧ NoEscape s := by
  refine ⟨fun h => ⟨h s List.suffix_rfl, h.tail⟩, fun ⟨hs, h⟩ t ht => ?_⟩
  rcases List.suffix_cons_iff.mp ht with heq | ht
  · obtain ⟨-, rfl⟩ := List.cons.inj heq
    exact hs
  · exact h t ht

/-- **What has no escapes is read as it stands.** -/
theorem unescape_of_noEscape (h : NoEscape s) : unescape names 0 s = some s := by
  induction s with
  | nil => rfl
  | cons c s ih =>
      by_cases hc : c = '\\'
      · subst hc
        obtain ⟨⟨d, hd, hnone⟩, hs⟩ := noEscape_slash.mp h
        obtain ⟨u, rfl⟩ := List.head?_eq_some_iff.mp hd
        have hescape : escape names (d :: u) = some (['\\'], 0) := if_pos hnone
        rw [unescape, if_pos rfl, hescape]
        show (unescape names 0 (d :: u)).map _ = _
        rw [ih hs]
        rfl
      · rw [unescape, if_neg hc, ih h.tail]
        rfl

theorem hexEscape_length {digits : ℕ} (h : hexEscape digits s = some (v, n)) :
    v.length = 1 ∧ 1 ≤ n ∧ n ≤ s.length + 1 := by
  unfold hexEscape at h
  dsimp only at h
  split at h
  · next hdigits =>
      obtain ⟨rfl, rfl⟩ := Prod.mk.inj (Option.some.inj h)
      have hlength := hdigits.1
      rw [List.length_take] at hlength
      exact ⟨rfl, by omega, by omega⟩
  · cases h

theorem namedEscape_length (h : namedEscape names s = some (v, n)) : v.length = 1 ∧ 1 ≤ n ∧ n ≤ s.length + 1 := by
  unfold namedEscape at h
  dsimp only at h
  split at h
  · next hname =>
      obtain ⟨d, -, heq⟩ := Option.map_eq_some_iff.mp h
      obtain ⟨rfl, rfl⟩ := Prod.mk.inj heq
      exact ⟨rfl, by omega, by omega⟩
  · cases h

/-- An escape is longer than what it stands for. -/
theorem escape_length (h : escape names s = some (v, n)) :
    (∃ c ∈ s.head?, c ∉ escapes) ∧ v = ['\\'] ∧ n = 0 ∨ v.length ≤ n ∧ n ≤ s.length := by
  cases s with
  | nil => cases h
  | cons c s =>
      rw [escape] at h
      split at h
      · next hnone =>
          obtain ⟨rfl, rfl⟩ := Prod.mk.inj (Option.some.inj h)
          exact .inl ⟨⟨c, rfl, hnone⟩, rfl, rfl⟩
      · next hescape =>
          right
          split at h
          · next w hw =>
              obtain ⟨rfl, rfl⟩ := Prod.mk.inj (Option.some.inj h)
              have hone : ∀ c w, simpleEscape c = some w → w.length ≤ 1 := by
                intro c w hw
                unfold simpleEscape at hw
                split at hw <;> cases hw <;> decide
              exact ⟨hone c w hw, by simp⟩
          · next hsimple =>
              have hcode {n} (hone : v.length = 1 ∧ 1 ≤ n ∧ n ≤ s.length + 1) : v.length ≤ n ∧ n ≤ (c :: s).length :=
                ⟨hone.1.le.trans hone.2.1, hone.2.2⟩
              split at h
              · exact hcode (hexEscape_length h)
              split at h
              · exact hcode (hexEscape_length h)
              split at h
              · exact hcode (hexEscape_length h)
              split at h
              · exact hcode (namedEscape_length h)
              · next hx hu hU hN =>
                  obtain ⟨rfl, rfl⟩ := Prod.mk.inj (Option.some.inj h)
                  have hdigit : ∀ c ∈ escapes, simpleEscape c = none → c ≠ 'x' → c ≠ 'u' → c ≠ 'U' → c ≠ 'N' →
                      decide ('0' ≤ c ∧ c ≤ '7') = true := by decide
                  have hlength := (List.takeWhile_sublist (l := (c :: s).take 3)
                    fun d => decide ('0' ≤ d ∧ d ≤ '7')).length_le
                  refine ⟨?_, hlength.trans (List.length_take_le' _ _)⟩
                  rw [List.take_succ_cons, List.takeWhile_cons, hdigit c (not_not.mp hescape) hsimple hx hu hU hN]
                  exact Nat.succ_le_succ (Nat.zero_le _)

/-- What is read is no longer than what stands there. -/
theorem unescape_length (h : unescape names n s = some v) : v.length ≤ s.length - n := by
  induction s generalizing n v with
  | nil =>
      rw [unescape] at h
      obtain rfl := Option.some.inj h
      exact Nat.zero_le _
  | cons c s ih =>
      cases n with
      | succ n =>
          rw [unescape] at h
          rw [List.length_cons, Nat.add_sub_add_right]
          exact ih h
      | zero =>
          rw [unescape] at h
          split at h
          · split at h
            · cases h
            · next w n hescape =>
                obtain ⟨v', hv', rfl⟩ := Option.map_eq_some_iff.mp h
                have hv' := ih hv'
                rw [List.length_append, List.length_cons]
                rcases escape_length hescape with ⟨-, rfl, rfl⟩ | hlength
                · rw [List.length_singleton]
                  omega
                · omega
          · obtain ⟨v', hv', rfl⟩ := Option.map_eq_some_iff.mp h
            exact Nat.succ_le_succ (ih hv')

/-- What is read is shorter if there is an escape. -/
theorem noEscape_of_length (h : unescape names 0 s = some v) (hlength : v.length = s.length) : NoEscape s := by
  induction s generalizing v with
  | nil =>
      intro t ht
      exact absurd (List.suffix_nil.mp ht) (List.cons_ne_nil _ _)
  | cons c s ih =>
      rw [unescape] at h
      split at h
      · next hslash =>
          subst hslash
          split at h
          · cases h
          · next w n hescape =>
              obtain ⟨v', hv', rfl⟩ := Option.map_eq_some_iff.mp h
              have hshort := unescape_length hv'
              rw [List.length_append, List.length_cons] at hlength
              rcases escape_length hescape with ⟨hnone, rfl, rfl⟩ | hlong
              · rw [List.length_singleton] at hlength
                exact noEscape_slash.mpr ⟨hnone, ih hv' (by omega)⟩
              · omega
      · next hslash =>
          obtain ⟨v', hv', rfl⟩ := Option.map_eq_some_iff.mp h
          exact (noEscape_cons hslash).mpr (ih hv' (Nat.succ.inj hlength))

/-! ## The end of a literal -/

theorem keep_eq_some {rest : Option (List Char × List Char)} (h : keep c rest = some (raw, r)) :
    ∃ raw', raw = c :: raw' ∧ rest = some (raw', r) := by
  obtain ⟨⟨raw', r'⟩, hrest, heq⟩ := Option.map_eq_some_iff.mp h
  obtain ⟨rfl, rfl⟩ := Prod.mk.inj heq
  exact ⟨raw', rfl, hrest⟩

theorem scan_open : scan long false (c :: s) =
    match closing long (c :: s) with
    | some r => some ([], r)
    | none => if c = '\n' ∧ !long then none else keep c (scan long (c = '\\') s) := rfl

theorem closing_of_ne (hquote : c ≠ '"') : closing long (c :: s) = none := by
  unfold closing
  split
  · next heq => exact absurd (List.cons.inj heq).1 hquote
  · next heq => exact absurd (List.cons.inj heq).1 hquote
  · rfl

/-- A literal ends in the text, or what follows the text belongs to it. -/
theorem scan_append {escaped : Bool} (h : scan long escaped (t ++ s) = some (raw, r)) :
    raw <+: t ∨ (∃ d raw', scan long false s = some (d :: raw', r)) ∨ ∃ raw', scan long true s = some (raw', r) := by
  induction t generalizing escaped raw with
  | nil =>
      cases escaped with
      | true => exact .inr (.inr ⟨raw, h⟩)
      | false =>
          cases raw with
          | nil => exact .inl List.nil_prefix
          | cons d raw => exact .inr (.inl ⟨d, raw, h⟩)
  | cons c t ih =>
      cases escaped with
      | true =>
          obtain ⟨raw', rfl, hrest⟩ := keep_eq_some h
          exact (ih hrest).imp (List.prefix_cons_inj _).mpr id
      | false =>
          rw [List.cons_append, scan_open] at h
          split at h
          · obtain ⟨rfl, rfl⟩ := Prod.mk.inj (Option.some.inj h)
            exact .inl List.nil_prefix
          · split at h
            · cases h
            · obtain ⟨raw', rfl, hrest⟩ := keep_eq_some h
              exact (ih hrest).imp (List.prefix_cons_inj _).mpr id

/-- A text that can stand between the marks of a literal as it is. -/
structure Verbatim (s : List Char) : Prop where
  noEscape : NoEscape s
  marks : ∀ c ∈ s, c ≠ '"' ∧ c ≠ '\n'

/-- The marks after such a text close the literal. -/
theorem scan_of_verbatim {escaped : Bool} (h : Verbatim s) (hempty : escaped = true → s ≠ []) :
    scan false escaped (s ++ '"' :: r) = some (s, r) := by
  obtain ⟨hescape, hmarks⟩ := h
  induction s generalizing escaped with
  | nil =>
      cases escaped with
      | true => exact absurd rfl (hempty rfl)
      | false => rfl
  | cons c s ih =>
      obtain ⟨⟨hquote, hline⟩, hmarks⟩ := List.forall_mem_cons.mp hmarks
      cases escaped with
      | true =>
          show keep c (scan false false (s ++ '"' :: r)) = _
          rw [@ih false (by simp) hescape.tail hmarks]
          rfl
      | false =>
          rw [List.cons_append, scan_open, closing_of_ne hquote]
          dsimp only
          rw [if_neg fun hc => hline hc.1, ih ?_ hescape.tail hmarks]
          · rfl
          · intro hslash hnil
            rw [of_decide_eq_true hslash, hnil] at hescape
            obtain ⟨⟨d, hd, -⟩, -⟩ := noEscape_slash.mp hescape
            cases hd

/-- What is found on one line and has no escapes has no marks. -/
theorem marks_of_scan {escaped : Bool} (h : scan false escaped s = some (raw, r)) (hraw : NoEscape raw)
    (hhead : escaped = true → ∃ c ∈ raw.head?, c ∉ escapes) : ∀ c ∈ raw, c ≠ '"' ∧ c ≠ '\n' := by
  induction s generalizing escaped raw with
  | nil => cases escaped <;> cases h
  | cons c s ih =>
      cases escaped with
      | true =>
          obtain ⟨raw', rfl, hrest⟩ := keep_eq_some h
          obtain ⟨d, hd, hnone⟩ := hhead rfl
          obtain rfl := Option.some.inj hd
          refine List.forall_mem_cons.mpr ⟨⟨?_, ?_⟩, ih hrest hraw.tail nofun⟩
          · rintro rfl
            exact hnone (by decide)
          · rintro rfl
            exact hnone (by decide)
      | false =>
          rw [scan_open] at h
          split at h
          · obtain ⟨rfl, rfl⟩ := Prod.mk.inj (Option.some.inj h)
            exact fun c hc => absurd hc List.not_mem_nil
          · next hclosing =>
              split at h
              · cases h
              · next hline =>
                  obtain ⟨raw', rfl, hrest⟩ := keep_eq_some h
                  refine List.forall_mem_cons.mpr ⟨⟨?_, fun hc => hline ⟨hc, rfl⟩⟩, ih hrest hraw.tail ?_⟩
                  · rintro rfl
                    cases hclosing
                  · intro hslash
                    rw [of_decide_eq_true hslash] at hraw
                    exact (noEscape_slash.mp hraw).1

/-! ## What is read back -/

/-- Nothing that follows a text and the mark after it could close the literal later. -/
structure Closes (q : List Char) : Prop where
  after : scan false false q = none
  long : scan true false ('"' :: q) = none
  longAfter : scan true false q = none
  single : q.head? ≠ some '"'

/-- **What is read is a part of the text, or the text**, and then it is verbatim. -/
theorem read_length {q : List Char} (hq : Closes q) (h : read names ('"' :: (s ++ '"' :: q)) = some (v, r)) :
    v.length < s.length ∨ v = s ∧ Verbatim s := by
  obtain ⟨⟨long, body⟩, hopening, h⟩ := Option.bind_eq_some_iff.mp h
  obtain ⟨⟨raw, r'⟩, hscan, h⟩ := Option.bind_eq_some_iff.mp h
  obtain ⟨v', hv', h⟩ := Option.bind_eq_some_iff.mp h
  obtain ⟨rfl, rfl⟩ := Prod.mk.inj (Option.some.inj h)
  have hshort := unescape_length hv'
  cases long with
  | false =>
      obtain rfl : s ++ '"' :: q = body := by
        unfold opening at hopening
        split at hopening
        · cases hopening
        · next heq =>
            obtain ⟨-, rfl⟩ := Prod.mk.inj (Option.some.inj hopening)
            exact (List.cons.inj heq).2
        · cases hopening
      rcases scan_append hscan with hprefix | ⟨d, raw', hmark⟩ | ⟨raw', hmark⟩
      · have hle := hprefix.length_le
        rcases (hshort.trans hle).lt_or_eq with hlt | heq
        · exact .inl hlt
        · obtain rfl := hprefix.eq_of_length (by omega)
          have hescape := noEscape_of_length hv' heq
          rw [unescape_of_noEscape hescape] at hv'
          exact .inr ⟨(Option.some.inj hv').symm, hescape, marks_of_scan hscan hescape nofun⟩
      · have hempty : scan false false ('"' :: q) = some ([], q) := rfl
        cases hempty.symm.trans hmark
      · obtain ⟨raw'', -, hrest⟩ := keep_eq_some hmark
        rw [hq.after] at hrest
        cases hrest
  | true =>
      have hbody : s ++ '"' :: q = '"' :: '"' :: body := by
        unfold opening at hopening
        split at hopening
        · next heq =>
            obtain ⟨-, rfl⟩ := Prod.mk.inj (Option.some.inj hopening)
            exact (List.cons.inj heq).2
        · cases hopening
        · cases hopening
      match s, hbody with
      | [], hbody =>
          obtain ⟨-, rfl⟩ := List.cons.inj hbody
          exact absurd rfl hq.single
      | [c], hbody =>
          obtain ⟨-, hbody⟩ := List.cons.inj hbody
          obtain ⟨-, rfl⟩ := List.cons.inj hbody
          rw [hq.longAfter] at hscan
          cases hscan
      | c :: d :: s, hbody =>
          obtain ⟨-, hbody⟩ := List.cons.inj hbody
          obtain ⟨-, rfl⟩ := List.cons.inj hbody
          rcases scan_append hscan with hprefix | ⟨d, raw', hmark⟩ | ⟨raw', hmark⟩
          · have hle := hprefix.length_le
            exact .inl (by simp only [List.length_cons]; omega)
          · rw [hq.long] at hmark
            cases hmark
          · obtain ⟨raw'', -, hrest⟩ := keep_eq_some hmark
            rw [hq.longAfter] at hrest
            cases hrest

/-- **A verbatim text is read back.** -/
theorem read_of_verbatim {q : List Char} (hq : Closes q) (h : Verbatim s) :
    read names ('"' :: (s ++ '"' :: q)) = some (s, q) := by
  have hopening : opening ('"' :: (s ++ '"' :: q)) = some (false, s ++ '"' :: q) := by
    unfold opening
    split
    · next heq =>
        obtain ⟨-, heq⟩ := List.cons.inj heq
        cases s with
        | nil =>
            obtain ⟨-, rfl⟩ := List.cons.inj heq
            exact absurd rfl hq.single
        | cons c s => exact absurd (List.cons.inj heq).1 (h.marks c List.mem_cons_self).1
    · next heq =>
        obtain ⟨-, rfl⟩ := List.cons.inj heq
        rfl
    · next hnone => exact absurd rfl (hnone _)
  unfold read
  rw [hopening]
  show (scan false false (s ++ '"' :: q)).bind _ = _
  rw [scan_of_verbatim h (by simp)]
  show (unescape names 0 s).bind _ = _
  rw [unescape_of_noEscape h.noEscape]
  rfl

/-! ## Lines -/

theorem newlines_length (b : Bool) (s : List Char) : (newlines b s).length ≤ s.length := by
  induction s generalizing b with
  | nil => exact le_rfl
  | cons c s ih =>
      rw [newlines]
      split
      · exact Nat.succ_le_succ (ih true)
      · split
        · exact (ih false).trans (Nat.le_succ _)
        · exact Nat.succ_le_succ (ih false)

theorem not_mem_newlines (b : Bool) (s : List Char) : '\r' ∉ newlines b s := by
  induction s generalizing b with
  | nil => exact List.not_mem_nil
  | cons c s ih =>
      rw [newlines]
      split
      · exact List.not_mem_cons_of_ne_of_not_mem (by decide) (ih true)
      · next hc =>
          split
          · exact ih false
          · exact List.not_mem_cons_of_ne_of_not_mem (Ne.symm hc) (ih false)

theorem newlines_eq_self (h : '\r' ∉ s) : newlines false s = s := by
  induction s with
  | nil => rfl
  | cons c s ih =>
      rw [List.mem_cons, not_or] at h
      rw [newlines, if_neg (Ne.symm h.1), if_neg (by simp), ih h.2]

/-- A character that ends no line separates what is before it from what is after it. -/
theorem newlines_append (hreturn : c ≠ '\r') (hline : c ≠ '\n') (b : Bool) (s t : List Char) :
    newlines b (s ++ c :: t) = newlines b s ++ c :: newlines false t := by
  induction s generalizing b with
  | nil =>
      show newlines b (c :: t) = c :: newlines false t
      rw [newlines, if_neg hreturn, if_neg fun h => hline h.1]
  | cons d s ih =>
      rw [List.cons_append, newlines, newlines]
      split
      · rw [ih, List.cons_append]
      · split
        · exact ih false
        · rw [ih, List.cons_append]

end

end Literal
