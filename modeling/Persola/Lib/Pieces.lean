import Persola.Lib.Quotation

/-!
# `Pieces` — where a character of a written value comes from

A value is written in pieces: texts outside quotations, and the quotations of its strings. So a mark that is not
used outside is found in a string of the value (`Pieces.mark`), with the text around it as it is written there.
Characters that are written as they are and that no escape is written with are `Bare`; of them what is written
in a quotation says exactly what the string says.
-/

namespace Json

variable {ν : Type*}

mutual

/-- The strings of a value, keys included, in the order they are written. -/
def strings : Json ν → List String
  | .str s => [s]
  | .arr items => stringsItems items
  | .obj fields => stringsFields fields
  | _ => []

/-- The strings of the items of an array. -/
def stringsItems : List (Json ν) → List String
  | [] => []
  | v :: items => strings v ++ stringsItems items

/-- The strings of the fields of an object. -/
def stringsFields : List (String × Json ν) → List String
  | [] => []
  | (k, v) :: fields => k :: (strings v ++ stringsFields fields)

end

/-- A text in pieces: outside, and the quotations of these strings. -/
inductive Pieces : List String → List Char → Prop
  | outside {t : List Char} (ht : ∀ c ∈ t, outsideChar c) : Pieces [] t
  | quote {t u : List Char} {k : String} {ks : List String} (ht : ∀ c ∈ t, outsideChar c) (hu : Pieces ks u) :
      Pieces (k :: ks) (t ++ (Json.quote k ++ u))

section
variable {s t : List Char} {k : String} {ks js : List String}

theorem Pieces.cons_outside (hs : ∀ c ∈ s, outsideChar c) (ht : Pieces ks t) : Pieces ks (s ++ t) := by
  cases ht with
  | outside ht => exact .outside fun c hc => (List.mem_append.mp hc).elim (hs c) (ht c)
  | quote ht hu =>
      rw [← List.append_assoc]
      exact .quote (fun c hc => (List.mem_append.mp hc).elim (hs c) (ht c)) hu

theorem Pieces.append (hs : Pieces ks s) (ht : Pieces js t) : Pieces (ks ++ js) (s ++ t) := by
  induction hs with
  | outside hs => exact ht.cons_outside hs
  | quote hs hu ih =>
      rw [List.append_assoc, List.append_assoc]
      exact .quote hs ih

theorem Pieces.single (k : String) : Pieces [k] (Json.quote k) := by
  rw [← List.append_nil (Json.quote k)]
  exact .quote (t := []) (fun c hc => absurd hc List.not_mem_nil) (.outside fun c hc => absurd hc List.not_mem_nil)

/-- **A value is written in pieces**, with its strings for the quotations. -/
theorem pieces_dumps [Numeral ν] (v : Json ν) : Pieces (strings v) (dumps v) := by
  induction v using rec_mem with
  | null => exact .outside (t := ['n', 'u', 'l', 'l']) (List.all_iff_forall_prop.mp (by decide))
  | bool b => cases b with
      | false => exact .outside (t := ['f', 'a', 'l', 's', 'e']) (List.all_iff_forall_prop.mp (by decide))
      | true => exact .outside (t := ['t', 'r', 'u', 'e']) (List.all_iff_forall_prop.mp (by decide))
  | number n =>
      refine .outside fun c hc => ?_
      show (numberChar c || _) = true
      rw [Numeral.numberChar_of_mem n c hc, Bool.true_or]
  | str s => exact .single s
  | arr items ih =>
      have hrest : ∀ items : List (Json ν), (∀ v ∈ items, Pieces (strings v) (dumps v)) →
          Pieces (stringsItems items) (dumpsItems items) := by
        intro items h
        induction items with
        | nil => exact .outside (t := [']']) (List.all_iff_forall_prop.mp (by decide))
        | cons v items ih =>
            obtain ⟨hv, hitems⟩ := List.forall_mem_cons.mp h
            exact .cons_outside (s := [',', ' ']) (List.all_iff_forall_prop.mp (by decide)) (hv.append (ih hitems))
      cases items with
      | nil => exact .outside (t := ['[', ']']) (List.all_iff_forall_prop.mp (by decide))
      | cons v items =>
          obtain ⟨hv, hitems⟩ := List.forall_mem_cons.mp ih
          exact .cons_outside (s := ['[']) (List.all_iff_forall_prop.mp (by decide)) (hv.append (hrest items hitems))
  | obj fields ih =>
      have hfield : ∀ f : String × Json ν, Pieces (strings f.2) (dumps f.2) →
          Pieces (f.1 :: strings f.2) (Json.quote f.1 ++ ([':', ' '] ++ dumps f.2)) := fun f hf =>
        (Pieces.single f.1).append (hf.cons_outside (s := [':', ' ']) (List.all_iff_forall_prop.mp (by decide)))
      have hrest : ∀ fields : List (String × Json ν), (∀ f ∈ fields, Pieces (strings f.2) (dumps f.2)) →
          Pieces (stringsFields fields) (dumpsFields fields) := by
        intro fields h
        induction fields with
        | nil => exact .outside (t := ['}']) (List.all_iff_forall_prop.mp (by decide))
        | cons f fields ih =>
            obtain ⟨hf, hfields⟩ := List.forall_mem_cons.mp h
            have htext : dumpsFields (f :: fields) =
                [',', ' '] ++ ((Json.quote f.1 ++ ([':', ' '] ++ dumps f.2)) ++ dumpsFields fields) := by
              simp [dumpsFields]
            rw [htext]
            exact .cons_outside (List.all_iff_forall_prop.mp (by decide)) ((hfield f hf).append (ih hfields))
      cases fields with
      | nil => exact .outside (t := ['{', '}']) (List.all_iff_forall_prop.mp (by decide))
      | cons f fields =>
          obtain ⟨hf, hfields⟩ := List.forall_mem_cons.mp ih
          have htext : dumps (.obj (f :: fields)) =
              ['{'] ++ ((Json.quote f.1 ++ ([':', ' '] ++ dumps f.2)) ++ dumpsFields fields) := by
            simp [dumps]
          rw [htext]
          exact .cons_outside (List.all_iff_forall_prop.mp (by decide)) ((hfield f hf).append (hrest fields hfields))

/-- The text of an object is between braces. -/
theorem dumps_obj [Numeral ν] (fields : List (String × Json ν)) :
    ∃ m, dumps (.obj fields) = '{' :: (m ++ ['}']) := by
  have hrest (fields : List (String × Json ν)) : ∃ m, dumpsFields fields = m ++ ['}'] := by
    induction fields with
    | nil => exact ⟨[], rfl⟩
    | cons f fields ih =>
        obtain ⟨m, hm⟩ := ih
        exact ⟨',' :: ' ' :: Json.quote f.1 ++ ':' :: ' ' :: dumps f.2 ++ m, by simp [dumpsFields, hm]⟩
  cases fields with
  | nil => exact ⟨[], rfl⟩
  | cons f fields =>
      obtain ⟨m, hm⟩ := hrest fields
      exact ⟨Json.quote f.1 ++ ':' :: ' ' :: dumps f.2 ++ m, by simp [dumps, hm]⟩

end

/-! ## Bare characters -/

/-- A character that is written as it is, and that no escape is written with. -/
structure Bare (b : Char) : Prop where
  self : escapeChar b = [b]
  alone : ∀ c, b ∈ escapeChar c → c = b

section
variable {b c : Char} {cs e f m : List Char}

/-- What is written for a character is printable. -/
theorem printable_of_mem_escapeChar (h : b ∈ escapeChar c) : 32 ≤ b.toNat ∧ b.toNat < 127 := by
  have hescaped := escaped_escapeChar c
  generalize escapeChar c = written at hescaped h
  cases hescaped with
  | plain hquote hslash hlow hhigh =>
      rw [List.mem_singleton.mp h]
      exact ⟨hlow, hhigh⟩
  | @letter e he hsmall =>
      rcases List.mem_cons.mp h with rfl | h
      · decide
      · rw [List.mem_singleton.mp h]
        unfold simpleEscape at he
        split at he
        · next hmark => rcases hmark with rfl | rfl | rfl <;> decide
        · split_ifs at he with h₁ h₂ h₃ h₄ h₅
          · rw [h₁]; decide
          · rw [h₂]; decide
          · rw [h₃]; decide
          · rw [h₄]; decide
          · rw [h₅]; decide
  | units =>
      obtain ⟨n, -, hn⟩ := List.mem_flatMap.mp h
      have hdigit : ∀ m < 16, 32 ≤ m.digitChar.toNat ∧ m.digitChar.toNat < 127 := by decide
      simp only [hex4, List.mem_cons, List.not_mem_nil, or_false] at hn
      rcases hn with rfl | rfl | rfl | rfl | rfl | rfl
      · decide
      · decide
      all_goals exact hdigit _ (Nat.mod_lt _ (by decide))

theorem bare_of (hquote : b ≠ '"') (hslash : b ≠ '\\') (hlow : 32 ≤ b.toNat) (hhigh : b.toNat < 127)
    (hu : b ≠ 'u') (hletter : simpleEscape b = none) (hdigit : hexDigit b = none) : Bare b := by
  refine ⟨?_, fun c h => ?_⟩
  · have hrest : ¬ (b = '"' ∨ b = '\\') := not_or.mpr ⟨hquote, hslash⟩
    have hne : ∀ c : Char, c.toNat < 32 → b ≠ c := by
      rintro c hc rfl
      exact absurd hlow hc.not_ge
    unfold escapeChar
    rw [if_neg hrest, if_neg (hne _ (by decide)), if_neg (hne _ (by decide)), if_neg (hne _ (by decide)),
      if_neg (by omega), if_neg (by omega), if_pos ⟨hlow, hhigh⟩]
  · have hescaped := escaped_escapeChar c
    generalize escapeChar c = written at hescaped h
    cases hescaped with
    | plain => exact (List.mem_singleton.mp h).symm
    | letter he hsmall =>
        rcases List.mem_cons.mp h with rfl | h
        · exact absurd rfl hslash
        · rw [← List.mem_singleton.mp h, hletter] at he
          cases he
    | units =>
        obtain ⟨n, -, hn⟩ := List.mem_flatMap.mp h
        have hno : ∀ m : ℕ, b ≠ (m % 16).digitChar := by
          rintro m rfl
          rw [hexDigit_digitChar _ (Nat.mod_lt _ (by decide))] at hdigit
          cases hdigit
        simp only [hex4, List.mem_cons, List.not_mem_nil, or_false] at hn
        rcases hn with h | h | h | h | h | h
        · exact absurd h hslash
        · exact absurd h hu
        all_goals exact absurd h (hno _)

theorem Bare.ne_quote (hb : Bare b) : b ≠ '"' := by
  rintro rfl
  exact absurd hb.self (by decide)

theorem escapeChar_ne_nil (c : Char) : escapeChar c ≠ [] := by
  have hescaped := escaped_escapeChar c
  generalize escapeChar c = written at hescaped
  cases hescaped with
  | plain => exact List.cons_ne_nil _ _
  | letter => exact List.cons_ne_nil _ _
  | units =>
      unfold units
      split
      · exact List.cons_ne_nil _ _
      · exact List.cons_ne_nil _ _

theorem eq_nil_of_escaped (h : cs.flatMap escapeChar = []) : cs = [] := by
  cases cs with
  | nil => rfl
  | cons c cs =>
      rw [List.flatMap_cons] at h
      exact absurd (List.append_eq_nil_iff.mp h).1 (escapeChar_ne_nil c)

/-- A bare character is written for itself. -/
theorem Bare.split (hb : Bare b) (h : cs.flatMap escapeChar = e ++ b :: f) :
    ∃ as bs, cs = as ++ b :: bs ∧ e = as.flatMap escapeChar ∧ f = bs.flatMap escapeChar := by
  induction cs generalizing e with
  | nil => exact absurd h.symm (List.append_ne_nil_of_right_ne_nil _ (List.cons_ne_nil _ _))
  | cons c cs ih =>
      have hbehind (e' : List Char) (he : e = escapeChar c ++ e') (h : cs.flatMap escapeChar = e' ++ b :: f) :
          ∃ as bs, c :: cs = as ++ b :: bs ∧ e = as.flatMap escapeChar ∧ f = bs.flatMap escapeChar := by
        obtain ⟨as, bs, rfl, rfl, rfl⟩ := ih h
        exact ⟨c :: as, bs, rfl, he, rfl⟩
      rw [List.flatMap_cons] at h
      rcases List.append_eq_append_iff.mp h with ⟨e', he, hcs⟩ | ⟨e', hc, hf⟩
      · exact hbehind e' he hcs
      · cases e' with
        | nil => exact hbehind [] (by simpa using hc.symm) hf.symm
        | cons d e' =>
            obtain ⟨rfl, rfl⟩ := List.cons.inj hf
            have hcb : c = b := hb.alone c (by simp [hc])
            rw [hcb, hb.self] at hc
            have he : e = [] := by
              cases e with
              | nil => rfl
              | cons d e => cases e <;> cases hc
            rw [he] at hc
            rw [he, hcb, (List.cons.inj hc).2.symm]
            exact ⟨[], cs, rfl, rfl, rfl⟩

theorem Bare.starts (hm : ∀ b ∈ m, Bare b) (h : cs.flatMap escapeChar = m ++ f) :
    ∃ bs, cs = m ++ bs ∧ f = bs.flatMap escapeChar := by
  induction m generalizing cs with
  | nil => exact ⟨cs, rfl, h.symm⟩
  | cons b m ih =>
      obtain ⟨hb, hm⟩ := List.forall_mem_cons.mp hm
      obtain ⟨as, bs, rfl, has, hbs⟩ := hb.split (e := []) h
      rw [eq_nil_of_escaped has.symm]
      obtain ⟨bs', rfl, hf⟩ := ih hm hbs.symm
      exact ⟨bs', rfl, hf⟩

theorem Bare.flatMap_escapeChar (hm : ∀ b ∈ m, Bare b) : m.flatMap escapeChar = m := by
  induction m with
  | nil => rfl
  | cons b m ih =>
      obtain ⟨hb, hm⟩ := List.forall_mem_cons.mp hm
      rw [List.flatMap_cons, hb.self, ih hm]
      rfl

end

/-! ## Marks -/

section
variable {P : Char → Prop} {b : Char} {s x y : List Char} {k : String} {ks : List String}

theorem outside_of_outsideChars (hs : ∀ c ∈ s, outsideChar c) : s.foldl Mode.read .outside = .outside := by
  induction s with
  | nil => rfl
  | cons c s ih =>
      obtain ⟨hc, hs⟩ := List.forall_mem_cons.mp hs
      have hread : Mode.outside.read c = .outside := if_neg (outsideChar_plain hc).1
      rw [List.foldl_cons, hread, ih hs]

/-- What is written for the characters of a string leaves a reader inside the quotation. -/
theorem inside_of_escaped (cs : List Char) : (cs.flatMap escapeChar).foldl Mode.read .inside = .inside :=
  (scanQuoted_eq_some (scanQuoted_quote cs [])).2

theorem outside_of_quote (k : String) : (Json.quote k).foldl Mode.read .outside = .outside := by
  show (k.toList.flatMap escapeChar ++ ['"']).foldl Mode.read .inside = _
  rw [List.foldl_append, inside_of_escaped]
  rfl

/-- **A bare mark that is not used outside comes from a string.** -/
theorem Pieces.mark (h : Pieces ks s) (hb : Bare b) (hhidden : outsideChar b = false)
    (hs : s = x ++ b :: y) :
    ∃ k ∈ ks, ∃ p as bs q, k.toList = as ++ b :: bs ∧ x = p ++ '"' :: as.flatMap escapeChar ∧
      y = bs.flatMap escapeChar ++ '"' :: q ∧ p.foldl Mode.read .outside = .outside := by
  have hquote := hb.ne_quote
  induction h generalizing x with
  | @outside t ht =>
      have hmem := ht b (by simp [hs])
      rw [hhidden] at hmem
      cases hmem
  | @quote t u k ks ht hu ih =>
      have htext : t ++ '"' :: (k.toList.flatMap escapeChar ++ '"' :: u) = x ++ b :: y := by
        simpa [Json.quote] using hs
      rcases List.append_eq_append_iff.mp htext with ⟨x', rfl, hx'⟩ | ⟨z, ht', hz⟩
      · -- behind what is outside, so behind its quotation mark
        rcases List.cons_eq_append_iff.mp hx' with ⟨-, heq⟩ | ⟨x'', rfl, hx''⟩
        · exact absurd (List.cons.inj heq).1 hquote
        rcases List.append_eq_append_iff.mp hx'' with ⟨z, rfl, hz⟩ | ⟨z, hk, hz⟩
        · -- behind the quotation
          rcases List.cons_eq_append_iff.mp hz with ⟨-, heq⟩ | ⟨z', rfl, hu'⟩
          · exact absurd (List.cons.inj heq).1 hquote
          obtain ⟨j, hj, p, as, bs, q, hsplit, rfl, hy, hp⟩ := ih hu'
          refine ⟨j, List.mem_cons_of_mem k hj, t ++ (Json.quote k ++ p), as, bs, q, hsplit, ?_, hy, ?_⟩
          · simp [Json.quote]
          · rw [List.foldl_append, List.foldl_append, outside_of_outsideChars ht, outside_of_quote, hp]
        · -- in the quotation
          rcases List.cons_eq_append_iff.mp hz with ⟨-, heq⟩ | ⟨z', rfl, hy⟩
          · exact absurd (List.cons.inj heq).1.symm hquote
          obtain ⟨as, bs, hsplit, rfl, rfl⟩ := hb.split hk
          exact ⟨k, List.mem_cons_self, t, as, bs, u, hsplit, rfl, hy, outside_of_outsideChars ht⟩
      · -- outside there is no mark
        rcases List.cons_eq_append_iff.mp hz with ⟨-, heq⟩ | ⟨z', rfl, -⟩
        · exact absurd (List.cons.inj heq).1.symm hquote
        have hmem := ht b (by simp [ht'])
        rw [hhidden] at hmem
        cases hmem

/-- There are no control characters in what is written. -/
theorem Pieces.low (h : Pieces ks s) : ∀ c ∈ s, 32 ≤ c.toNat := by
  induction h with
  | outside ht => exact fun c hc => (outsideChar_plain (ht c hc)).2.2
  | @quote t u k ks ht hu ih =>
      intro c hc
      simp only [Json.quote, List.mem_append, List.mem_cons, List.mem_flatMap, List.not_mem_nil, or_false,
        List.cons_append] at hc
      rcases hc with hc | rfl | (⟨d, -, hd⟩ | rfl) | hc
      · exact (outsideChar_plain (ht c hc)).2.2
      · decide
      · exact (printable_of_mem_escapeChar hd).1
      · decide
      · exact ih c hc

theorem Mark.pieces (hb : Mark P b) (h : Pieces ks s) : Frames P b false false s := by
  induction h with
  | outside ht => exact hb.outsideText ht
  | @quote t u k ks ht hu ih => exact (hb.outsideText ht).append ((hb.quoteText k).append ih)

/-- **A value is written with all marks inside quotations.** -/
theorem Mark.dumps [Numeral ν] (hb : Mark P b) (v : Json ν) : Frames P b false false (Json.dumps v) :=
  hb.pieces (pieces_dumps v)

/-- A string of the value stands somewhere in the text. -/
theorem Pieces.of_mem (h : Pieces ks s) (hk : k ∈ ks) : ∃ x y, s = x ++ (Json.quote k ++ y) := by
  induction h with
  | outside ht => cases hk
  | @quote t u j ks ht hu ih =>
      rcases List.mem_cons.mp hk with rfl | hk
      · exact ⟨t, u, rfl⟩
      · obtain ⟨x, y, rfl⟩ := ih hk
        exact ⟨t ++ (Json.quote j ++ x), y, by simp⟩

end

end Json
