import Persola.Lib.Quotation

/-!
# `Splice` — a text put between the quotation marks of a JSON text

What is put there unescaped is read back exactly if it is plain: no quotation mark, no backslash and no control
character. The rest of the text has no backslashes, and the mark that is to close the quotation is followed by a
comma and another mark.
-/

namespace Json

/-- A text that can stand in a quotation as it is. -/
def Plain (t : List Char) : Prop := ∀ c ∈ t, c ≠ '"' ∧ c ≠ '\\' ∧ 32 ≤ c.toNat

instance (t : List Char) : Decidable (Plain t) := List.decidableBAll _ t

section
variable {t raw r s : List Char} {ns : List ℕ} {k : String} {c : Char}

theorem scanQuoted_of_plain (ht : Plain t) : scanQuoted (t ++ '"' :: r) = some (t, r) := by
  induction t with
  | nil => rfl
  | cons c t ih =>
      obtain ⟨⟨hquote, hslash, hlow⟩, ht⟩ := List.forall_mem_cons.mp ht
      rw [List.cons_append, scanQuoted_plain hquote hslash hlow, ih ht]
      rfl

theorem joinSurrogates_map (t : List Char) : joinSurrogates (t.map Char.toNat) = t := by
  induction t with
  | nil => rfl
  | cons c t ih => rw [List.map_cons, joinSurrogates_toNat, ih]

/-- **A plain text is read back.** -/
theorem scanString_of_plain (ht : Plain t) : scanString (t ++ '"' :: r) = some (String.ofList t, r) := by
  unfold scanString
  rw [scanQuoted_of_plain ht]
  show (codes t).bind _ = _
  rw [codes_of_no_slash fun c hc => (ht c hc).2.1, Option.bind_some, joinSurrogates_map]
  rfl

/-! ## How long a quotation is -/

/-- What ends an escape. -/
def endsEscape (c : Char) : Bool := (simpleEscape c).isSome || (hexDigit c).isSome

/-- An escape, and what follows it. -/
theorem codes_slash (h : codes ('\\' :: s) = some ns) : ∃ w e u n ms, s = w ++ e :: u ∧ endsEscape e ∧
    codes u = some ms ∧ ns = n :: ms := by
  rw [codes.eq_def] at h
  split at h
  · next heq => cases heq
  · cases h
  · next a b c d u heq =>
      obtain ⟨-, rfl⟩ := List.cons.inj heq
      obtain ⟨na, ha, h⟩ := Option.bind_eq_some_iff.mp h
      obtain ⟨nb, hb, h⟩ := Option.bind_eq_some_iff.mp h
      obtain ⟨nc, hc, h⟩ := Option.bind_eq_some_iff.mp h
      obtain ⟨nd, hd, h⟩ := Option.bind_eq_some_iff.mp h
      obtain ⟨ms, hms, h⟩ := Option.bind_eq_some_iff.mp h
      exact ⟨['u', a, b, c], d, u, _, ms, rfl, by simp [endsEscape, hd], hms, (Option.some.inj h).symm⟩
  · next e u _ heq =>
      obtain ⟨-, rfl⟩ := List.cons.inj heq
      obtain ⟨n, hn, h⟩ := Option.bind_eq_some_iff.mp h
      obtain ⟨ms, hms, h⟩ := Option.bind_eq_some_iff.mp h
      exact ⟨[], e, u, n, ms, rfl, by simp [endsEscape, hn], hms, (Option.some.inj h).symm⟩
  · next hone _ hslash heq =>
      obtain ⟨rfl, rfl⟩ := List.cons.inj heq
      cases s with
      | nil => exact (hone rfl rfl).elim
      | cons e u => exact (hslash e u rfl rfl).elim

/-- One code for each character or escape. -/
theorem codes_length (h : codes raw = some ns) : ns.length ≤ raw.length ∧ ('\\' ∈ raw → ns.length < raw.length) := by
  induction hn : raw.length using Nat.strong_induction_on generalizing raw ns with
  | _ n ih =>
      subst hn
      cases raw with
      | nil =>
          obtain rfl := Option.some.inj h
          exact ⟨le_rfl, fun hmem => absurd hmem List.not_mem_nil⟩
      | cons c raw =>
          by_cases hslash : c = '\\'
          · subst hslash
            obtain ⟨w, e, u, m, ms, rfl, -, hu, rfl⟩ := codes_slash h
            have hlength := (ih u.length (by simp; omega) hu rfl).1
            simp only [List.length_cons, List.length_append]
            exact ⟨by omega, fun _ => by omega⟩
          · rw [codes_plain hslash] at h
            obtain ⟨ms, hms, rfl⟩ := Option.map_eq_some_iff.mp h
            obtain ⟨hle, hlt⟩ := ih raw.length (Nat.lt_succ_self _) hms rfl
            simp only [List.length_cons]
            refine ⟨Nat.succ_le_succ hle, fun hmem => Nat.succ_lt_succ (hlt ?_)⟩
            exact (List.mem_cons.mp hmem).resolve_left (Ne.symm hslash)

/-- What cannot end an escape is the last character. -/
theorem codes_concat (hc : endsEscape c = false) (hslash : c ≠ '\\') (h : codes (raw ++ [c]) = some ns) :
    ∃ ms, ns = ms ++ [c.toNat] := by
  induction hn : raw.length using Nat.strong_induction_on generalizing raw ns with
  | _ n ih =>
      subst hn
      cases raw with
      | nil =>
          rw [List.nil_append, codes_plain hslash] at h
          exact ⟨[], (Option.some.inj h).symm⟩
      | cons d raw =>
          by_cases hd : d = '\\'
          · subst hd
            obtain ⟨w, e, u, m, ms, heq, he, hu, rfl⟩ := codes_slash h
            have hlast : (raw ++ [c]).getLast? = (w ++ e :: u).getLast? := congrArg List.getLast? heq
            rcases List.eq_nil_or_concat u with rfl | ⟨u', c', rfl⟩
            · rw [List.getLast?_concat, List.getLast?_concat] at hlast
              rw [← Option.some.inj hlast, hc] at he
              cases he
            · rw [List.concat_eq_append] at *
              have hsplit : w ++ e :: (u' ++ [c']) = (w ++ e :: u') ++ [c'] := by simp
              rw [hsplit, List.getLast?_concat, List.getLast?_concat] at hlast
              obtain rfl := Option.some.inj hlast
              rw [hsplit] at heq
              have hraw := List.append_cancel_right heq
              obtain ⟨ms', rfl⟩ := ih u'.length (by simp [hraw]; omega) hu rfl
              exact ⟨m :: ms', rfl⟩
          · rw [List.cons_append, codes_plain hd] at h
            obtain ⟨ms, hms, rfl⟩ := Option.map_eq_some_iff.mp h
            obtain ⟨ms', rfl⟩ := ih raw.length (Nat.lt_succ_self _) hms rfl
            exact ⟨d.toNat :: ms', rfl⟩

theorem joinSurrogates_length (ns : List ℕ) : (joinSurrogates ns).length ≤ ns.length := by
  induction ns using joinSurrogates.induct with
  | case1 => exact le_rfl
  | case2 n => exact le_rfl
  | case3 n m ns h ih =>
      rw [joinSurrogates, if_pos h, List.length_cons, List.length_cons, List.length_cons]
      omega
  | case4 n m ns h ih =>
      rw [joinSurrogates, if_neg h, List.length_cons, List.length_cons]
      exact Nat.succ_le_succ ih

/-- Without backslashes what is read is plain. -/
theorem plain_of_scanQuoted (h : scanQuoted s = some (raw, r)) (hraw : ∀ c ∈ raw, c ≠ '\\') : Plain raw := by
  induction s using scanQuoted.induct generalizing raw with
  | case1 => cases h
  | case2 s =>
      obtain ⟨rfl, rfl⟩ := Prod.mk.inj (Option.some.inj h)
      exact fun c hc => absurd hc List.not_mem_nil
  | case3 => cases h
  | case4 c s ih =>
      obtain ⟨⟨raw', r'⟩, -, heq⟩ := Option.map_eq_some_iff.mp h
      obtain ⟨rfl, rfl⟩ := Prod.mk.inj heq
      exact absurd rfl (hraw _ List.mem_cons_self)
  | case5 c s hquote hlast hslash hlow =>
      rw [scanQuoted.eq_5 c s hquote hlast hslash, if_pos hlow] at h
      cases h
  | case6 c s hquote hlast hslash hlow ih =>
      rw [scanQuoted.eq_5 c s hquote hlast hslash, if_neg hlow] at h
      obtain ⟨⟨raw', r'⟩, hscan, heq⟩ := Option.map_eq_some_iff.mp h
      obtain ⟨rfl, rfl⟩ := Prod.mk.inj heq
      obtain ⟨hc, hraw⟩ := List.forall_mem_cons.mp hraw
      exact List.forall_mem_cons.mpr ⟨⟨hquote, hc, not_lt.mp hlow⟩, ih hscan hraw⟩

/-- What a quotation without backslashes says. -/
theorem scanString_of_no_slash (h : scanString s = some (k, r))
    (hs : ∀ raw, scanQuoted s = some (raw, r) → ∀ c ∈ raw, c ≠ '\\') : Plain k.toList := by
  obtain ⟨raw, ns, hscan, hcodes, rfl⟩ := scanString_eq_some h
  have hraw := hs raw hscan
  rw [codes_of_no_slash hraw] at hcodes
  rw [← Option.some.inj hcodes, joinSurrogates_map, String.toList_ofList]
  exact plain_of_scanQuoted hscan hraw

/-- What a quotation says is as long as the quotation only if it is plain. -/
theorem plain_of_length (hscan : scanQuoted s = some (raw, r)) (hcodes : codes raw = some ns)
    (hlength : (joinSurrogates ns).length = raw.length) : joinSurrogates ns = raw ∧ Plain raw := by
  have hslash : ∀ c ∈ raw, c ≠ '\\' := by
    rintro _ hmem rfl
    have hlt := (codes_length hcodes).2 hmem
    have hle := joinSurrogates_length ns
    omega
  refine ⟨?_, plain_of_scanQuoted hscan hslash⟩
  rw [codes_of_no_slash hslash] at hcodes
  rw [← Option.some.inj hcodes, joinSurrogates_map]

/-- What is no surrogate is the last character. -/
theorem joinSurrogates_concat (ns : List ℕ) (hc : c.toNat < 0xd800) :
    joinSurrogates (ns ++ [c.toNat]) = joinSurrogates ns ++ [c] := by
  induction ns using joinSurrogates.induct with
  | case1 => exact joinSurrogates_toNat c []
  | case2 n =>
      have hpair : joinSurrogates [n, c.toNat] = joinSurrogates [n] ++ joinSurrogates [c.toNat] :=
        if_neg (by omega)
      exact hpair.trans (congrArg (joinSurrogates [n] ++ ·) (joinSurrogates_toNat c []))
  | case3 n m ns h ih => rw [List.cons_append, List.cons_append, joinSurrogates, if_pos h, ih, joinSurrogates, if_pos h]; rfl
  | case4 n m ns h ih =>
      rw [List.cons_append, List.cons_append, joinSurrogates, if_neg h, ← List.cons_append, ih, joinSurrogates, if_neg h]
      rfl

/-! ## The quotation that the text is put into -/

/-- The quotation ends in the text or at its end, or the text ends with a backslash. -/
theorem scanQuoted_append (h : scanQuoted (t ++ '"' :: s) = some (raw, r)) :
    raw <+: t ∨ t.getLast? = some '\\' ∧ ∃ raw', raw = t ++ '"' :: raw' ∧ scanQuoted s = some (raw', r) := by
  induction hn : t.length using Nat.strong_induction_on generalizing t raw with
  | _ n ih =>
      subst hn
      cases t with
      | nil =>
          obtain ⟨rfl, rfl⟩ := Prod.mk.inj (Option.some.inj h)
          exact .inl (List.prefix_refl _)
      | cons c t =>
          by_cases hslash : c = '\\'
          · subst hslash
            cases t with
            | nil =>
                obtain ⟨⟨raw', r'⟩, hscan, heq⟩ := Option.map_eq_some_iff.mp h
                obtain ⟨rfl, rfl⟩ := Prod.mk.inj heq
                exact .inr ⟨rfl, raw', rfl, hscan⟩
            | cons d t =>
                obtain ⟨⟨raw', r'⟩, hscan, heq⟩ := Option.map_eq_some_iff.mp h
                obtain ⟨rfl, rfl⟩ := Prod.mk.inj heq
                rcases ih t.length (by simp only [List.length_cons]; omega) hscan rfl with hprefix | ⟨hlast, raw'', rfl, hs⟩
                · exact .inl ((List.prefix_cons_inj _).mpr ((List.prefix_cons_inj _).mpr hprefix))
                · exact .inr ⟨by rw [List.getLast?_cons_cons, List.getLast?_cons, hlast]; rfl, raw'', rfl, hs⟩
          by_cases hquote : c = '"'
          · subst hquote
            obtain ⟨rfl, rfl⟩ := Prod.mk.inj (Option.some.inj h)
            exact .inl List.nil_prefix
          rw [List.cons_append, scanQuoted.eq_5 c _ hquote (fun h => absurd h hslash)
            (fun _ _ h => absurd h hslash)] at h
          split at h
          · cases h
          · obtain ⟨⟨raw', r'⟩, hscan, heq⟩ := Option.map_eq_some_iff.mp h
            obtain ⟨rfl, rfl⟩ := Prod.mk.inj heq
            rcases ih t.length (Nat.lt_succ_self _) hscan rfl with hprefix | ⟨hlast, raw'', rfl, hs⟩
            · exact .inl ((List.prefix_cons_inj _).mpr hprefix)
            · exact .inr ⟨by rw [List.getLast?_cons, hlast]; rfl, raw'', rfl, hs⟩

variable {q : List Char}

/-- A quotation from within the text on is shorter than its rest of the text, or the rest is plain, or what it says
    ends otherwise than the rest does. -/
theorem scanString_splice (h : scanString (t ++ '"' :: ',' :: '"' :: q) = some (k, r)) :
    k.toList.length < t.length ∨ k.toList = t ∧ Plain t ∨
      t.getLast? = some '\\' ∧ k.toList.getLast? = some ',' := by
  obtain ⟨raw, ns, hscan, hcodes, rfl⟩ := scanString_eq_some h
  rw [String.toList_ofList]
  rcases scanQuoted_append hscan with hprefix | ⟨hlast, raw', rfl, hs⟩
  · have hraw := hprefix.length_le
    have hlength := (joinSurrogates_length ns).trans (codes_length hcodes).1
    rcases (hlength.trans hraw).lt_or_eq with hlt | heq
    · exact .inl hlt
    · obtain ⟨hself, hplain⟩ := plain_of_length hscan hcodes (by omega)
      obtain rfl := hprefix.eq_of_length (by omega)
      exact .inr (.inl ⟨hself, hplain⟩)
  · have hcomma : scanQuoted (',' :: '"' :: q) = some ([','], q) := rfl
    obtain ⟨rfl, rfl⟩ := Prod.mk.inj (Option.some.inj (hcomma.symm.trans hs))
    rw [List.append_cons] at hcodes
    obtain ⟨ms, rfl⟩ := codes_concat (by decide) (by decide) hcodes
    refine .inr (.inr ⟨hlast, ?_⟩)
    rw [joinSurrogates_concat ms (by decide), List.getLast?_concat]

end

section
variable {ν : Type*} [Numeral ν] {p t q : List Char} {v : Json ν}

/-- A suffix starts in the one part or in the other. -/
theorem suffix_append_cases {α : Type*} {u a b : List α} (h : u <:+ a ++ b) :
    u <:+ b ∨ ∃ a', a' <:+ a ∧ u = a' ++ b := by
  obtain ⟨w, hw⟩ := h
  rcases List.append_eq_append_iff.mp hw with ⟨a', rfl, rfl⟩ | ⟨b', rfl, rfl⟩
  · exact .inr ⟨a', List.suffix_append _ _, rfl⟩
  · exact .inl (List.suffix_append _ _)

/-- From no quotation mark of the whole text on a quotation says the text that was put there, unless it is plain. -/
theorem ne_of_scanString {u r : List Char} {k : String} (hp : ∀ c ∈ p, c ≠ '\\') (hq : ∀ c ∈ q, c ≠ '\\')
    (hplain : ¬ Plain t) (hu : '"' :: u <:+ p ++ '"' :: (t ++ '"' :: ',' :: '"' :: q))
    (h : scanString u = some (k, r)) : k.toList ≠ t := by
  -- where there are no backslashes what is said is plain
  have hoff (hraw : ∀ raw, scanQuoted u = some (raw, r) → ∀ c ∈ raw, c ≠ '\\') : k.toList ≠ t := by
    rintro rfl
    exact hplain (scanString_of_no_slash h hraw)
  have hend (hslash : ∀ c ∈ u, c ≠ '\\') : k.toList ≠ t := by
    refine hoff fun raw hscan c hc => hslash c ?_
    rw [(scanQuoted_eq_some hscan).1]
    exact List.mem_append_left _ hc
  have hwhole (hu : u = t ++ '"' :: ',' :: '"' :: q) : k.toList ≠ t := by
    subst hu
    rintro rfl
    rcases scanString_splice h with hlt | ⟨-, hself⟩ | ⟨hlast, hlast'⟩
    · exact lt_irrefl _ hlt
    · exact hplain hself
    · rw [hlast] at hlast'
      exact absurd hlast' (by decide)
  have hmarks : ∀ c ∈ '"' :: ',' :: '"' :: q, c ≠ '\\' := by
    simp only [List.forall_mem_cons]
    exact ⟨by decide, by decide, by decide, hq⟩
  rcases suffix_append_cases hu with hu | ⟨a, ha, hu⟩
  · rcases List.suffix_cons_iff.mp hu with hu | hu
    · exact hwhole (List.cons.inj hu).2
    rcases suffix_append_cases hu with hu | ⟨a, ha, hu⟩
    · exact hend fun c hc => hmarks c (hu.subset (List.mem_cons_of_mem _ hc))
    · cases a with
      | nil =>
          have hu : '"' :: u = '"' :: ',' :: '"' :: q := hu
          exact hend fun c hc => hmarks c (hu ▸ List.mem_cons_of_mem _ hc)
      | cons d a =>
          obtain ⟨rfl, rfl⟩ := List.cons.inj hu
          have hlength := ha.length_le
          rw [List.length_cons] at hlength
          rintro rfl
          rcases scanString_splice h with hlt | ⟨hself, -⟩ | ⟨hlast, hlast'⟩
          · omega
          · rw [hself] at hlength
            omega
          · obtain ⟨w, hw⟩ := ha
            rw [← hw, List.getLast?_append, List.getLast?_cons, hlast] at hlast'
            exact absurd (Option.some.inj hlast') (by decide)
  · cases a with
    | nil => exact hwhole (List.cons.inj hu).2
    | cons d a =>
        obtain ⟨rfl, rfl⟩ := List.cons.inj hu
        have hslash : ∀ c ∈ a, c ≠ '\\' := fun c hc => hp c (ha.subset (List.mem_cons_of_mem _ hc))
        refine hoff fun raw hscan c hc => ?_
        rcases scanQuoted_append hscan with hinit | ⟨hlast, -⟩
        · exact hslash c (hinit.subset hc)
        · exact absurd rfl (hslash _ (List.mem_of_getLast? hlast))

/-- **What is read back is plain.** -/
theorem plain_of_loads (hp : ∀ c ∈ p, c ≠ '\\') (hq : ∀ c ∈ q, c ≠ '\\')
    (h : loads (p ++ '"' :: (t ++ '"' :: ',' :: '"' :: q)) = some v) :
    Plain t ∨ v.Texts fun k => k.toList ≠ t := by
  by_cases hplain : Plain t
  · exact .inl hplain
  have hsurvives : Survives (· <:+ p ++ '"' :: (t ++ '"' :: ',' :: '"' :: q)) fun k => k.toList ≠ t := by
    refine ⟨fun c u _ _ hu => (List.suffix_cons c u).trans hu, fun u k r hu hstring => ?_⟩
    refine ⟨?_, ne_of_scanString hp hq hplain hu hstring⟩
    obtain ⟨raw, -, hscan, -, -⟩ := scanString_eq_some hstring
    obtain ⟨rfl, -⟩ := scanQuoted_eq_some hscan
    exact ((List.suffix_cons '"' r).trans ((List.suffix_append raw _).trans (List.suffix_cons _ _))).trans hu
  exact .inr (hsurvives.loads h List.suffix_rfl).2

section
variable {k s s' r : List Char} {fuel : ℕ}

theorem scanOnce_plain (ht : Plain t) : scanOnce (ν := ν) (fuel + 1) ('"' :: (t ++ '"' :: r)) =
    some (.str (String.ofList t), r) := by
  rw [scanOnce_string, scanString_of_plain ht]
  rfl

/-- A field with a plain key, and more fields after it. -/
theorem scanFields_plain (hk : Plain k) (hs : skip s = s) (hv : scanOnce fuel s = some (v, ',' :: '"' :: s')) :
    scanFields (fuel + 1) ('"' :: (k ++ '"' :: ':' :: s)) =
      (scanFields fuel ('"' :: s')).map fun (fields, r) => ((String.ofList k, v) :: fields, r) := by
  have hkey := scanString_of_plain (r := ':' :: s) hk
  rw [scanFields]
  dsimp only
  rw [hkey]
  simp only [skip_cons (c := ':') (by decide), hs, hv]
  rfl

/-- The last field. -/
theorem scanFields_last (hk : Plain k) (hs : skip s = s) (hv : scanOnce fuel s = some (v, '}' :: r)) :
    scanFields (fuel + 1) ('"' :: (k ++ '"' :: ':' :: s)) = some ([(String.ofList k, v)], r) := by
  have hkey := scanString_of_plain (r := ':' :: s) hk
  rw [scanFields]
  dsimp only
  rw [hkey]
  simp only [skip_cons (c := ':') (by decide), hs, hv]
  rfl

/-- A plain text in an array, and more after it. -/
theorem scanItems_plain (ht : Plain t) : scanItems (ν := ν) (fuel + 2) ('"' :: (t ++ '"' :: ',' :: '"' :: s)) =
    (scanItems (fuel + 1) ('"' :: s)).map fun (items, r) => (.str (String.ofList t) :: items, r) := by
  rw [scanItems, scanOnce_plain ht]
  rfl

/-- The last one. -/
theorem scanItems_last (ht : Plain t) : scanItems (ν := ν) (fuel + 2) ('"' :: (t ++ '"' :: ']' :: r)) =
    some ([.str (String.ofList t)], r) := by
  rw [scanItems, scanOnce_plain ht]
  rfl

end

end

end Json
