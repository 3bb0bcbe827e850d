import Persola.Lib.Pieces
import Persola.Tools.Calls

/-!
# `Tools.Extractors` — what the extractors find in a written value

The patterns know nothing of quotations, so they match inside of them too. A fence that opens inside a quotation
is harmless: what it encloses is read with its quotations the wrong way round, and there is no key by which it
could be a call (`jsonCalls_of_fence`). A fence that closes inside a quotation is not: what it encloses ends in
the middle of a value (`loads_of_cut`), and the block that was meant is lost.
-/

namespace Persola.Tools

open Json Regex

variable {ν : Type*} [Numeral ν]

theorem space_ne {c : Char} (h : Py.isSpace c) : c ≠ '"' ∧ c ≠ '\\' ∧ c ≠ '}' ∧ c ≠ ')' ∧ c ≠ tick := by
  have hne {d : Char} (hd : Py.isSpace d = false) : c ≠ d := by
    rintro rfl
    rw [hd] at h
    cases h
  exact ⟨hne (by decide), hne (by decide), hne (by decide), hne (by decide), hne (by decide)⟩

/-! ## What the patterns match -/

section
variable {text u w t a : List Char} {groups : List (List Char)}

theorem of_mem_letters {cs : List Char} (h : (groups, t) ∈ (Regex.concat (cs.map letter)).ways u) :
    groups = [] ∧ ∃ a, u = a ++ t ∧ ∀ c ∈ a, c.toLower ∈ cs ∨ c = Char.ofNat 0x17f := by
  induction cs generalizing u groups with
  | nil =>
      obtain ⟨rfl, rfl⟩ := mem_ways_empty.mp h
      exact ⟨rfl, [], rfl, fun c hc => absurd hc List.not_mem_nil⟩
  | cons d cs ih =>
      obtain ⟨_, _, _, hd, hcs, rfl⟩ := mem_ways_seq.mp h
      obtain ⟨rfl, c, rfl, hc⟩ := mem_ways_char.mp hd
      obtain ⟨rfl, a, rfl, ha⟩ := ih hcs
      refine ⟨rfl, c :: a, rfl, List.forall_mem_cons.mpr ⟨?_, fun e he => ?_⟩⟩
      · simp only [Bool.or_eq_true, Bool.and_eq_true, beq_iff_eq] at hc
        exact hc.imp (fun hc => List.mem_cons.mpr (.inl hc)) And.right
      · exact (ha e he).imp_left (List.mem_cons_of_mem d)

/-- A fence: backticks, and an object after no quotation mark. -/
theorem of_mem_fence (h : (groups, t) ∈ fenceRe.ways u) :
    ∃ a g b, groups.getD 0 [] = '{' :: g ∧ u = backticks ++ (a ++ ('{' :: g ++ b)) ∧
      ∀ c ∈ a, c ≠ '"' ∧ c ≠ '\\' := by
  obtain ⟨u₁, rfl, h₁⟩ := mem_ways_lit_seq.mp h
  obtain ⟨gs, u₂, _, hjson, h₂, rfl⟩ := mem_ways_seq.mp h₁
  obtain ⟨w, u₃, rfl, hw, h₃⟩ := mem_ways_many_seq.mp h₂
  obtain ⟨g, _, u₄, _, rfl, hobject, -, rfl⟩ := mem_ways_group_seq.mp h₃
  obtain ⟨u₅, hbrace, h₅⟩ := mem_ways_lit_seq.mp hobject
  have hspaces : ∀ c ∈ w, c ≠ '"' ∧ c ≠ '\\' := fun c hc => ⟨(space_ne (hw c hc)).1, (space_ne (hw c hc)).2.1⟩
  -- the closing brace belongs to the group too
  have hlong : u₄.length < u₅.length := by
    obtain ⟨_, u₆, _, hfew, hend, -⟩ := mem_ways_seq.mp h₅
    obtain ⟨-, b, rfl, -⟩ := mem_ways_fewest.mp hfew
    obtain ⟨u₇, rfl, hempty⟩ := mem_ways_lit_seq.mp hend
    obtain ⟨-, rfl⟩ := mem_ways_empty.mp hempty
    simp
    omega
  obtain ⟨g, rfl⟩ : ∃ g', g = '{' :: g' := by
    cases g with
    | nil =>
        rw [List.nil_append] at hbrace
        rw [hbrace] at hlong
        simp at hlong
    | cons c g => exact ⟨g, by rw [(List.cons.inj hbrace).1]⟩
  rcases mem_ways_maybe.mp hjson with hjson | ⟨rfl, rfl⟩
  · obtain ⟨rfl, a, rfl, ha⟩ := of_mem_letters hjson
    refine ⟨a ++ w, g, u₄, rfl, by simp, fun c hc => ?_⟩
    rcases List.mem_append.mp hc with hc | hc
    · have hletter : ∀ d : Char, d = '"' ∨ d = '\\' →
          ¬ (d.toLower ∈ ['j', 's', 'o', 'n'] ∨ d = Char.ofNat 0x17f) := by
        rintro d (rfl | rfl)
        · decide
        · decide
      exact not_or.mp fun hd => hletter c hd (ha c hc)
    · exact hspaces c hc
  · exact ⟨w, g, u₄, rfl, rfl, hspaces⟩

/-- A `TOOL_CALL` line ends with a parenthesis and spaces. -/
theorem of_mem_toolLine (h : (groups, t) ∈ toolLineRe.ways u) :
    ∃ a w, u = a ++ ')' :: (w ++ t) ∧ (∀ c ∈ w, Py.isSpace c) ∧ ∀ c ∈ t.head?, c = '\n' := by
  obtain ⟨u₁, rfl, h₁⟩ := mem_ways_lit_seq.mp h
  obtain ⟨w₁, u₂, rfl, -, h₂⟩ := mem_ways_many_seq.mp h₁
  obtain ⟨u₃, rfl, h₃⟩ := mem_ways_lit_seq.mp h₂
  obtain ⟨w₂, u₄, rfl, -, h₄⟩ := mem_ways_many_seq.mp h₃
  obtain ⟨name, _, u₅, _, rfl, -, h₅, -⟩ := mem_ways_group_seq.mp h₄
  obtain ⟨w₃, u₆, rfl, -, h₆⟩ := mem_ways_many_seq.mp h₅
  obtain ⟨u₇, rfl, h₇⟩ := mem_ways_lit_seq.mp h₆
  obtain ⟨w₄, u₈, rfl, -, h₈⟩ := mem_ways_many_seq.mp h₇
  obtain ⟨args, _, u₉, _, rfl, -, h₉, -⟩ := mem_ways_group_seq.mp h₈
  obtain ⟨w₅, v, rfl, -, hv⟩ := mem_ways_many_seq.mp h₉
  obtain ⟨v₁, rfl, hv₁⟩ := mem_ways_lit_seq.mp hv
  obtain ⟨w, v₂, rfl, hw, hv₂⟩ := mem_ways_many_seq.mp hv₁
  obtain ⟨_, _, _, hend, hempty, -⟩ := mem_ways_seq.mp hv₂
  obtain ⟨-, rfl, hline⟩ := mem_ways_lineEnd.mp hend
  obtain ⟨-, rfl⟩ := mem_ways_empty.mp hempty
  refine ⟨lineStart ++ (w₁ ++ ([':'] ++ (w₂ ++ (name ++ (w₃ ++ (['('] ++ (w₄ ++ (args ++ w₅)))))))), w,
    ?_, hw, hline⟩
  simp only [List.append_assoc, List.cons_append, List.nil_append]

end

/-! ## Fences that open inside a quotation -/

/-- No character of the keys `name` and `tool_calls` that others have. -/
def Keyless (c : Char) : Prop := c ≠ 'm' ∧ c ≠ '_'

/-- A reader that is on the wrong side of the quotations finds no key of a call. -/
theorem tick_mark : Mark Keyless tick := by
  refine ⟨fun c hc => ⟨?_, ?_⟩, by decide, by decide, by decide, by decide⟩
  · rintro rfl
    cases hc
  · rintro rfl
    cases hc

section
variable {repr : Json ν → String} {text u w t a : List Char} {groups : List (List Char)}
  {raw : List (String × Json ν)}

theorem normalizeCalls_of_keyless (h : (Json.obj raw).Keys fun k => ∀ c ∈ k.toList, Keyless c) :
    normalizeCalls repr (.obj raw) = [] := by
  have hlookup {k : String} {c : Char} (hc : c ∈ k.toList) (hkey : ¬ Keyless c) : raw.lookup k = none := by
    rw [List.lookup_eq_none_iff]
    intro f hf
    rw [bne_iff_ne]
    rintro rfl
    exact hkey (h raw rfl f hf c hc)
  rw [normalizeCalls, normalizeWrapped_eq, hlookup (k := "tool_calls") (c := '_') (by decide) (by simp [Keyless]),
    hlookup (k := "name") (c := 'm') (by decide) (by simp [Keyless])]
  rfl

/-- A message that starts with no bracket is not read as JSON. -/
theorem messageCalls_of_head {c : Char} {s : List Char} (hbrace : c ≠ '{') (hbracket : c ≠ '[') :
    messageCalls repr (c :: s) = [] := by
  refine if_neg ?_
  rw [List.head?_cons, Option.some.injEq, Option.some.injEq]
  exact not_or.mpr ⟨hbrace, hbracket⟩

/-- **A fence that opens inside a quotation is harmless.** -/
theorem jsonCalls_of_fence (hu : Quoted Keyless true u) (h : (groups, t) ∈ fenceRe.ways u) :
    jsonCalls repr (groups.getD 0 []) = [] := by
  obtain ⟨a, g, b, hgroup, rfl, ha⟩ := of_mem_fence h
  have hticks : ∀ c ∈ backticks, c ≠ '"' ∧ c ≠ '\\' := List.all_iff_forall_prop.mp (by decide)
  have hgroup' : Quoted Keyless true ('{' :: g) := ((hu.behind hticks).behind ha).of_append
  rw [hgroup]
  unfold jsonCalls
  split
  · next v hloads =>
      obtain ⟨raw, rfl⟩ := loads_brace hloads
      exact normalizeCalls_of_keyless (keys_of_quoted hgroup' hloads)
  · rfl

/-- Where all backticks are inside quotations, or have no brace behind them, there are no fenced calls. -/
theorem fencedCalls_eq_nil (h : ∀ u, tick :: u <:+ text → Quoted Keyless true (tick :: u) ∨ '{' ∉ u) :
    fencedCalls repr text = [] := by
  refine List.flatMap_eq_nil_iff.mpr fun groups hgroups => ?_
  obtain ⟨u, t, hu, hways⟩ := of_mem_finditer hgroups
  obtain ⟨a, g, b, -, rfl, -⟩ := of_mem_fence hways
  rcases h _ hu with hquoted | hbrace
  · exact jsonCalls_of_fence hquoted hways
  · refine absurd ?_ hbrace
    simp

/-- The calls of the first fence, and those behind it. -/
theorem fencedCalls_match (h : (fenceRe.ways text).head? = some (groups, t)) (hlength : t.length < text.length) :
    fencedCalls repr text = jsonCalls repr (groups.getD 0 []) ++ fencedCalls repr t := by
  unfold fencedCalls
  rw [finditer_match h hlength, List.flatMap_cons]

/-- Where no line ends with a parenthesis and spaces, there is no `TOOL_CALL` line. -/
theorem lineCalls_eq_nil (h : ∀ a w t, text = a ++ ')' :: (w ++ t) → (∀ c ∈ w, Py.isSpace c) →
    ¬ ∀ c ∈ t.head?, c = '\n') : lineCalls (ν := ν) text = [] := by
  refine List.flatMap_eq_nil_iff.mpr fun groups hgroups => ?_
  obtain ⟨u, t, ⟨b, rfl⟩, hways⟩ := of_mem_finditer hgroups
  obtain ⟨a, w, rfl, hw, ht⟩ := of_mem_toolLine hways
  exact absurd ht (h (b ++ a) w t (by simp) hw)

end

/-! ## Fences that close inside a quotation -/

/-- The text closes a fence: an object's end, spaces and backticks. -/
def Cut (s : List Char) : Prop := ∃ a w b, s = a ++ '}' :: (w ++ (backticks ++ b)) ∧ ∀ c ∈ w, c = ' '

theorem bare_tick : Bare tick :=
  bare_of (by decide) (by decide) (by decide) (by decide) (by decide) (by decide) (by decide)

theorem bare_brace : Bare '}' :=
  bare_of (by decide) (by decide) (by decide) (by decide) (by decide) (by decide) (by decide)

theorem bare_space : Bare ' ' :=
  bare_of (by decide) (by decide) (by decide) (by decide) (by decide) (by decide) (by decide)

/-- Of the spaces, one is printable. -/
theorem eq_space {c : Char} (h : Py.isSpace c) (hlow : 32 ≤ c.toNat) (hhigh : c.toNat < 127) : c = ' ' := by
  have hcode : c.toNat = 32 := by
    simp only [Py.isSpace, Bool.or_eq_true, Bool.and_eq_true, decide_eq_true_eq, beq_iff_eq] at h
    omega
  rw [← Char.ofNat_toNat c, hcode]

section
variable {ks : List String} {k : String} {s x w y z t : List Char}

/-- **What closes a fence in a written value stands in a string**, and the reader is inside a quotation there. -/
theorem of_closing (hs : Pieces ks s) (h : s = x ++ '}' :: (w ++ tick :: y)) (hw : ∀ c ∈ w, Py.isSpace c) :
    ∃ k ∈ ks, ∃ a b q, k.toList = a ++ '}' :: (w ++ tick :: b) ∧ (∀ c ∈ w, c = ' ') ∧
      y = b.flatMap escapeChar ++ '"' :: q ∧ (x ++ ['}']).foldl Mode.read .outside = .inside := by
  obtain ⟨k, hk, p, as, bs, q, hsplit, hx, hy, hp⟩ :=
    hs.mark bare_tick (by decide) (x := x ++ '}' :: w) (y := y) (by simpa using h)
  -- the brace is in the same quotation, as there is no quotation mark between
  obtain ⟨e, rfl, he⟩ : ∃ e, x = p ++ '"' :: e ∧ as.flatMap escapeChar = e ++ '}' :: w := by
    rcases List.append_eq_append_iff.mp hx with ⟨p', -, hmark⟩ | ⟨x', rfl, hx'⟩
    · have hmem : '"' ∈ '}' :: w := by simp [hmark]
      rcases List.mem_cons.mp hmem with heq | hmem
      · exact absurd heq (by decide)
      · exact absurd rfl (space_ne (hw _ hmem)).1
    · rcases List.cons_eq_append_iff.mp hx' with ⟨-, heq⟩ | ⟨e, rfl, he⟩
      · exact absurd (List.cons.inj heq).1 (by decide)
      · exact ⟨e, rfl, he⟩
  obtain ⟨a, a', rfl, rfl, hw'⟩ := bare_brace.split he
  have hspaces : ∀ c ∈ w, c = ' ' := by
    intro c hc
    have hc' := hc
    rw [hw'] at hc'
    obtain ⟨d, -, hd⟩ := List.mem_flatMap.mp hc'
    obtain ⟨hlow, hhigh⟩ := printable_of_mem_escapeChar hd
    exact eq_space (hw c hc) hlow hhigh
  have hbare : ∀ c ∈ w, Bare c := fun c hc => hspaces c hc ▸ bare_space
  obtain ⟨b', rfl, hb'⟩ := Bare.starts (f := []) hbare (by rw [List.append_nil, ← hw'])
  rw [eq_nil_of_escaped hb'.symm, List.append_nil] at hsplit
  refine ⟨k, hk, a, bs, q, by simpa using hsplit, hspaces, hy, ?_⟩
  rw [List.append_assoc, List.foldl_append, hp, List.cons_append, List.foldl_cons, List.foldl_append]
  show List.foldl Mode.read (List.foldl Mode.read .inside _) _ = _
  rw [inside_of_escaped]
  rfl

/-- A fence that is closed in a written value is closed by one of its strings. -/
theorem cut_of_closing (hs : Pieces ks s) (h : s = x ++ '}' :: (w ++ tick :: y)) (hw : ∀ c ∈ w, Py.isSpace c)
    (hy : y ++ z = tick :: tick :: t) : ∃ k ∈ ks, Cut k.toList := by
  obtain ⟨k, hk, a, b, q, hsplit, hspaces, rfl, -⟩ := of_closing hs h hw
  have hticks : ∀ c ∈ [tick, tick], Bare c := by
    intro c hc
    rw [List.eq_of_mem_replicate (n := 2) hc]
    exact bare_tick
  have hstart : ∃ f, b.flatMap escapeChar = [tick, tick] ++ f := by
    have hy' : [tick, tick] ++ t = b.flatMap escapeChar ++ '"' :: (q ++ z) := by simpa using hy.symm
    rcases List.append_eq_append_iff.mp hy' with ⟨f, hf, -⟩ | ⟨f, hf, hrest⟩
    · exact ⟨f, hf⟩
    · rcases List.cons_eq_append_iff.mp hrest with ⟨rfl, -⟩ | ⟨f', rfl, -⟩
      · exact ⟨[], by rw [List.append_nil, hf, List.append_nil]⟩
      · have hmem : '"' ∈ [tick, tick] := by simp [hf]
        exact absurd hmem (by decide)
  obtain ⟨f, hf⟩ := hstart
  obtain ⟨b', rfl, -⟩ := Bare.starts hticks hf
  exact ⟨k, hk, a, w, b', hsplit, hspaces⟩

/-- What ends inside a quotation is not JSON. -/
theorem loads_of_inside (h : s.foldl Mode.read .outside = .inside) : loads (ν := ν) s = none := by
  cases hloads : loads (ν := ν) s with
  | none => rfl
  | some v =>
      have hclosed := loads_closed hloads
      rw [h] at hclosed
      cases hclosed

/-- A string that closes a fence does so where the value is written. -/
theorem closing_of_cut (hs : Pieces ks s) (hk : k ∈ ks) (hcut : Cut k.toList) :
    ∃ x w y, s = x ++ '}' :: (w ++ (backticks ++ y)) ∧ ∀ c ∈ w, Py.isSpace c := by
  obtain ⟨a, w, b, hsplit, hw⟩ := hcut
  obtain ⟨x, y, rfl⟩ := hs.of_mem hk
  have hbare : ∀ c ∈ '}' :: (w ++ backticks), Bare c := by
    intro c hc
    rcases List.mem_cons.mp hc with rfl | hc
    · exact bare_brace
    rcases List.mem_append.mp hc with hc | hc
    · exact hw c hc ▸ bare_space
    · rw [List.eq_of_mem_replicate (n := 3) hc]
      exact bare_tick
  have hwritten := Bare.flatMap_escapeChar hbare
  refine ⟨x ++ '"' :: a.flatMap escapeChar, w, b.flatMap escapeChar ++ '"' :: y, ?_,
    fun c hc => hw c hc ▸ by decide⟩
  have hchars : k.toList.flatMap escapeChar =
      a.flatMap escapeChar ++ (('}' :: (w ++ backticks)) ++ b.flatMap escapeChar) := by
    rw [← hwritten, hsplit]
    simp
  rw [Json.quote, hchars]
  simp

end

/-! ## Matches that are meant -/

section
variable {β : Type*} {r : Regex} {cs s m w t : List Char} {k : List (List Char) → List Char → Option β}

theorem first_letters (cs : List Char) (hcs : ∀ c ∈ cs, c.toLower = c) :
    first (.seq (Regex.concat (cs.map letter)) r) (cs ++ s) k = first r s k := by
  induction cs generalizing k with
  | nil =>
      rw [first_seq]
      exact first_empty
  | cons c cs ih =>
      obtain ⟨hc, hcs⟩ := List.forall_mem_cons.mp hcs
      have hletter : (fun d => d.toLower == c || c == 's' && d == Char.ofNat 0x17f) c = true := by
        show (c.toLower == c || _) = true
        rw [hc, beq_self_eq_true, Bool.true_or]
      have hrest := ih hcs (k := k)
      rw [first_seq] at hrest ⊢
      show first (.seq (letter c) (Regex.concat (cs.map letter))) (c :: (cs ++ s)) _ = _
      rw [first_seq, letter, first_char hletter]
      exact hrest

/-- **The first fence** of a text that starts with one reaches to the first end of an object with backticks. -/
theorem head?_fence (hw : ∀ c ∈ w, Py.isSpace c) :
    ∃ m' w' t', m ++ '}' :: (w ++ (backticks ++ t)) = m' ++ '}' :: (w' ++ (backticks ++ t')) ∧
      m'.length ≤ m.length ∧ (∀ c ∈ w', Py.isSpace c) ∧
      (fenceRe.ways (backticks ++ (['j', 's', 'o', 'n', '\n'] ++
        '{' :: (m ++ '}' :: (w ++ (backticks ++ t)))))).head? =
        some (['{' :: (m' ++ ['}'])], t') := by
  have hclose {w t : List Char} {k : List (List Char) → List Char → Option (List (List Char) × List Char)}
      {x : List (List Char) × List Char} (hw : ∀ c ∈ w, Py.isSpace c) (hk : k [] t = some x) :
      first (Regex.concat [.many Py.isSpace, .lit backticks]) (w ++ (backticks ++ t)) k = some x := by
    refine first_many_seq hw ?_ (first_lit_seq.trans (first_empty.trans hk))
    rintro c ⟨⟩
    decide
  obtain ⟨m', u, happend, hlength, hsome, hfirst⟩ := first_shortest (o := ['{']) (e := ['}']) (a := m)
    (u := w ++ (backticks ++ t)) (k := fun cs t => some (cs, t)) (Option.isSome_of_eq_some (hclose hw rfl))
  -- behind the group there are spaces and backticks
  obtain ⟨y, hy⟩ := Option.isSome_iff_exists.mp hsome
  obtain ⟨ds, t', hways, -⟩ := of_first hy
  obtain ⟨w', u', rfl, hw', hlit⟩ := mem_ways_many_seq.mp hways
  obtain ⟨t', rfl, -⟩ := mem_ways_lit_seq.mp hlit
  rw [hclose hw' rfl] at hfirst
  refine ⟨m', w', t', happend, hlength, hw', ?_⟩
  rw [head?_ways]
  have hjson : ∀ c ∈ ['j', 's', 'o', 'n'], c.toLower = c := List.all_iff_forall_prop.mp (by decide)
  refine first_lit_seq.trans (first_maybe_seq ((first_letters ['j', 's', 'o', 'n'] hjson).trans ?_))
  exact first_many_seq (a := ['\n']) (List.forall_mem_singleton.mpr (by decide)) (by rintro c ⟨⟩; decide) hfirst

/-- A text that ends here, or goes on with another line that is not blank. -/
def LineEnds (s : List Char) : Prop := s = [] ∨ ∃ c t, s = '\n' :: c :: t ∧ Py.isSpace c = false

/-- The spaces behind a line do not reach into the next one. -/
theorem first_lineEnds (hs : LineEnds s) {x : β} (hk : k [] s = some x) :
    first (Regex.concat [.many Py.isSpace, .lineEnd]) s k = some x := by
  have hend : first (.seq .lineEnd .empty) s k = some x := by
    rw [first_seq, first_lineEnd, first_empty]
    · exact hk
    · rcases hs with rfl | ⟨c, t, rfl, -⟩
      · rintro c ⟨⟩
      · rintro c ⟨⟩
        rfl
  rcases hs with rfl | ⟨c, t, rfl, hc⟩
  · exact first_many_seq (a := []) (fun c hc => absurd hc List.not_mem_nil) (by rintro c ⟨⟩) hend
  · have hnot : c ≠ '\n' := by
      rintro rfl
      cases hc
    have hstop : ∀ d ∈ (c :: t).head?, Py.isSpace d = false := by
      rintro d ⟨⟩
      exact hc
    show first (.seq (.many Py.isSpace) (.seq .lineEnd .empty)) _ k = _
    rw [first_seq, first_many_cons (by decide), first_many_of_neg hstop, first_seq, first_lineEnd_of_ne hnot,
      Option.none_or]
    exact hend

/-- The codes of the characters of a name. -/
theorem code_of_nameChar {c : Char} (h : nameChar c) : c.toNat = 95 ∨ 48 ≤ c.toNat ∧ c.toNat ≤ 57 ∨
    65 ≤ c.toNat ∧ c.toNat ≤ 90 ∨ 97 ≤ c.toNat ∧ c.toNat ≤ 122 := by
  have hletters : nameChar c = ((decide (65 ≤ c.val ∧ c.val ≤ 90) || decide (97 ≤ c.val) && decide (c.val ≤ 122)) ||
      decide (48 ≤ c.val) && decide (c.val ≤ 57) || c == '_') := rfl
  rw [hletters] at h
  simp only [Bool.or_eq_true, Bool.and_eq_true, decide_eq_true_eq, beq_iff_eq, UInt32.le_iff_toNat_le] at h
  rcases h with h | rfl
  · have hcodes : (65 ≤ c.toNat ∧ c.toNat ≤ 90 ∨ 97 ≤ c.toNat ∧ c.toNat ≤ 122) ∨
        48 ≤ c.toNat ∧ c.toNat ≤ 57 := h
    omega
  · decide

theorem nameChar_not_space {c : Char} (h : nameChar c) : Py.isSpace c = false := by
  have hcode := code_of_nameChar h
  cases hspace : Py.isSpace c with
  | false => rfl
  | true =>
      simp only [Py.isSpace, Bool.or_eq_true, Bool.and_eq_true, decide_eq_true_eq, beq_iff_eq] at hspace
      omega

/-- **A `TOOL_CALL` line** is matched as a whole. -/
theorem head?_toolLine {name : List Char} (hname : ∀ c ∈ name, nameChar c) (hne : name ≠ [])
    (hm : ∀ c ∈ m, (c != '\n') = true) (hs : LineEnds s) :
    (toolLineRe.ways (lineStart ++ ([':'] ++ ([' '] ++ (name ++ (['('] ++
      (['{'] ++ (m ++ '}' :: ([')'] ++ s))))))))).head? = some ([name, ['{'] ++ (m ++ ['}'])], s) := by
  have hnone : ∀ c ∈ ([] : List Char), Py.isSpace c := fun c hc => absurd hc List.not_mem_nil
  have hstart : ∀ c ∈ (name ++ (['('] ++ (['{'] ++ (m ++ '}' :: ([')'] ++ s))))).head?,
      Py.isSpace c = false := by
    cases name with
    | nil => exact absurd rfl hne
    | cons c name =>
        rintro d ⟨⟩
        exact nameChar_not_space (hname c List.mem_cons_self)
  have hstop : ∀ c ∈ s.head?, (c != '\n') = false ∧ c ≠ '}' := by
    rcases hs with rfl | ⟨c, t, rfl, -⟩
    · rintro c ⟨⟩
    · rintro c ⟨⟩
      decide
  rw [head?_ways]
  refine first_lit_seq.trans (first_many_seq (a := []) hnone (by rintro c ⟨⟩; decide) (first_lit_seq.trans ?_))
  refine first_many_seq (a := [' ']) (List.forall_mem_singleton.mpr (by decide)) hstart ?_
  refine first_plus_group hname hne (by rintro c ⟨⟩; decide) ?_
  refine first_many_seq (a := []) hnone (by rintro c ⟨⟩; decide) (first_lit_seq.trans ?_)
  refine first_many_seq (a := []) hnone (by rintro c ⟨⟩; decide) ?_
  refine first_longest (f := [')']) hm (by decide) (List.forall_mem_singleton.mpr (by decide)) hstop ?_
  refine first_many_seq (a := []) hnone (by rintro c ⟨⟩; decide) (first_lit_seq.trans ?_)
  exact first_lineEnds hs rfl

end

end Persola.Tools
