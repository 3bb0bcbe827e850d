import Persola.Lib.Json
import Mathlib.Data.List.TakeWhile

/-!
# `Quotation` — where a JSON text is inside a quotation, and what is read from there

One rule for everything that survives reading a value (`Survives.reads`): a property of what is left to read
that survives single characters and whole quotations survives values. Two properties of texts follow from it.
What is read as JSON closes all its quotations (`loads_closed`). And a text that is read from inside a
quotation on has its quotations the wrong way round: a backslash stops the reader, and the keys it finds are
what the text has between quotations (`keys_of_quoted`).
-/

namespace Json

variable {ν : Type*} [Numeral ν]

/-! ## The rule -/

section
variable {I : List Char → Prop} {K : String → Prop} {s r : List Char} {v : Json ν} {fuel : ℕ}

/-- The keys of an object. -/
def Keys (K : String → Prop) (v : Json ν) : Prop := ∀ fields, v = .obj fields → ∀ f ∈ fields, K f.1

/-- The key of a field, and its value if that is a text. -/
def FieldTexts (K : String → Prop) (f : String × Json ν) : Prop := K f.1 ∧ ∀ t, f.2 = .str t → K t

/-- A value that is a text, or the texts of the fields of an object. -/
structure Texts (K : String → Prop) (v : Json ν) : Prop where
  text : ∀ t, v = .str t → K t
  fields : ∀ fields, v = .obj fields → ∀ f ∈ fields, FieldTexts K f

omit [Numeral ν] in
theorem Texts.keys (h : v.Texts K) : v.Keys K := fun fields heq f hf => (h.fields fields heq f hf).1

theorem numberChar_ne {c : Char} (h : numberChar c) : c ≠ '"' ∧ c ≠ '\\' := by
  constructor
  · rintro rfl
    cases h
  · rintro rfl
    cases h

/-- A property of what is left to read that survives single characters and whole quotations, whose texts have
    `K`. -/
structure Survives (I : List Char → Prop) (K : String → Prop) : Prop where
  char : ∀ c s, c ≠ '"' → c ≠ '\\' → I (c :: s) → I s
  string : ∀ s k r, I ('"' :: s) → scanString s = some (k, r) → I r ∧ K k

theorem Survives.append (h : Survives I K) {t : List Char} (ht : ∀ c ∈ t, c ≠ '"' ∧ c ≠ '\\') (hs : I (t ++ r)) :
    I r := by
  induction t with
  | nil => exact hs
  | cons c t ih =>
      obtain ⟨⟨hquote, hslash⟩, ht⟩ := List.forall_mem_cons.mp ht
      exact ih ht (h.char c _ hquote hslash hs)

theorem skip_suffix (s : List Char) : ∃ t, s = t ++ skip s ∧ ∀ c ∈ t, c ∈ [' ', '\t', '\n', '\r'] := by
  refine ⟨s.takeWhile (· ∈ [' ', '\t', '\n', '\r']), List.takeWhile_append_dropWhile.symm, fun c hc => ?_⟩
  simpa using List.mem_takeWhile_imp hc

theorem Survives.skip (h : Survives I K) (hs : I s) : I (skip s) := by
  obtain ⟨t, ht, hblanks⟩ := skip_suffix s
  have hblank : ∀ c ∈ [' ', '\t', '\n', '\r'], c ≠ '"' ∧ c ≠ '\\' :=
    List.all_iff_forall_prop.mp (by decide)
  exact h.append (fun c hc => hblank c (hblanks c hc)) (ht ▸ hs)

/-- One character, and whitespace. -/
theorem Survives.step (h : Survives I K) {c : Char} (hquote : c ≠ '"') (hslash : c ≠ '\\') (hs : I (c :: s)) :
    I (Json.skip s) := h.skip (h.char c s hquote hslash hs)

/-- What reading with this fuel leaves the property as it is, and the texts that are found have `K`. -/
structure Reads (ν : Type*) [Numeral ν] (I : List Char → Prop) (K : String → Prop) (fuel : ℕ) : Prop where
  once : ∀ s (v : Json ν) r, scanOnce fuel s = some (v, r) → I s → I r ∧ v.Texts K
  items : ∀ s (items : List (Json ν)) r, scanItems fuel s = some (items, r) → I s → I r
  fields : ∀ s (fields : List (String × Json ν)) r, scanFields fuel s = some (fields, r) → I s →
    I r ∧ ∀ f ∈ fields, FieldTexts K f

omit [Numeral ν] in
/-- An object has the fields that were read. -/
theorem texts_assign {fields : List (String × Json ν)} (h : ∀ f ∈ fields, FieldTexts K f) :
    (Json.obj (Py.assign [] fields)).Texts K := by
  refine ⟨nofun, fun assigned heq f hf => ?_⟩
  rw [← Json.obj.inj heq] at hf
  exact h f ((Py.mem_assign hf).resolve_left List.not_mem_nil)

theorem Survives.once (h : Survives I K) (ih : Reads ν I K fuel) (hscan : scanOnce (fuel + 1) s = some (v, r))
    (hs : I s) : I r ∧ v.Texts K := by
  have hnone {w : Json ν} (htext : ∀ t, w ≠ .str t) (hw : ∀ fields, w ≠ .obj fields) : w.Texts K :=
    ⟨fun t heq => absurd heq (htext t), fun fields heq => absurd heq (hw fields)⟩
  rw [scanOnce.eq_def] at hscan
  dsimp only at hscan
  split at hscan
  · obtain ⟨⟨t, r'⟩, hstring, heq⟩ := Option.map_eq_some_iff.mp hscan
    obtain ⟨rfl, rfl⟩ := Prod.mk.inj heq
    obtain ⟨hr, ht⟩ := h.string _ _ _ hs hstring
    exact ⟨hr, fun t' heq => Json.str.inj heq ▸ ht, by rintro _ ⟨⟩⟩
  · have hbody := h.step (by decide) (by decide) hs
    split at hscan
    · next heq =>
        obtain ⟨rfl, rfl⟩ := Prod.mk.inj (Option.some.inj hscan)
        rw [heq] at hbody
        exact ⟨h.char _ _ (by decide) (by decide) hbody, texts_assign fun f hf => absurd hf List.not_mem_nil⟩
    · obtain ⟨⟨fields, r'⟩, hfields, heq⟩ := Option.map_eq_some_iff.mp hscan
      obtain ⟨rfl, rfl⟩ := Prod.mk.inj heq
      obtain ⟨hr, hkeys⟩ := ih.fields _ _ _ hfields hbody
      exact ⟨hr, texts_assign hkeys⟩
  · have hbody := h.step (by decide) (by decide) hs
    split at hscan
    · next heq =>
        obtain ⟨rfl, rfl⟩ := Prod.mk.inj (Option.some.inj hscan)
        rw [heq] at hbody
        exact ⟨h.char _ _ (by decide) (by decide) hbody, hnone (by rintro _ ⟨⟩) (by rintro _ ⟨⟩)⟩
    · obtain ⟨⟨items, r'⟩, hitems, heq⟩ := Option.map_eq_some_iff.mp hscan
      obtain ⟨rfl, rfl⟩ := Prod.mk.inj heq
      exact ⟨ih.items _ _ _ hitems hbody, hnone (by rintro _ ⟨⟩) (by rintro _ ⟨⟩)⟩
  · obtain ⟨rfl, rfl⟩ := Prod.mk.inj (Option.some.inj hscan)
    exact ⟨h.append (t := ['n', 'u', 'l', 'l']) (List.all_iff_forall_prop.mp (by decide)) hs, hnone (by rintro _ ⟨⟩) (by rintro _ ⟨⟩)⟩
  · obtain ⟨rfl, rfl⟩ := Prod.mk.inj (Option.some.inj hscan)
    exact ⟨h.append (t := ['t', 'r', 'u', 'e']) (List.all_iff_forall_prop.mp (by decide)) hs, hnone (by rintro _ ⟨⟩) (by rintro _ ⟨⟩)⟩
  · obtain ⟨rfl, rfl⟩ := Prod.mk.inj (Option.some.inj hscan)
    exact ⟨h.append (t := ['f', 'a', 'l', 's', 'e']) (List.all_iff_forall_prop.mp (by decide)) hs, hnone (by rintro _ ⟨⟩) (by rintro _ ⟨⟩)⟩
  · obtain ⟨⟨n, r'⟩, hnumber, heq⟩ := Option.map_eq_some_iff.mp hscan
    obtain ⟨rfl, rfl⟩ := Prod.mk.inj heq
    obtain ⟨t, rfl, -, ht⟩ := Numeral.scan_eq_some hnumber
    exact ⟨h.append (fun c hc => numberChar_ne (ht c hc)) hs, hnone (by rintro _ ⟨⟩) (by rintro _ ⟨⟩)⟩

theorem Survives.items (h : Survives I K) (ih : Reads ν I K fuel) {items : List (Json ν)}
    (hscan : scanItems (fuel + 1) s = some (items, r)) (hs : I s) : I r := by
  rw [scanItems] at hscan
  split at hscan
  · cases hscan
  · next v s' hv =>
      obtain ⟨hs', -⟩ := ih.once s v s' hv hs
      have hsep := h.skip hs'
      split at hscan
      · next s'' heq =>
          rw [heq] at hsep
          obtain ⟨⟨items', r'⟩, hitems, heq⟩ := Option.map_eq_some_iff.mp hscan
          obtain ⟨-, rfl⟩ := Prod.mk.inj heq
          exact ih.items _ _ _ hitems (h.step (by decide) (by decide) hsep)
      · next r' heq =>
          rw [heq] at hsep
          obtain ⟨-, rfl⟩ := Prod.mk.inj (Option.some.inj hscan)
          exact h.char _ _ (by decide) (by decide) hsep
      · cases hscan

theorem Survives.fields (h : Survives I K) (ih : Reads ν I K fuel) {fields : List (String × Json ν)}
    (hscan : scanFields (fuel + 1) s = some (fields, r)) (hs : I s) : I r ∧ ∀ f ∈ fields, FieldTexts K f := by
  rw [scanFields.eq_def] at hscan
  dsimp only at hscan
  split at hscan
  · split at hscan
    · cases hscan
    · next k s' hstring =>
        obtain ⟨hs', hk⟩ := h.string _ _ _ hs hstring
        have hcolon := h.skip hs'
        split at hscan
        · next heq =>
            rw [heq] at hcolon
            have hvalue := h.step (by decide) (by decide) hcolon
            split at hscan
            · cases hscan
            · next v s'' hv =>
                obtain ⟨hs'', htexts⟩ := ih.once _ v _ hv hvalue
                have hsep := h.skip hs''
                split at hscan
                · next heq =>
                    rw [heq] at hsep
                    obtain ⟨⟨fields', r'⟩, hfields, heq⟩ := Option.map_eq_some_iff.mp hscan
                    obtain ⟨rfl, rfl⟩ := Prod.mk.inj heq
                    obtain ⟨hr, hkeys⟩ := ih.fields _ _ _ hfields (h.step (by decide) (by decide) hsep)
                    exact ⟨hr, List.forall_mem_cons.mpr ⟨⟨hk, htexts.text⟩, hkeys⟩⟩
                · next heq =>
                    rw [heq] at hsep
                    obtain ⟨rfl, rfl⟩ := Prod.mk.inj (Option.some.inj hscan)
                    refine ⟨h.char _ _ (by decide) (by decide) hsep, fun f hf => ?_⟩
                    rw [List.mem_singleton.mp hf]
                    exact ⟨hk, htexts.text⟩
                · cases hscan
        · cases hscan
  · cases hscan

/-- **What survives characters and quotations survives values**, and so do the texts that are found. -/
theorem Survives.reads (h : Survives I K) (fuel : ℕ) : Reads ν I K fuel := by
  induction fuel with
  | zero => exact ⟨nofun, nofun, nofun⟩
  | succ fuel ih =>
      refine ⟨?_, ?_, ?_⟩
      · exact fun s v r hscan hs => h.once ih hscan hs
      · exact fun s items r hscan hs => h.items ih hscan hs
      · exact fun s fields r hscan hs => h.fields ih hscan hs

/-- The rule for a whole text. -/
theorem Survives.loads (h : Survives I K) (hloads : loads s = some v) (hs : I s) : I [] ∧ v.Texts K := by
  unfold Json.loads at hloads
  split at hloads
  · cases hloads
  · next v' r hscan =>
      split at hloads
      · next hend =>
          obtain rfl := Option.some.inj hloads
          obtain ⟨hr, hkeys⟩ := (h.reads _).once _ _ _ hscan (h.skip hs)
          exact ⟨hend ▸ h.skip hr, hkeys⟩
      · cases hloads

end

/-! ## Closed quotations -/

/-- Where a text leaves its reader. -/
inductive Mode
  | outside | inside | escaped
deriving DecidableEq

/-- One more character. -/
def Mode.read (m : Mode) (c : Char) : Mode :=
  match m with
  | .outside => if c = '"' then .inside else .outside
  | .inside => if c = '"' then .outside else if c = '\\' then .escaped else .inside
  | .escaped => .inside

section
variable {s r raw : List Char} {k : String} {v : Json ν}

/-- A quotation is read up to the mark that closes it. -/
theorem scanQuoted_eq_some (h : scanQuoted s = some (raw, r)) :
    s = raw ++ '"' :: r ∧ raw.foldl Mode.read .inside = .inside := by
  induction s using scanQuoted.induct generalizing raw with
  | case1 => cases h
  | case2 s =>
      obtain ⟨rfl, rfl⟩ := Prod.mk.inj (Option.some.inj h)
      exact ⟨rfl, rfl⟩
  | case3 => cases h
  | case4 c s ih =>
      obtain ⟨⟨raw', r'⟩, hscan, heq⟩ := Option.map_eq_some_iff.mp h
      obtain ⟨rfl, rfl⟩ := Prod.mk.inj heq
      obtain ⟨rfl, hmode⟩ := ih hscan
      exact ⟨rfl, hmode⟩
  | case5 c s hquote hlast hslash hlow =>
      rw [scanQuoted.eq_5 c s hquote hlast hslash, if_pos hlow] at h
      cases h
  | case6 c s hquote hlast hslash hlow ih =>
      rw [scanQuoted.eq_5 c s hquote hlast hslash, if_neg hlow] at h
      obtain ⟨⟨raw', r'⟩, hscan, heq⟩ := Option.map_eq_some_iff.mp h
      obtain ⟨rfl, rfl⟩ := Prod.mk.inj heq
      obtain ⟨rfl, hmode⟩ := ih hscan
      have hmark : c ≠ '\\' := by
        intro hc
        cases raw' with
        | nil => exact hslash _ _ hc rfl
        | cons d raw' => exact hslash _ _ hc rfl
      have hread : Mode.inside.read c = .inside := by
        show (if c = '"' then Mode.outside else if c = '\\' then .escaped else .inside) = _
        rw [if_neg hquote, if_neg hmark]
      exact ⟨rfl, by rw [List.foldl_cons, hread, hmode]⟩

theorem scanString_eq_some (h : scanString s = some (k, r)) :
    ∃ raw ns, scanQuoted s = some (raw, r) ∧ codes raw = some ns ∧ k = String.ofList (joinSurrogates ns) := by
  obtain ⟨⟨raw, r'⟩, hscan, h⟩ := Option.bind_eq_some_iff.mp h
  obtain ⟨ns, hcodes, h⟩ := Option.bind_eq_some_iff.mp h
  obtain ⟨rfl, rfl⟩ := Prod.mk.inj (Option.some.inj h)
  exact ⟨raw, ns, hscan, hcodes, rfl⟩

/-- **What is read as JSON closes its quotations.** -/
theorem loads_closed (h : loads s = some v) : s.foldl Mode.read .outside = .outside := by
  -- what has been read so far leaves the reader outside
  let Behind (u : List Char) : Prop := ∃ t, s = t ++ u ∧ t.foldl Mode.read .outside = .outside
  have hchar : ∀ c u, c ≠ '"' → c ≠ '\\' → Behind (c :: u) → Behind u := by
    rintro c u hquote - ⟨t, rfl, ht⟩
    refine ⟨t ++ [c], by simp, ?_⟩
    rw [List.foldl_append, ht]
    exact if_neg hquote
  have hstr : ∀ u k r, Behind ('"' :: u) → scanString u = some (k, r) → Behind r ∧ True := by
    rintro u k r ⟨t, hs, ht⟩ hstring
    obtain ⟨raw, -, hscan, -, -⟩ := scanString_eq_some hstring
    obtain ⟨rfl, hraw⟩ := scanQuoted_eq_some hscan
    refine ⟨⟨t ++ '"' :: raw ++ ['"'], by simp [hs], ?_⟩, trivial⟩
    rw [List.append_assoc, List.foldl_append, ht, List.cons_append, List.foldl_cons, List.foldl_append]
    show (raw.foldl Mode.read .inside).read '"' = _
    rw [hraw]
    rfl
  have hsurvives : Survives Behind fun _ => True := ⟨hchar, hstr⟩
  obtain ⟨⟨t, hs, ht⟩, -⟩ := hsurvives.loads h ⟨[], rfl, rfl⟩
  rw [hs, List.append_nil]
  exact ht

end

/-! ## Texts read from inside a quotation -/

/-- What is left of a text, seen from inside a quotation or from outside: outside there are only characters
with `P`, up to the first control character; inside there is anything, up to the first backslash. -/
inductive Quoted (P : Char → Prop) : Bool → List Char → Prop
  | nil {inside : Bool} : Quoted P inside []
  | plain {c : Char} {s : List Char} (hc : P c) (hquote : c ≠ '"') (hslash : c ≠ '\\') (hlow : 32 ≤ c.toNat)
      (h : Quoted P false s) : Quoted P false (c :: s)
  | control {c : Char} {s : List Char} (hlow : c.toNat < 32) : Quoted P false (c :: s)
  | opens {s : List Char} (h : Quoted P true s) : Quoted P false ('"' :: s)
  | char {c : Char} {s : List Char} (hquote : c ≠ '"') (h : Quoted P true s) : Quoted P true (c :: s)
  | slash {s : List Char} : Quoted P true ('\\' :: s)
  | closes {s : List Char} (h : Quoted P false s) : Quoted P true ('"' :: s)

section
variable {P : Char → Prop} {s r raw : List Char} {k : String} {v : Json ν} {c : Char}

theorem Quoted.tail (h : Quoted P true (c :: s)) (hquote : c ≠ '"') (hslash : c ≠ '\\') : Quoted P true s := by
  cases h with
  | char _ h => exact h
  | slash => exact absurd rfl hslash
  | closes => exact absurd rfl hquote

/-- What is so of a text is so of its beginning. -/
theorem Quoted.of_append {i : Bool} {t : List Char} (h : Quoted P i (s ++ t)) : Quoted P i s := by
  induction s generalizing i with
  | nil => exact .nil
  | cons c s ih =>
      cases h with
      | plain hc hquote hslash hlow h => exact .plain hc hquote hslash hlow (ih h)
      | control hlow => exact .control hlow
      | opens h => exact .opens (ih h)
      | char hquote h => exact .char hquote (ih h)
      | slash => exact .slash
      | closes h => exact .closes (ih h)

/-- Read from inside, what stands between two quotations is a quotation. -/
theorem Quoted.scanQuoted (h : Quoted P false s) (hscan : Json.scanQuoted s = some (raw, r)) :
    Quoted P true r ∧ ∀ c ∈ raw, P c ∧ c ≠ '\\' := by
  induction s generalizing raw with
  | nil => cases hscan
  | cons c s ih =>
      cases h with
      | plain hc hquote hslash hlow h =>
          rw [scanQuoted_plain hquote hslash hlow] at hscan
          obtain ⟨⟨raw', r'⟩, hscan', heq⟩ := Option.map_eq_some_iff.mp hscan
          obtain ⟨rfl, rfl⟩ := Prod.mk.inj heq
          obtain ⟨hr, hraw⟩ := ih h hscan'
          exact ⟨hr, List.forall_mem_cons.mpr ⟨⟨hc, hslash⟩, hraw⟩⟩
      | control hlow =>
          have hquote : c ≠ '"' := by
            rintro rfl
            exact absurd hlow (by decide)
          have hslash : c ≠ '\\' := by
            rintro rfl
            exact absurd hlow (by decide)
          rw [scanQuoted.eq_5 c s hquote (fun h => absurd h hslash) (fun _ _ h => absurd h hslash),
            if_pos hlow] at hscan
          cases hscan
      | opens h =>
          obtain ⟨rfl, rfl⟩ := Prod.mk.inj (Option.some.inj hscan)
          exact ⟨h, fun c hc => absurd hc List.not_mem_nil⟩

/-- Without backslashes a quotation says what stands there. -/
theorem codes_of_no_slash (h : ∀ c ∈ raw, c ≠ '\\') : codes raw = some (raw.map Char.toNat) := by
  induction raw with
  | nil => rfl
  | cons c raw ih =>
      obtain ⟨hc, hraw⟩ := List.forall_mem_cons.mp h
      rw [codes_plain hc, ih hraw]
      rfl

theorem Quoted.scanString (h : Quoted P false s) (hstring : Json.scanString s = some (k, r)) :
    Quoted P true r ∧ ∀ c ∈ k.toList, P c := by
  obtain ⟨raw, ns, hscan, hcodes, rfl⟩ := scanString_eq_some hstring
  obtain ⟨hr, hraw⟩ := h.scanQuoted hscan
  rw [codes_of_no_slash fun c hc => (hraw c hc).2] at hcodes
  have hjoin (cs : List Char) : joinSurrogates (cs.map Char.toNat) = cs := by
    induction cs with
    | nil => rfl
    | cons c cs ih => rw [List.map_cons, joinSurrogates_toNat, ih]
  rw [← Option.some.inj hcodes, hjoin, String.toList_ofList]
  exact ⟨hr, fun c hc => (hraw c hc).1⟩

/-- Inside, single characters and what stands between quotations leave the reader inside. -/
theorem Quoted.survives : Survives (Quoted P true) fun k => ∀ c ∈ k.toList, P c := by
  constructor
  · exact fun c u hquote hslash hu => hu.tail hquote hslash
  · intro u k r hu hstring
    cases hu with
    | char hquote => exact absurd rfl hquote
    | closes hu => exact hu.scanString hstring

theorem Quoted.behind (h : Quoted P true (s ++ r)) (hs : ∀ c ∈ s, c ≠ '"' ∧ c ≠ '\\') : Quoted P true r :=
  Quoted.survives.append hs h

/-- **Read from inside a quotation**, a text has no keys but what it has between quotations. -/
theorem keys_of_quoted (hs : Quoted P true s) (h : loads s = some v) : v.Keys fun k => ∀ c ∈ k.toList, P c :=
  (Quoted.survives.loads h hs).2.keys

end

/-! ## Texts that are written -/

/-- What values are written with outside their quotations. -/
def outsideChar (c : Char) : Bool := numberChar c || c ∈ ['[', ']', '{', '}', ',', ':', ' ', 'u', 'l', 'r', 's']

theorem outsideChar_plain {c : Char} (h : outsideChar c) : c ≠ '"' ∧ c ≠ '\\' ∧ 32 ≤ c.toNat := by
  refine ⟨?_, ?_, ?_⟩
  · rintro rfl
    cases h
  · rintro rfl
    cases h
  · by_contra hlow
    have hnone : ∀ n < 32, outsideChar (Char.ofNat n) = false := by decide
    rw [← Char.ofNat_toNat c, hnone c.toNat (not_le.mp hlow)] at h
    cases h

/-- A mark that is not used outside quotations, and characters that are enough outside. -/
structure Mark (P : Char → Prop) (b : Char) : Prop where
  outside : ∀ c, outsideChar c → P c
  hidden : outsideChar b = false
  quote : b ≠ '"'
  slash : b ≠ '\\'
  letter : simpleEscape b = none

/-- `s` takes a reader from one side of the quotations to the other, and all marks `b` in `s` are inside. -/
def Frames (P : Char → Prop) (b : Char) (i j : Bool) (s : List Char) : Prop :=
  ∀ r, Quoted P j r → Quoted P i (s ++ r) ∧ ∀ u, b :: u <:+ s ++ r → b :: u <:+ r ∨ Quoted P true (b :: u)

section
variable {P : Char → Prop} {b c : Char} {i j k : Bool} {s t : List Char}

theorem Frames.nil : Frames P b i i [] := fun _ hr => ⟨hr, fun _ hu => .inl hu⟩

theorem Frames.append (hs : Frames P b i j s) (ht : Frames P b j k t) : Frames P b i k (s ++ t) := by
  intro r hr
  obtain ⟨htr, htmarks⟩ := ht r hr
  obtain ⟨hsr, hsmarks⟩ := hs (t ++ r) htr
  rw [List.append_assoc]
  refine ⟨hsr, fun u hu => ?_⟩
  rcases hsmarks u hu with hu | hu
  · exact htmarks u hu
  · exact .inr hu

theorem Frames.flatMap {α : Type*} {f : α → List Char} {l : List α} (h : ∀ a ∈ l, Frames P b i i (f a)) :
    Frames P b i i (l.flatMap f) := by
  induction l with
  | nil => exact .nil
  | cons a l ih =>
      obtain ⟨ha, hl⟩ := List.forall_mem_cons.mp h
      exact ha.append (ih hl)

/-- One character that is not the mark. -/
theorem Frames.single (hb : c ≠ b) (h : ∀ r, Quoted P j r → Quoted P i (c :: r)) : Frames P b i j [c] := by
  refine fun r hr => ⟨h r hr, fun u hu => .inl ?_⟩
  rcases List.suffix_cons_iff.mp hu with heq | hu
  · exact absurd (List.cons.inj heq).1.symm hb
  · exact hu

/-- Inside, the mark may be any character. -/
theorem Frames.char (hquote : c ≠ '"') : Frames P b true true [c] := by
  refine fun r hr => ⟨.char hquote hr, fun u hu => ?_⟩
  rcases List.suffix_cons_iff.mp hu with heq | hu
  · exact .inr (heq ▸ .char hquote hr)
  · exact .inl hu

theorem Mark.plain (hb : Mark P b) (hc : outsideChar c) : Frames P b false false [c] := by
  obtain ⟨hquote, hslash, hlow⟩ := outsideChar_plain hc
  refine .single ?_ fun r hr => .plain (hb.outside c hc) hquote hslash hlow hr
  rintro rfl
  rw [hb.hidden] at hc
  cases hc

theorem Mark.outsideText (hb : Mark P b) (hs : ∀ c ∈ s, outsideChar c) : Frames P b false false s := by
  induction s with
  | nil => exact .nil
  | cons c s ih =>
      obtain ⟨hc, hs⟩ := List.forall_mem_cons.mp hs
      exact (hb.plain hc).append (ih hs)

theorem Mark.escapeChar (hb : Mark P b) (c : Char) : Frames P b true true (escapeChar c) := by
  have hescape {e : Char} (he : e ≠ b) : Frames P b true true ['\\', e] := by
    refine fun r hr => ⟨.slash, fun u hu => .inl ?_⟩
    rcases List.suffix_cons_iff.mp hu with heq | hu
    · exact absurd (List.cons.inj heq).1 hb.slash
    · rcases List.suffix_cons_iff.mp hu with heq | hu
      · exact absurd (List.cons.inj heq).1.symm he
      · exact hu
  have hescaped := escaped_escapeChar c
  generalize Json.escapeChar c = written at hescaped ⊢
  cases hescaped with
  | plain hquote hslash hlow hhigh => exact .char hquote
  | letter he hsmall =>
      refine hescape ?_
      rintro rfl
      rw [hb.letter] at he
      cases he
  | units =>
      refine .flatMap fun n _ => ?_
      have hu : 'u' ≠ b := by
        rintro rfl
        exact absurd hb.hidden (by decide)
      have hdigit (m : ℕ) : Frames P b true true [(m % 16).digitChar] :=
        .char (digitChar_plain (m % 16) (Nat.mod_lt _ (by decide))).1
      exact (hescape hu).append
        ((hdigit _).append ((hdigit _).append ((hdigit _).append (hdigit n))))

theorem Mark.quoteText (hb : Mark P b) (k : String) : Frames P b false false (Json.quote k) := by
  have hopen : Frames P b false true ['"'] := .single hb.quote.symm fun _ hr => .opens hr
  have hclose : Frames P b true false ['"'] := .single hb.quote.symm fun _ hr => .closes hr
  exact hopen.append ((Frames.flatMap fun c _ => hb.escapeChar c).append hclose)

end

end Json
