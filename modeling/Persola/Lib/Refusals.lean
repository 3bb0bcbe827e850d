import Persola.Lib.JsonRead
import Persola.Lib.Quotation

/-!
# `Refusals` — reading JSON with numbers that may be refused, beside reading all of it

Where the reader of numbers is the scanner's, but refuses some of them in a way of its own, so is the reader of whole
texts: it reads what is scanned, finds malformed what is, and otherwise has refused a number that stands in the text
(`read_agrees`).
-/

namespace Json

variable {ε ν β γ : Type*}

/-- What is read is what is scanned, what is malformed is not scanned, and what else may be wrong is `refused`. -/
def Agrees (malformed : ε) (refused : ε → Prop) : Except ε β → Option β → Prop
  | .ok x, o => o = some x
  | .error e, o => e = malformed ∧ o = none ∨ refused e

section
variable {malformed : ε} {refused : ε → Prop} {r : Except ε β} {o : Option β}

theorem Agrees.fault : Agrees malformed refused (.error malformed : Except ε β) none := .inl ⟨rfl, rfl⟩

theorem Agrees.faults (hr : r = .error malformed) (ho : o = none) : Agrees malformed refused r o := by
  rw [hr, ho]
  exact .fault

theorem Agrees.map (h : Agrees malformed refused r o) (f : β → γ) : Agrees malformed refused (r.map f) (o.map f) := by
  cases r with
  | ok x => exact congrArg (Option.map f) h
  | error e => exact h.imp_left fun ⟨he, ho⟩ => ⟨he, congrArg (Option.map f) ho⟩

theorem Agrees.bind {γ : Type _} (h : Agrees malformed refused r o) {f : β → Except ε γ} {g : β → Option γ}
    (hfg : ∀ x, o = some x → Agrees malformed refused (f x) (g x)) :
    Agrees malformed refused (r.bind f) (o.bind g) := by
  cases r with
  | ok x =>
      obtain rfl : o = some x := h
      exact hfg x rfl
  | error e => exact h.imp_left fun ⟨he, ho⟩ => ⟨he, congrArg (·.bind g) ho⟩

end

section
variable [Numeral ν] {malformed : ε} {refused : ε → Prop} {number : List Char → Except ε (ν × List Char)}
  {I : List Char → Prop} {K : String → Prop} {fuel : ℕ} {s : List Char}

/-- What reading with this fuel agrees with, from texts with the property on. -/
structure ReadsAgree (malformed : ε) (refused : ε → Prop) (number : List Char → Except ε (ν × List Char))
    (I : List Char → Prop) (fuel : ℕ) : Prop where
  once : ∀ s, I s → Agrees malformed refused (readOnce malformed number fuel s) (scanOnce fuel s)
  items : ∀ s, I s → Agrees malformed refused (readItems malformed number fuel s) (scanItems fuel s)
  fields : ∀ s, I s → Agrees malformed refused (readFields malformed number fuel s) (scanFields fuel s)

/-! ## The scanner, step by step -/

theorem scanOnce_else (hstring : ∀ t, s ≠ '"' :: t) (hbrace : ∀ t, s ≠ '{' :: t) (hbracket : ∀ t, s ≠ '[' :: t)
    (hnull : ∀ t, s ≠ 'n' :: 'u' :: 'l' :: 'l' :: t) (htrue : ∀ t, s ≠ 't' :: 'r' :: 'u' :: 'e' :: t)
    (hfalse : ∀ t, s ≠ 'f' :: 'a' :: 'l' :: 's' :: 'e' :: t) :
    scanOnce (fuel + 1) s = (Numeral.scan s).map fun (n, r) => (.number (ν := ν) n, r) := by
  rw [scanOnce]
  · exact hstring
  · exact hbrace
  · exact hbracket
  · exact hnull
  · exact htrue
  · exact hfalse

theorem scanItems_succ : scanItems (fuel + 1) s = (scanOnce (ν := ν) fuel s).bind fun (v, s) =>
    match skip s with
    | ',' :: s => (scanItems fuel (skip s)).map fun (items, r) => (v :: items, r)
    | ']' :: r => some ([v], r)
    | _ => none := by
  rw [scanItems]
  cases scanOnce (ν := ν) fuel s with
  | none => rfl
  | some vr => rfl

/-- What follows the key of an entry. -/
theorem scanFields_succ {k : String} {t u : List Char} (hkey : scanString s = some (k, t)) (hcolon : skip t = ':' :: u) :
    scanFields (ν := ν) (fuel + 1) ('"' :: s) = (scanOnce fuel (skip u)).bind fun (v, s) =>
      match skip s with
      | ',' :: s => (scanFields fuel (skip s)).map fun (fields, r) => ((k, v) :: fields, r)
      | '}' :: r => some ([(k, v)], r)
      | _ => none := by
  rw [scanFields, hkey]
  dsimp only
  rw [hcolon]
  split
  · next u' heq =>
      obtain rfl := (List.cons.inj heq).2
      cases scanOnce (ν := ν) fuel (skip u) with
      | none => rfl
      | some vr => rfl
  · next hno => exact absurd rfl (hno u)

theorem scanFields_no_key (hkey : scanString s = none) : scanFields (ν := ν) (fuel + 1) ('"' :: s) = none := by
  rw [scanFields, hkey]

theorem scanFields_no_colon {k : String} {t : List Char} (hkey : scanString s = some (k, t))
    (hcolon : ¬ ∃ u, skip t = ':' :: u) : scanFields (ν := ν) (fuel + 1) ('"' :: s) = none := by
  rw [scanFields, hkey]
  dsimp only
  split
  · next heq => exact absurd ⟨_, heq⟩ hcolon
  · rfl

theorem loads_eq : loads (ν := ν) s = (scanOnce (2 * s.length + 1) (skip s)).bind fun (v, r) =>
    if skip r = [] then some v else none := by
  unfold loads
  cases scanOnce (ν := ν) (2 * s.length + 1) (skip s) with
  | none => rfl
  | some vr => rfl

/-- A text goes on with the one separator, with the other, or with neither. -/
theorem separator_cases (a b : Char) (s : List Char) :
    (∃ r, s = a :: r) ∨ (∃ r, s = b :: r) ∨ (∀ r, s ≠ a :: r) ∧ ∀ r, s ≠ b :: r := by
  by_cases ha : ∃ r, s = a :: r
  · exact .inl ha
  by_cases hb : ∃ r, s = b :: r
  · exact .inr (.inl hb)
  exact .inr (.inr ⟨fun r heq => ha ⟨r, heq⟩, fun r heq => hb ⟨r, heq⟩⟩)

/-! ## The reader beside it -/

theorem Survives.onceAgrees (h : Survives I K) (hnumber : ∀ s, I s → Agrees malformed refused (number s) (Numeral.scan s))
    (ih : ReadsAgree malformed refused number I fuel) (hs : I s) :
    Agrees malformed refused (readOnce malformed number (fuel + 1) s) (scanOnce (fuel + 1) s) := by
  rw [readOnce.eq_def]
  dsimp only
  split
  · next s =>
      rw [scanOnce_string]
      cases scanString s with
      | none => exact .fault
      | some tr => exact rfl
  · next s =>
      have hbody := h.step (by decide) (by decide) hs
      split
      · next r heq =>
          rw [scanOnce_brace, heq]
          exact rfl
      · next hopen =>
          rw [scanOnce_object hopen]
          exact (ih.fields _ hbody).map _
  · next s =>
      have hbody := h.step (by decide) (by decide) hs
      split
      · next r heq =>
          rw [scanOnce_bracket, heq]
          exact rfl
      · next hopen =>
          rw [scanOnce_array hopen]
          exact (ih.items _ hbody).map _
  · exact rfl
  · exact rfl
  · exact rfl
  · next hstring hbrace hbracket hnull htrue hfalse =>
      rw [scanOnce_else hstring hbrace hbracket hnull htrue hfalse]
      exact (hnumber s hs).map _

theorem Survives.itemsAgree (h : Survives I K) (ih : ReadsAgree malformed refused number I fuel) (hs : I s) :
    Agrees malformed refused (readItems malformed number (fuel + 1) s) (scanItems (fuel + 1) s) := by
  rw [readItems, scanItems_succ]
  refine (ih.once s hs).bind fun vr hv => ?_
  obtain ⟨v, s'⟩ := vr
  have hsep := h.skip ((h.reads fuel).once s v s' hv hs).1
  dsimp only
  obtain ⟨r, heq⟩ | ⟨r, heq⟩ | ⟨hcomma, hbracket⟩ := separator_cases ',' ']' (Json.skip s')
  · rw [heq] at hsep ⊢
    exact (ih.items _ (h.step (by decide) (by decide) hsep)).map _
  · rw [heq]
    exact rfl
  · refine .faults ?_ ?_
    · split
      · next heq => exact absurd heq (hcomma _)
      · next heq => exact absurd heq (hbracket _)
      · rfl
    · split
      · next heq => exact absurd heq (hcomma _)
      · next heq => exact absurd heq (hbracket _)
      · rfl

theorem Survives.fieldsAgree (h : Survives I K) (ih : ReadsAgree malformed refused number I fuel) (hs : I s) :
    Agrees malformed refused (readFields malformed number (fuel + 1) s) (scanFields (fuel + 1) s) := by
  rw [readFields.eq_def]
  dsimp only
  split
  · next s =>
      cases hkey : scanString s with
      | none =>
          rw [scanFields_no_key hkey]
          exact .fault
      | some ks =>
          obtain ⟨k, s'⟩ := ks
          have hrest := h.skip (h.string s k s' hs hkey).1
          dsimp only
          by_cases hcolon : ∃ u, Json.skip s' = ':' :: u
          · obtain ⟨u, heq⟩ := hcolon
            rw [scanFields_succ hkey heq]
            rw [heq] at hrest ⊢
            have hvalue := h.step (by decide) (by decide) hrest
            refine (ih.once _ hvalue).bind fun vr hv => ?_
            obtain ⟨v, w⟩ := vr
            have hsep := h.skip ((h.reads fuel).once _ v w hv hvalue).1
            dsimp only
            obtain ⟨r, heq⟩ | ⟨r, heq⟩ | ⟨hcomma, hbrace⟩ := separator_cases ',' '}' (Json.skip w)
            · rw [heq] at hsep ⊢
              exact (ih.fields _ (h.step (by decide) (by decide) hsep)).map _
            · rw [heq]
              exact rfl
            · refine .faults ?_ ?_
              · split
                · next heq => exact absurd heq (hcomma _)
                · next heq => exact absurd heq (hbrace _)
                · rfl
              · split
                · next heq => exact absurd heq (hcomma _)
                · next heq => exact absurd heq (hbrace _)
                · rfl
          · refine .faults ?_ (scanFields_no_colon hkey hcolon)
            split
            · next heq => exact absurd ⟨_, heq⟩ hcolon
            · rfl
  · next hquote =>
      have hnone : scanFields (ν := ν) (fuel + 1) s = none := by
        rw [scanFields]
        exact hquote
      rw [hnone]
      exact .fault

/-- **Reading agrees with scanning.** -/
theorem Survives.readsAgree (h : Survives I K) (hnumber : ∀ s, I s → Agrees malformed refused (number s) (Numeral.scan s))
    (fuel : ℕ) : ReadsAgree malformed refused number I fuel := by
  induction fuel with
  | zero => exact ⟨fun _ _ => .fault, fun _ _ => .fault, fun _ _ => .fault⟩
  | succ fuel ih =>
      exact ⟨fun _ hs => h.onceAgrees hnumber ih hs, fun _ hs => h.itemsAgree ih hs, fun _ hs => h.fieldsAgree ih hs⟩

/-- **`read` beside `loads`**: it reads what is JSON, and finds malformed what is not, unless it refuses a number that
stands in the text. -/
theorem read_agrees (hnumber : ∀ s, Agrees malformed (fun e => e ≠ malformed) (number s) (Numeral.scan s)) (s : List Char) :
    Agrees malformed (fun e => e ≠ malformed ∧ ∃ u, u <:+ s ∧ number u = .error e) (read malformed number s)
      (loads s) := by
  have hsurvives : Survives (fun u => u <:+ s) fun _ => True := by
    refine ⟨fun c u _ _ hu => (List.suffix_cons c u).trans hu, fun u k r hu hstring => ⟨?_, trivial⟩⟩
    obtain ⟨raw, -, hscan, -⟩ := scanString_eq_some hstring
    obtain ⟨rfl, -⟩ := scanQuoted_eq_some hscan
    refine List.IsSuffix.trans ⟨'"' :: (raw ++ ['"']), ?_⟩ hu
    simp
  have hread : ReadsAgree malformed (fun e => e ≠ malformed ∧ ∃ u, u <:+ s ∧ number u = .error e) number
      (fun u => u <:+ s) (2 * s.length + 1) := by
    refine hsurvives.readsAgree (fun u hu => ?_) _
    have hagrees := hnumber u
    cases hresult : number u with
    | ok x =>
        rw [hresult] at hagrees
        exact hagrees
    | error e =>
        rw [hresult] at hagrees
        exact hagrees.imp_right fun hne => ⟨hne, u, hu, hresult⟩
  rw [loads_eq]
  refine (hread.once _ (hsurvives.skip List.suffix_rfl)).bind fun vr _ => ?_
  obtain ⟨v, r⟩ := vr
  dsimp only
  split
  · exact rfl
  · exact .fault

end

end Json
